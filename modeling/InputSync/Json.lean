/-
JSON texts: values, a compact printer, and a parser for the whole grammar that
gives up below a fixed depth.

An object keeps its entries in the order they have, repeated names included, so
what a reader does about a repeated name is the reader's business. A number is
an integer when it is spelled as one; any other is a mantissa with an exponent.

Two things are proved of the printer. The parser reads back what it printed, as
long as the integers are machine integers and the depth is within the limit
(`parse_print`). And the text is on one line and holds no control character at
all, whatever is in the strings (`print_plain`).
-/
import Mathlib.Algebra.Group.Int.Defs
import Mathlib.Algebra.Group.Nat.Defs
import Mathlib.Data.List.Basic
import Mathlib.Tactic.Common

set_option autoImplicit false

namespace InputSync

/-- A JSON value. -/
inductive Json
  | null
  | bool (b : Bool)
  | int (n : Int)
  | decimal (mantissa exponent : Int)
  | str (s : String)
  | arr (items : List Json)
  | obj (entries : List (String × Json))

namespace Json

/-- No deeper than `depth`, and every number is an integer of 64 bits, signed or
not. -/
inductive Fits : Nat → Json → Prop
  | null (depth : Nat) : Fits depth .null
  | bool (depth : Nat) (b : Bool) : Fits depth (.bool b)
  | int (depth : Nat) (n : Int) (low : -2 ^ 63 ≤ n) (high : n < 2 ^ 64) : Fits depth (.int n)
  | str (depth : Nat) (s : String) : Fits depth (.str s)
  | arr (depth : Nat) (items : List Json) (each : ∀ x ∈ items, Fits depth x) :
      Fits (depth + 1) (.arr items)
  | obj (depth : Nat) (entries : List (String × Json)) (each : ∀ e ∈ entries, Fits depth e.2) :
      Fits (depth + 1) (.obj entries)

/-- A value that fits fits a larger depth too. The depth is a bound in `parse` and grows
by one at each bracket, so proofs by induction need room above. -/
theorem Fits.mono {depth depth' : Nat} {j : Json} (h : Fits depth j) (hle : depth ≤ depth') :
    Fits depth' j := by
  induction h generalizing depth' with
  | null depth => exact .null depth'
  | bool depth b => exact .bool depth' b
  | int depth n low high => exact .int depth' n low high
  | str depth s => exact .str depth' s
  | arr depth items each ih =>
      obtain ⟨k, rfl⟩ : ∃ k, depth' = k + 1 := ⟨depth' - 1, by omega⟩
      exact .arr k items (fun x hx => ih x hx (by omega))
  | obj depth entries each ih =>
      obtain ⟨k, rfl⟩ : ∃ k, depth' = k + 1 := ⟨depth' - 1, by omega⟩
      exact .obj k entries (fun e he => ih e he (by omega))

/-! ## Printing

What `serde_json::to_string` prints. Characters above the ASCII range are printed as
they are. -/

/-- The digits of `n`, with a sign if it is negative. -/
def print_int (n : Int) : List Char :=
  if n < 0 then '-' :: Nat.toDigits 10 n.natAbs else Nat.toDigits 10 n.natAbs

/-- The hexadecimal digit. -/
def hex_digit (n : Nat) : Char := if n < 10 then .ofNat (n + 48) else .ofNat (n + 87)

/-- A character inside a string: quotes, backslashes and control characters are
escaped. -/
def escape (c : Char) : List Char :=
  if c = '"' then ['\\', '"']
  else if c = '\\' then ['\\', '\\']
  else if c = '\x08' then ['\\', 'b']
  else if c = '\x0c' then ['\\', 'f']
  else if c = '\n' then ['\\', 'n']
  else if c = '\r' then ['\\', 'r']
  else if c = '\t' then ['\\', 't']
  else if c.toNat < 0x20 then
    ['\\', 'u', '0', '0', hex_digit (c.toNat / 16), hex_digit (c.toNat % 16)]
  else [c]

/-- A string, between quotes. -/
def print_string (s : String) : List Char := '"' :: (s.toList.flatMap escape ++ ['"'])

mutual

/-- The compact text: no space outside the strings. -/
def print : Json → List Char
  | .null => ['n', 'u', 'l', 'l']
  | .bool true => ['t', 'r', 'u', 'e']
  | .bool false => ['f', 'a', 'l', 's', 'e']
  | .int n => print_int n
  | .decimal mantissa exponent => print_int mantissa ++ 'e' :: print_int exponent
  | .str s => print_string s
  | .arr [] => ['[', ']']
  | .arr (x :: xs) => '[' :: (print x ++ print_items xs)
  | .obj [] => ['{', '}']
  | .obj ((name, v) :: es) => '{' :: (print_string name ++ ':' :: (print v ++ print_entries es))

/-- What follows an item of an array. -/
def print_items : List Json → List Char
  | [] => [']']
  | x :: xs => ',' :: (print x ++ print_items xs)

/-- What follows an entry of an object. -/
def print_entries : List (String × Json) → List Char
  | [] => ['}']
  | (name, v) :: es => ',' :: (print_string name ++ ':' :: (print v ++ print_entries es))

end

/-! ## Parsing

The grammar of JSON with its recursion made structural: `depth` is the limit of the
parser, and the fuel is the length of the text, which is always enough. -/

/-- White space between tokens. -/
def is_space (c : Char) : Bool := c = ' ' ∨ c = '\t' ∨ c = '\n' ∨ c = '\r'

/-- The text after the spaces. -/
def skip (cs : List Char) : List Char := cs.dropWhile is_space

/-- Digits, at least one. -/
def digits (cs : List Char) : Option (List Char × List Char) :=
  match cs.takeWhile Char.isDigit with
  | [] => none
  | d :: ds => some (d :: ds, cs.dropWhile Char.isDigit)

/-- The digits before a point; a zero stands alone. -/
def natural (cs : List Char) : Option (Nat × List Char) :=
  match digits cs with
  | some (['0'], cs) => some (0, cs)
  | some ('0' :: _, _) => none
  | some (ds, cs) => some (Nat.ofDigitChars 10 ds 0, cs)
  | none => none

/-- The digits after a point, if there is one. -/
def fraction : List Char → Option (List Char × List Char)
  | '.' :: cs => digits cs
  | cs => some ([], cs)

/-- The exponent, if there is one. -/
def exponent : List Char → Option (Option Int × List Char)
  | 'e' :: cs | 'E' :: cs =>
    let (negative, cs) :=
      match cs with
      | '-' :: cs => (true, cs)
      | '+' :: cs => (false, cs)
      | cs => (false, cs)
    (digits cs).map (fun r =>
      let n : Int := Nat.ofDigitChars 10 r.1 0
      (some (if negative then -n else n), r.2))
  | cs => some (none, cs)

/-- A number without its sign. -/
def unsigned (negative : Bool) (cs : List Char) : Option (Json × List Char) := do
  let (n, cs) ← natural cs
  let (places, cs) ← fraction cs
  let (power, cs) ← exponent cs
  let mantissa : Int := Nat.ofDigitChars 10 places n
  let mantissa := if negative then -mantissa else mantissa
  if places = [] ∧ power = none then return (.int mantissa, cs)
  else return (.decimal mantissa (power.getD 0 - places.length), cs)

/-- A number, with its sign. -/
def number : List Char → Option (Json × List Char)
  | '-' :: cs => unsigned true cs
  | cs => unsigned false cs

/-- The value of a hexadecimal digit, in either case. -/
def hex_value (c : Char) : Option Nat :=
  if '0' ≤ c ∧ c ≤ '9' then some (c.toNat - 48)
  else if 'a' ≤ c ∧ c ≤ 'f' then some (c.toNat - 87)
  else if 'A' ≤ c ∧ c ≤ 'F' then some (c.toNat - 55)
  else none

/-- The four digits after `\u`. -/
def code_unit : List Char → Option (Nat × List Char)
  | a :: b :: c :: d :: cs => do
    let a ← hex_value a
    let b ← hex_value b
    let c ← hex_value c
    let d ← hex_value d
    return (((a * 16 + b) * 16 + c) * 16 + d, cs)
  | _ => none

/-- What follows `\u`: a character, or the first half of one whose second half
comes right after. -/
def unicode (cs : List Char) : Option (Char × List Char) := do
  let (high, cs) ← code_unit cs
  if high < 0xd800 ∨ 0xdfff < high then return (.ofNat high, cs)
  else if 0xdbff < high then none
  else
    match cs with
    | '\\' :: 'u' :: cs =>
      let (low, cs) ← code_unit cs
      if 0xdc00 ≤ low ∧ low ≤ 0xdfff then
        return (.ofNat (0x10000 + (high - 0xd800) * 0x400 + (low - 0xdc00)), cs)
      else none
    | _ => none

/-- One character of a string. -/
def character : List Char → Option (Char × List Char)
  | '\\' :: 'u' :: cs => unicode cs
  | '\\' :: c :: cs =>
    match c with
    | '"' => some ('"', cs)
    | '\\' => some ('\\', cs)
    | '/' => some ('/', cs)
    | 'b' => some ('\x08', cs)
    | 'f' => some ('\x0c', cs)
    | 'n' => some ('\n', cs)
    | 'r' => some ('\r', cs)
    | 't' => some ('\t', cs)
    | _ => none
  | c :: cs => if c = '\\' ∨ c.toNat < 0x20 then none else some (c, cs)
  | [] => none

/-- A string after its opening quote, with fuel for its characters. -/
def string_rest : Nat → List Char → Option (List Char × List Char)
  | 0, _ => none
  | _ + 1, '"' :: cs => some ([], cs)
  | n + 1, cs => do
    let (c, cs) ← character cs
    let (s, cs) ← string_rest n cs
    return (c :: s, cs)

/-- A string, from its opening quote. -/
def string (cs : List Char) : Option (String × List Char) :=
  match cs with
  | '"' :: cs => (string_rest cs.length cs).map (fun r => (.ofList r.1, r.2))
  | _ => none

/-- The rest of a keyword. -/
def keyword (rest : List Char) (j : Json) (cs : List Char) : Option (Json × List Char) :=
  if rest.isPrefixOf cs then some (j, cs.drop rest.length) else none

/-- An entry of an object, given how a value is read. -/
def entry (value : List Char → Option (Json × List Char)) (cs : List Char) :
    Option ((String × Json) × List Char) := do
  let (name, cs) ← string (skip cs)
  match skip cs with
  | ':' :: cs =>
    let (v, cs) ← value cs
    return ((name, v), cs)
  | _ => none

mutual

/-- A value at most `depth` deep, with fuel. -/
def value : Nat → Nat → List Char → Option (Json × List Char)
  | 0, _, _ => none
  | n + 1, depth, cs =>
    match skip cs with
    | 'n' :: cs => keyword ['u', 'l', 'l'] .null cs
    | 't' :: cs => keyword ['r', 'u', 'e'] (.bool true) cs
    | 'f' :: cs => keyword ['a', 'l', 's', 'e'] (.bool false) cs
    | '"' :: cs => (string ('"' :: cs)).map (fun r => (.str r.1, r.2))
    | '[' :: cs =>
      match depth, skip cs with
      | 0, _ => none
      | _ + 1, ']' :: cs => some (.arr [], cs)
      | depth + 1, cs => do
        let (x, cs) ← value n depth cs
        let (xs, cs) ← items n depth cs
        return (.arr (x :: xs), cs)
    | '{' :: cs =>
      match depth, skip cs with
      | 0, _ => none
      | _ + 1, '}' :: cs => some (.obj [], cs)
      | depth + 1, cs => do
        let (e, cs) ← entry (value n depth) cs
        let (es, cs) ← entries n depth cs
        return (.obj (e :: es), cs)
    | cs => number cs

/-- What follows the first item of an array, -/
def items : Nat → Nat → List Char → Option (List Json × List Char)
  | 0, _, _ => none
  | n + 1, depth, cs =>
    match skip cs with
    | ']' :: cs => some ([], cs)
    | ',' :: cs => do
      let (x, cs) ← value n depth cs
      let (xs, cs) ← items n depth cs
      return (x :: xs, cs)
    | _ => none

/-- and what follows the first entry of an object. -/
def entries : Nat → Nat → List Char → Option (List (String × Json) × List Char)
  | 0, _, _ => none
  | n + 1, depth, cs =>
    match skip cs with
    | '}' :: cs => some ([], cs)
    | ',' :: cs => do
      let (e, cs) ← entry (value n depth) cs
      let (es, cs) ← entries n depth cs
      return (e :: es, cs)
    | _ => none

end

/-- A text that is one value, with spaces around it. -/
def parse (limit : Nat) (cs : List Char) : Option Json :=
  match value cs.length limit cs with
  | some (j, cs) => if skip cs = [] then some j else none
  | none => none

/-! ## Reading back numbers

A number is the only value without a closing mark. It ends where the printed text goes
on, so the lemmas of this section speak about what may follow. -/

/-- The end of a text, or what can come after a value in a printed one. -/
def Ends (r : List Char) : Prop :=
  ∀ c ∈ r.head?, c = ',' ∨ c = ']' ∨ c = '}'

/-- What follows a printed value is the end, a comma or a closing bracket. This is the
case split behind every statement about a number, whose end is not marked. -/
theorem Ends.head {r : List Char} (h : Ends r) :
    r = [] ∨ ∃ c cs, r = c :: cs ∧ (c = ',' ∨ c = ']' ∨ c = '}') := by
  cases r with
  | nil => exact .inl rfl
  | cons c cs => exact .inr ⟨c, cs, rfl, h c rfl⟩

/-- A run of digits in front of an end is split off whole, because no end begins with a
digit. -/
theorem takeWhile_digits {ds r : List Char} (hds : ∀ c ∈ ds, c.isDigit = true) (hr : Ends r) :
    (ds ++ r).takeWhile Char.isDigit = ds ∧ (ds ++ r).dropWhile Char.isDigit = r := by
  have hstop : r.takeWhile Char.isDigit = [] ∧ r.dropWhile Char.isDigit = r := by
    rcases hr.head with rfl | ⟨c, cs, rfl, rfl | rfl | rfl⟩
    · exact ⟨rfl, rfl⟩
    all_goals exact ⟨rfl, rfl⟩
  rw [List.takeWhile_append_of_pos hds, List.dropWhile_append_of_pos hds, hstop.1, hstop.2,
    List.append_nil]
  exact ⟨rfl, rfl⟩

/-- What is printed of a natural are digits. -/
theorem isDigit_of_mem_digits {n : Nat} {c : Char} (h : c ∈ Nat.toDigits 10 n) :
    c.isDigit = true :=
  Nat.isDigit_of_mem_toDigits (by decide) (by decide) h

/-- Of the ten digits only zero is spelled `0`. -/
theorem digitChar_ne_zero : ∀ n < 10, n ≠ 0 → Nat.digitChar n ≠ '0' := by decide

/-- The first digit is a zero for zero only. -/
theorem toDigits_head {n : Nat} (hn : n ≠ 0) :
    ∃ d ds, Nat.toDigits 10 n = d :: ds ∧ d ≠ '0' := by
  induction n using Nat.strongRecOn with
  | ind n ih =>
      by_cases hlt : n < 10
      · exact ⟨n.digitChar, [], Nat.toDigits_of_lt_base hlt, digitChar_ne_zero n hlt hn⟩
      · obtain ⟨d, ds, hds, hd⟩ := ih (n / 10) (by omega) (by omega)
        rw [Nat.toDigits_of_base_le (by decide) (by omega), hds]
        exact ⟨d, _, rfl, hd⟩

/-- The reader's digits are the printed ones, in front of any end. From here the chain
is one lemma for each function of the number parser. -/
theorem digits_toDigits (n : Nat) {r : List Char} (hr : Ends r) :
    digits (Nat.toDigits 10 n ++ r) = some (Nat.toDigits 10 n, r) := by
  have hall : ∀ c ∈ Nat.toDigits 10 n, c.isDigit = true := fun c hc => isDigit_of_mem_digits hc
  obtain ⟨htake, hdrop⟩ := takeWhile_digits hall hr
  unfold digits
  rw [htake, hdrop]
  cases hds : Nat.toDigits 10 n with
  | nil => exact absurd hds Nat.toDigits_ne_nil
  | cons d ds => rfl

/-- Their value is the number. `natural` refuses a leading zero, which is why
`toDigits_head` is needed. -/
theorem natural_toDigits (n : Nat) {r : List Char} (hr : Ends r) :
    natural (Nat.toDigits 10 n ++ r) = some (n, r) := by
  unfold natural
  rw [digits_toDigits n hr]
  -- zero is written as one digit; any other number does not begin with one, so the
  -- reader's check for a leading zero passes
  by_cases hn : n = 0
  · rw [hn, Nat.toDigits_zero]
    rfl
  · obtain ⟨d, ds, hds, hd⟩ := toDigits_head hn
    have hvalue : Nat.ofDigitChars 10 (d :: ds) 0 = n := by
      rw [← hds, Nat.ofDigitChars_ten_toDigits]
    rw [hds]
    split
    · rename_i heq
      exact absurd (List.head_eq_of_cons_eq (Prod.mk.inj (Option.some.inj heq)).1) hd
    · rename_i heq
      exact absurd (List.head_eq_of_cons_eq (Prod.mk.inj (Option.some.inj heq)).1) hd
    · rename_i heq
      cases heq
      rw [hvalue]
    · rename_i heq
      cases heq

/-- With no point and no exponent behind them the digits are an integer, not a mantissa.
-/
theorem unsigned_toDigits (negative : Bool) (n : Nat) {r : List Char} (hr : Ends r) :
    unsigned negative (Nat.toDigits 10 n ++ r)
      = some (.int (if negative then -(n : Int) else n), r) := by
  have hfraction : fraction r = some ([], r) := by
    rcases hr.head with rfl | ⟨c, cs, rfl, rfl | rfl | rfl⟩ <;> rfl
  have hexponent : exponent r = some (none, r) := by
    rcases hr.head with rfl | ⟨c, cs, rfl, rfl | rfl | rfl⟩ <;> rfl
  simp only [unsigned, natural_toDigits n hr, hfraction, hexponent, Option.bind_eq_bind,
    Option.bind_some, Nat.ofDigitChars_nil, and_self, if_true]
  rfl

/-- An integer is read back with its sign. -/
theorem number_print_int (n : Int) {r : List Char} (hr : Ends r) :
    number (print_int n ++ r) = some (.int n, r) := by
  unfold print_int
  -- a negative number begins with its sign; a natural one begins with a digit, and no
  -- digit is the sign
  split_ifs with hneg
  · have hn : -(n.natAbs : Int) = n := by omega
    rw [List.cons_append, number, unsigned_toDigits true _ hr, if_pos rfl, hn]
  · have hn : (n.natAbs : Int) = n := by omega
    have hnumber : number (Nat.toDigits 10 n.natAbs ++ r)
        = unsigned false (Nat.toDigits 10 n.natAbs ++ r) := by
      cases hds : Nat.toDigits 10 n.natAbs with
      | nil => exact absurd hds Nat.toDigits_ne_nil
      | cons d ds =>
          have hd : d.isDigit = true := isDigit_of_mem_digits (hds ▸ List.mem_cons_self)
          unfold number
          split
          · rename_i heq
            obtain rfl := List.head_eq_of_cons_eq heq
            cases hd
          · rfl
    rw [hnumber, unsigned_toDigits false _ hr, if_neg (by decide), hn]

/-! ## Reading back strings

Escaping is undone character by character. -/

/-- The sixteen digits of a `\u` escape are inverse to their values. -/
theorem hex_value_hex_digit : ∀ n < 16, hex_value (hex_digit n) = some n := by decide

/-- What is escaped by a letter, and by which. -/
def letters : List (Char × Char) :=
  [('"', '"'), ('\\', '\\'), ('\x08', 'b'), ('\x0c', 'f'), ('\n', 'n'), ('\r', 'r'), ('\t', 't')]

/-- The three ways a character is printed: behind a backslash by a letter, as four
hexadecimal digits, or as itself. Reading back and plainness both split on it. -/
theorem escape_cases (c : Char) :
    (∃ e, (c, e) ∈ letters ∧ escape c = ['\\', e]) ∨
    (c.toNat < 0x20 ∧
      escape c = ['\\', 'u', '0', '0', hex_digit (c.toNat / 16), hex_digit (c.toNat % 16)]) ∨
    (c ≠ '"' ∧ c ≠ '\\' ∧ 0x20 ≤ c.toNat ∧ escape c = [c]) := by
  unfold escape
  by_cases hquote : c = '"'
  · exact .inl ⟨'"', by rw [hquote]; decide, if_pos hquote⟩
  rw [if_neg hquote]
  by_cases hslash : c = '\\'
  · exact .inl ⟨'\\', by rw [hslash]; decide, if_pos hslash⟩
  rw [if_neg hslash]
  iterate 5
    split
    · rename_i h
      exact .inl ⟨_, by rw [h]; decide, rfl⟩
  split
  · rename_i hcontrol
    exact .inr (.inl ⟨hcontrol, rfl⟩)
  · rename_i hplain
    exact .inr (.inr ⟨hquote, hslash, by omega, rfl⟩)

/-- The character an escape stands for. -/
theorem character_escape (c : Char) (r : List Char) :
    character (escape c ++ r) = some (c, r) := by
  obtain ⟨e, hmem, he⟩ | ⟨hcontrol, he⟩ | ⟨-, hslash, hplain, he⟩ := escape_cases c
  · rw [he]
    simp only [letters, List.mem_cons, Prod.mk.injEq, List.not_mem_nil, or_false] at hmem
    rcases hmem with ⟨rfl, rfl⟩ | ⟨rfl, rfl⟩ | ⟨rfl, rfl⟩ | ⟨rfl, rfl⟩ | ⟨rfl, rfl⟩ | ⟨rfl, rfl⟩ |
      ⟨rfl, rfl⟩ <;> rfl
  · -- the two last digits spell a control character
    have hcode : ((0 * 16 + 0) * 16 + c.toNat / 16) * 16 + c.toNat % 16 = c.toNat := by omega
    have hhigh := hex_value_hex_digit (c.toNat / 16) (by omega)
    have hlow := hex_value_hex_digit (c.toNat % 16) (by omega)
    have hzero : hex_value '0' = some 0 := rfl
    simp only [he, List.cons_append, List.nil_append, character, unicode, code_unit, hzero, hhigh,
      hlow, Option.bind_eq_bind, Option.bind_some, Option.pure_def, hcode]
    rw [if_pos (by omega), Char.ofNat_toNat]
  · rw [he, List.singleton_append]
    unfold character
    split
    · rename_i heq
      exact absurd (List.head_eq_of_cons_eq heq) hslash
    · rename_i heq
      exact absurd (List.head_eq_of_cons_eq heq) hslash
    · rename_i heq
      cases heq
      rw [if_neg (not_or.mpr ⟨hslash, Nat.not_lt.mpr hplain⟩)]
    · rename_i heq
      cases heq

/-- Nothing an escape begins with closes the string. -/
theorem escape_head (c : Char) : ∃ d ds, escape c = d :: ds ∧ d ≠ '"' := by
  obtain ⟨e, -, he⟩ | ⟨-, he⟩ | ⟨hquote, -, -, he⟩ := escape_cases c
  · exact ⟨'\\', _, he, by decide⟩
  · exact ⟨'\\', _, he, by decide⟩
  · exact ⟨c, [], he, hquote⟩

/-- The escaped characters are read back up to the closing quote. The induction is on
the string; a character takes one unit of fuel and at least one printed character, so
the length of the text is fuel enough. -/
theorem string_rest_escape (cs : List Char) (r : List Char) (n : Nat)
    (hn : (cs.flatMap escape).length < n) :
    string_rest n (cs.flatMap escape ++ '"' :: r) = some (cs, r) := by
  induction cs generalizing n with
  | nil =>
      obtain ⟨k, rfl⟩ : ∃ k, n = k + 1 := ⟨n - 1, by omega⟩
      rfl
  -- no escape begins with a quote, so the reader takes a character here and goes on
  | cons c cs ih =>
      obtain ⟨k, rfl⟩ : ∃ k, n = k + 1 := ⟨n - 1, by omega⟩
      have hchar := character_escape c (cs.flatMap escape ++ '"' :: r)
      obtain ⟨d, ds, hesc, hd⟩ := escape_head c
      rw [List.flatMap_cons, List.length_append, hesc, List.length_cons] at hn
      rw [List.flatMap_cons, List.append_assoc]
      rw [hesc, List.cons_append] at hchar ⊢
      have hstep : string_rest (k + 1) (d :: (ds ++ (cs.flatMap escape ++ '"' :: r))) = do
          let (c, cs) ← character (d :: (ds ++ (cs.flatMap escape ++ '"' :: r)))
          let (s, cs) ← string_rest k cs
          return (c :: s, cs) := by
        rw [string_rest]
        rintro cs heq
        exact hd (List.head_eq_of_cons_eq heq)
      rw [hstep, hchar]
      simp [ih k (by omega)]

/-- A printed string is read back, whatever comes after it: its end is its quote. -/
theorem string_print_string (s : String) (r : List Char) :
    string (print_string s ++ r) = some (s, r) := by
  simp only [print_string, List.cons_append, List.append_assoc, string, List.nil_append]
  rw [string_rest_escape s.toList r _ (by simp), Option.map_some, String.ofList_toList]

/-! ## Reading back values

`ReadBack` is general in the fuel and in what follows, which makes the induction over
the value go through; `parse_print` then takes the fuel `parse` starts with. -/

/-- A printed value begins with no space and no closing bracket. -/
theorem print_head (j : Json) :
    ∃ c cs, print j = c :: cs ∧ is_space c = false ∧ c ≠ ']' := by
  -- a number begins with its sign or with a digit
  have hint : ∀ n : Int, ∃ c cs, print_int n = c :: cs ∧ is_space c = false ∧ c ≠ ']' := by
    intro n
    unfold print_int
    split_ifs
    · exact ⟨_, _, rfl, rfl, by decide⟩
    · cases hds : Nat.toDigits 10 n.natAbs with
      | nil => exact absurd hds Nat.toDigits_ne_nil
      | cons d ds =>
          have hd : d.isDigit = true := isDigit_of_mem_digits (hds ▸ List.mem_cons_self)
          refine ⟨d, ds, rfl, ?_, ?_⟩
          · simp only [is_space, decide_eq_false_iff_not]
            rintro (rfl | rfl | rfl | rfl) <;> cases hd
          · rintro rfl
            cases hd
  unfold print
  split
  case h_4 n => exact hint n
  case h_5 mantissa exponent =>
      obtain ⟨c, cs, hcs, hc⟩ := hint mantissa
      exact ⟨c, cs ++ 'e' :: print_int exponent, by rw [hcs, List.cons_append], hc⟩
  all_goals exact ⟨_, _, rfl, rfl, by decide⟩

/-- The printer leaves no space for `skip` to take. -/
theorem skip_print (j : Json) (r : List Char) : skip (print j ++ r) = print j ++ r := by
  obtain ⟨c, cs, hcs, hspace, -⟩ := print_head j
  simp [skip, hcs, hspace]

/-- Fuel for a printed value is fuel for a step. -/
theorem print_fuel {j : Json} {n : Nat} (hn : (print j).length ≤ n) : ∃ k, n = k + 1 := by
  obtain ⟨c, cs, hcs, -⟩ := print_head j
  rw [hcs, List.length_cons] at hn
  exact ⟨n - 1, by omega⟩

/-- A value that is read back, whatever the fuel as long as there is enough, and
whatever comes after it. -/
def ReadBack (depth : Nat) (j : Json) : Prop :=
  ∀ n r, (print j).length ≤ n → Ends r → value n depth (print j ++ r) = some (j, r)

/-- After an item of an array comes a comma or the bracket, so a number in it is read to
its end. -/
theorem ends_print_items (xs : List Json) (r : List Char) : Ends (print_items xs ++ r) := by
  cases xs <;> simp [Ends, print_items]

/-- After an entry of an object comes a comma or the brace. -/
theorem ends_print_entries (es : List (String × Json)) (r : List Char) :
    Ends (print_entries es ++ r) := by
  cases es <;> simp [Ends, print_entries]

/-- The rest of an array is read back if its items are. The induction is on the list,
with the fuel general. -/
theorem items_print {depth : Nat} {xs : List Json} (hxs : ∀ x ∈ xs, ReadBack depth x)
    (n : Nat) (r : List Char) (hn : (print_items xs).length ≤ n) :
    items n depth (print_items xs ++ r) = some (xs, r) := by
  induction xs generalizing n with
  | nil =>
      obtain ⟨k, rfl⟩ : ∃ k, n = k + 1 := ⟨n - 1, by simp [print_items] at hn; omega⟩
      rfl
  | cons x xs ih =>
      simp only [print_items, List.length_cons, List.length_append] at hn
      obtain ⟨k, rfl⟩ : ∃ k, n = k + 1 := ⟨n - 1, by omega⟩
      have hx := hxs x List.mem_cons_self k (print_items xs ++ r) (by omega) (ends_print_items xs r)
      have hrest := ih (fun y hy => hxs y (List.mem_cons_of_mem x hy)) k (by omega)
      have hskip : skip (',' :: (print x ++ print_items xs ++ r))
          = ',' :: (print x ++ print_items xs ++ r) := rfl
      simp only [print_items, List.cons_append, items, hskip]
      rw [List.append_assoc, hx]
      simp [hrest]

/-- An entry is read back if its value is; the name, the colon and the absence of spaces
are taken care of here. -/
theorem entry_print {read : List Char → Option (Json × List Char)} {e : String × Json}
    {r r' : List Char} (hread : read (print e.2 ++ r) = some (e.2, r')) :
    entry read (print_string e.1 ++ ':' :: (print e.2 ++ r)) = some (e, r') := by
  have hskip : skip (print_string e.1 ++ ':' :: (print e.2 ++ r))
      = print_string e.1 ++ ':' :: (print e.2 ++ r) := rfl
  have hcolon : skip (':' :: (print e.2 ++ r)) = ':' :: (print e.2 ++ r) := rfl
  simp [entry, hskip, string_print_string, hcolon, hread]

/-- The rest of an object, in the same way as that of an array. -/
theorem entries_print {depth : Nat} {es : List (String × Json)}
    (hes : ∀ e ∈ es, ReadBack depth e.2) (n : Nat) (r : List Char)
    (hn : (print_entries es).length ≤ n) :
    entries n depth (print_entries es ++ r) = some (es, r) := by
  induction es generalizing n with
  | nil =>
      obtain ⟨k, rfl⟩ : ∃ k, n = k + 1 := ⟨n - 1, by simp [print_entries] at hn; omega⟩
      rfl
  | cons e es ih =>
      obtain ⟨name, v⟩ := e
      simp only [print_entries, List.length_cons, List.length_append] at hn
      obtain ⟨k, rfl⟩ : ∃ k, n = k + 1 := ⟨n - 1, by omega⟩
      have hv := hes (name, v) List.mem_cons_self k (print_entries es ++ r) (by dsimp only; omega)
        (ends_print_entries es r)
      have hrest := ih (fun y hy => hes y (List.mem_cons_of_mem _ hy)) k (by omega)
      have hentry := entry_print (e := (name, v)) hv
      have hskip : ∀ cs, skip (',' :: cs) = ',' :: cs := fun cs => rfl
      simp only [print_entries, List.cons_append, List.append_assoc, entries, hskip]
      rw [hentry]
      simp [hrest]

/-- An integer at the place of a value. What `value` looks at first is a digit or a
minus sign, neither of which begins any other value. -/
theorem value_print_int (n : Int) (depth k : Nat) {r : List Char} (hr : Ends r) :
    value (k + 1) depth (print_int n ++ r) = some (.int n, r) := by
  have hdispatch : value (k + 1) depth (print_int n ++ r) = number (print_int n ++ r) := by
    have hskip := skip_print (.int n) r
    rw [print] at hskip
    rw [value, hskip]
    -- a sign or a digit begins none of the other values
    have hhead : ∃ c cs, print_int n ++ r = c :: cs ∧ (c = '-' ∨ c.isDigit = true) := by
      unfold print_int
      split_ifs
      · exact ⟨_, _, rfl, .inl rfl⟩
      · cases hds : Nat.toDigits 10 n.natAbs with
        | nil => exact absurd hds Nat.toDigits_ne_nil
        | cons d ds => exact ⟨d, ds ++ r, rfl, .inr (isDigit_of_mem_digits (hds ▸ List.mem_cons_self))⟩
    obtain ⟨c, cs, hcs, hc⟩ := hhead
    rw [hcs]
    split
    case h_7 => rfl
    all_goals
      rename_i heq
      obtain rfl := List.head_eq_of_cons_eq heq
      rcases hc with hc | hc <;> cases hc
  rw [hdispatch, number_print_int n hr]

/-- An array one level up is read back if its items are. The empty one is a case of its
own, as in the parser. -/
theorem readBack_arr {depth : Nat} {xs : List Json} (hxs : ∀ x ∈ xs, ReadBack depth x) :
    ReadBack (depth + 1) (.arr xs) := by
  intro n r hn hr
  obtain ⟨k, rfl⟩ := print_fuel hn
  -- the reader tells an empty array by the bracket after the spaces; no value begins
  -- with one
  cases xs with
  | nil => rfl
  | cons x xs =>
      simp only [print, List.length_cons, List.length_append] at hn
      have hx := hxs x List.mem_cons_self k (print_items xs ++ r) (by omega) (ends_print_items xs r)
      have hrest := items_print (fun y hy => hxs y (List.mem_cons_of_mem x hy)) k r (by omega)
      have hskip : ∀ cs, skip ('[' :: cs) = '[' :: cs := fun cs => rfl
      obtain ⟨c, cs, hcs, -, hne⟩ := print_head x
      simp only [print, List.cons_append, List.append_assoc, value, hskip, skip_print]
      rw [hcs, List.cons_append] at hx ⊢
      split
      · rename_i hdepth
        cases hdepth
      · rename_i heq
        exact absurd (List.head_eq_of_cons_eq heq) hne
      · rename_i hdepth _
        cases hdepth
        simp [hx, hrest]

/-- An object one level up is read back if its values are. -/
theorem readBack_obj {depth : Nat} {es : List (String × Json)}
    (hes : ∀ e ∈ es, ReadBack depth e.2) : ReadBack (depth + 1) (.obj es) := by
  intro n r hn hr
  obtain ⟨k, rfl⟩ := print_fuel hn
  -- the same for the brace: a name begins with a quote
  cases es with
  | nil => rfl
  | cons e es =>
      simp only [print, List.length_cons, List.length_append] at hn
      have hv := hes e List.mem_cons_self k (print_entries es ++ r) (by omega)
        (ends_print_entries es r)
      have hrest := entries_print (fun d hd => hes d (List.mem_cons_of_mem e hd)) k r (by omega)
      have hskip : ∀ cs, skip ('{' :: cs) = '{' :: cs := fun cs => rfl
      have hname : ∀ cs, skip (print_string e.1 ++ cs) = print_string e.1 ++ cs := fun cs => rfl
      simp only [print, List.cons_append, List.append_assoc, value, hskip, hname]
      split
      · rename_i hdepth
        cases hdepth
      · rename_i heq
        exact absurd (List.head_eq_of_cons_eq heq) (by decide)
      · rename_i hdepth _
        cases hdepth
        rw [entry_print hv]
        simp [hrest]

/-- **Read back.** By induction on the value, with the fuel left to the end. -/
theorem Fits.readBack {depth : Nat} {j : Json} (h : Fits depth j) : ReadBack depth j := by
  induction h with
  | null depth =>
      intro n r hn hr
      obtain ⟨k, rfl⟩ := print_fuel hn
      rfl
  | bool depth b =>
      intro n r hn hr
      obtain ⟨k, rfl⟩ := print_fuel hn
      cases b <;> rfl
  | int depth m low high =>
      intro n r hn hr
      obtain ⟨k, rfl⟩ := print_fuel hn
      rw [print]
      exact value_print_int m depth k hr
  | str depth s =>
      intro n r hn hr
      obtain ⟨k, rfl⟩ := print_fuel hn
      have hvalue : value (k + 1) depth (print_string s ++ r)
          = (string (print_string s ++ r)).map (fun r => (.str r.1, r.2)) := rfl
      rw [print, hvalue, string_print_string, Option.map_some]
  | arr depth items each ih => exact readBack_arr ih
  | obj depth entries each ih => exact readBack_obj ih

/-- **The round trip.** -/
theorem parse_print {limit : Nat} {j : Json} (h : j.Fits limit) :
    parse limit (print j) = some j := by
  have hread := h.readBack (print j).length [] (Nat.le_refl _) (by rintro c ⟨⟩)
  rw [List.append_nil] at hread
  rw [parse, hread]
  rfl

/-! ## One line

The IPC protocol ends a message with a line break, so it matters that none is printed
inside one. -/

/-- No control character. -/
def Plain (cs : List Char) : Prop := ∀ c ∈ cs, 0x20 ≤ c.toNat

/-- Plainness distributes over the ways a text is put together. -/
@[simp] theorem plain_nil : Plain [] := by rintro c ⟨⟩

/-- One character more. -/
@[simp] theorem plain_cons (c : Char) (cs : List Char) :
    Plain (c :: cs) ↔ 0x20 ≤ c.toNat ∧ Plain cs := List.forall_mem_cons

/-- One text behind another. -/
@[simp] theorem plain_append (cs ds : List Char) : Plain (cs ++ ds) ↔ Plain cs ∧ Plain ds :=
  List.forall_mem_append

/-- Digits and a minus sign are plain. -/
theorem plain_print_int (n : Int) : Plain (print_int n) := by
  have hdigits : Plain (Nat.toDigits 10 n.natAbs) := by
    intro c hc
    have hdigit := isDigit_of_mem_digits hc
    simp only [Char.isDigit, ge_iff_le, Bool.and_eq_true, decide_eq_true_eq] at hdigit
    have hlow := UInt32.le_iff_toNat_le.mp hdigit.1
    exact Nat.le_trans (by decide) hlow
  unfold print_int
  split_ifs
  · exact (plain_cons _ _).mpr ⟨by decide, hdigits⟩
  · exact hdigits

/-- So are hexadecimal digits. -/
theorem plain_hex_digit : ∀ n < 16, 0x20 ≤ (hex_digit n).toNat := by decide

/-- Whatever the character, what is printed for it is plain: the characters that are not
are those that get an escape. -/
theorem plain_escape (c : Char) : Plain (escape c) := by
  obtain ⟨e, hmem, he⟩ | ⟨hcontrol, he⟩ | ⟨-, -, hplain, he⟩ := escape_cases c
  · have hall : ∀ e ∈ letters, 0x20 ≤ e.2.toNat := by decide
    have hletter := hall (c, e) hmem
    simp [he, hletter]
  · have hhigh := plain_hex_digit (c.toNat / 16) (by omega)
    have hlow := plain_hex_digit (c.toNat % 16) (by omega)
    simp [he, hhigh, hlow]
  · simpa [he] using hplain

/-- A printed string is plain even where the string is not. -/
theorem plain_print_string (s : String) : Plain (print_string s) := by
  simp only [print_string, plain_cons, plain_append, plain_nil, and_true]
  refine ⟨by decide, ?_, by decide⟩
  intro c hc
  obtain ⟨d, -, hd⟩ := List.mem_flatMap.mp hc
  exact plain_escape d c hd

mutual

/-- **One line.** No control character is printed, so no line break is. -/
theorem print_plain : ∀ j : Json, Plain (print j)
  | .null => by simp [print]
  | .bool true => by simp [print]
  | .bool false => by simp [print]
  | .int n => by
      rw [print]
      exact plain_print_int n
  | .decimal mantissa exponent => by simp [print, plain_print_int]
  | .str s => by
      rw [print]
      exact plain_print_string s
  | .arr [] => by simp [print]
  | .arr (x :: xs) => by simp [print, print_plain x, print_items_plain xs]
  | .obj [] => by simp [print]
  | .obj ((name, v) :: es) => by
      simp [print, plain_print_string, print_plain v, print_entries_plain es]

/-- The rest of an array. The three statements are one mutual induction, following the
printer. -/
theorem print_items_plain : ∀ xs : List Json, Plain (print_items xs)
  | [] => by simp [print_items]
  | x :: xs => by simp [print_items, print_plain x, print_items_plain xs]

/-- The rest of an object. -/
theorem print_entries_plain : ∀ es : List (String × Json), Plain (print_entries es)
  | [] => by simp [print_entries]
  | (name, v) :: es => by
      simp [print_entries, plain_print_string, print_plain v, print_entries_plain es]

end

/-- What follows the entries of an object ends with its brace. -/
theorem print_entries_brace (es : List (String × Json)) :
    ∃ body, print_entries es = body ++ ['}'] := by
  induction es with
  | nil => exact ⟨[], rfl⟩
  | cons e es ih =>
      obtain ⟨body, hbody⟩ := ih
      exact ⟨',' :: (print_string e.1 ++ ':' :: (print e.2 ++ body)), by simp [print_entries, hbody]⟩

/-- An object is printed between braces. -/
theorem print_obj (es : List (String × Json)) :
    ∃ body, print (.obj es) = '{' :: (body ++ ['}']) := by
  cases es with
  | nil => exact ⟨[], rfl⟩
  | cons e es =>
      obtain ⟨body, hbody⟩ := print_entries_brace es
      exact ⟨print_string e.1 ++ ':' :: (print e.2 ++ body), by simp [print, hbody]⟩

end Json

end InputSync
