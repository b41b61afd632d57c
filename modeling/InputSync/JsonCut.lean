/-
Texts that are cut off.

The parser reads from the front and never looks past what it has read, numbers
apart, which end where something else begins. So what is read off a text with
something left over is read off every longer text (`value_append`), an object
even with nothing left over, and no part of an object's text is a value
(`parse_cut_off`).
-/
import InputSync.Json

set_option autoImplicit false

namespace InputSync

namespace Json

/-! ## Numbers

A number at the very end of a text could go on in a longer one, so for its readers
something must be left over. -/

/-- What is read with something left over is read off every longer text. -/
def Extends {α : Type} (read : List Char → Option (α × List Char)) : Prop :=
  ∀ cs a r e, read cs = some (a, r) → r ≠ [] → read (cs ++ e) = some (a, r ++ e)

/-- A run of characters that ended before the text did ends at the same place in a
longer text. -/
theorem span_append {p : Char → Bool} {cs : List Char} (h : cs.dropWhile p ≠ []) (e : List Char) :
    (cs ++ e).takeWhile p = cs.takeWhile p ∧ (cs ++ e).dropWhile p = cs.dropWhile p ++ e := by
  have hsplit : cs.takeWhile p ++ cs.dropWhile p = cs := List.takeWhile_append_dropWhile
  have hlen : (cs.takeWhile p).length ≠ cs.length := by
    intro heq
    have hsum := congrArg List.length hsplit
    rw [List.length_append] at hsum
    exact h (List.length_eq_zero_iff.mp (by omega))
  rw [List.takeWhile_append, if_neg hlen, List.dropWhile_append, if_neg (by simpa using h)]
  exact ⟨rfl, rfl⟩

/-- The same for spaces. -/
theorem skip_append {cs : List Char} (h : skip cs ≠ []) (e : List Char) :
    skip (cs ++ e) = skip cs ++ e := (span_append h e).2

/-- Digits followed by something stay those digits. This lemma and its companions go
through the number parser function by function; `Extends` is the property each hands to
the next. -/
theorem digits_extends : Extends digits := by
  intro cs ds r e h hr
  unfold digits at h ⊢
  split at h
  · cases h
  · rename_i d ds' htake
    cases h
    obtain ⟨htake', hdrop'⟩ := span_append hr e
    simp only [htake', hdrop', htake]

/-- A natural followed by something stays that natural. -/
theorem natural_extends : Extends natural := by
  intro cs n r e h hr
  unfold natural at h ⊢
  split at h
  · rename_i cs' hdigits
    cases h
    simp only [digits_extends cs _ _ e hdigits hr]
  · cases h
  · rename_i ds cs' hzero hzeros hdigits
    cases h
    simp only [digits_extends cs _ _ e hdigits hr]
  · cases h

/-- So does a fraction, also where there is none. -/
theorem fraction_extends : Extends fraction := by
  intro cs ds r e h hr
  unfold fraction at h
  split at h
  · rename_i cs'
    exact digits_extends cs' ds r e h hr
  · rename_i hpoint
    cases h
    obtain ⟨c, cs', rfl⟩ := List.exists_cons_of_ne_nil hr
    unfold fraction
    split
    · rename_i heq
      cases heq
      exact absurd rfl (hpoint _)
    · rfl

/-- An exponent after its sign. -/
def power (negative : Bool) (cs : List Char) : Option (Option Int × List Char) :=
  (digits cs).map (fun ds =>
    let n : Int := Nat.ofDigitChars 10 ds.1 0
    (some (if negative then -n else n), ds.2))

/-- So do the digits of an exponent. -/
theorem power_extends (negative : Bool) : Extends (power negative) := by
  intro cs n r e h hr
  obtain ⟨⟨ds, r'⟩, hdigits, heq⟩ := Option.map_eq_some_iff.mp h
  cases heq
  rw [power, digits_extends cs ds _ e hdigits hr]
  rfl

/-- So does an exponent. The mark, the sign and the digits may each be where the text
stopped, and a text that stopped there was refused. -/
theorem exponent_extends : Extends exponent := by
  -- after the mark a sign may follow; what is read depends only on the characters that
  -- are there
  have hmark : Extends (fun cs => exponent ('e' :: cs)) := by
    intro cs n r e h hr
    cases cs with
    | nil => cases h
    | cons c cs =>
        by_cases hminus : c = '-'
        · subst hminus
          exact power_extends true cs n r e h hr
        by_cases hplus : c = '+'
        · subst hplus
          exact power_extends false cs n r e h hr
        have hplain : ∀ ds, exponent ('e' :: c :: ds) = power false (c :: ds) := by
          intro ds
          simp [exponent, power, hminus, hplus]
        dsimp only at h ⊢
        rw [hplain] at h
        rw [List.cons_append, hplain]
        exact power_extends false (c :: cs) n r e h hr
  intro cs n r e h hr
  -- a number without an exponent ends before its next character; at the end of the text
  -- it could still have one, which is why that case is excluded
  cases cs with
  | nil =>
      cases h
      exact absurd rfl hr
  | cons c cs =>
      by_cases hsmall : c = 'e'
      · subst hsmall
        exact hmark cs n r e h hr
      by_cases hlarge : c = 'E'
      · subst hlarge
        exact hmark cs n r e h hr
      have hnone : ∀ ds, exponent (c :: ds) = some (none, c :: ds) := by
        intro ds
        simp [exponent, hsmall, hlarge]
      rw [hnone] at h
      cases h
      exact hnone (cs ++ e)

/-- A number without its sign is those three readers in a row. -/
theorem unsigned_extends (negative : Bool) : Extends (unsigned negative) := by
  intro cs j r e h hr
  unfold unsigned at h ⊢
  simp only [Option.bind_eq_bind, Option.bind_eq_some_iff, Prod.exists] at h ⊢
  obtain ⟨n, cs₁, hnatural, places, cs₂, hfraction, power, cs₃, hexponent, hnumber⟩ := h
  have hcs₃ : cs₃ = r := by split_ifs at hnumber <;> cases hnumber <;> rfl
  subst hcs₃
  -- nothing is left over of nothing
  have hcs₂ : cs₂ ≠ [] := by
    rintro rfl
    cases hexponent
    exact hr rfl
  have hcs₁ : cs₁ ≠ [] := by
    rintro rfl
    cases hfraction
    exact hcs₂ rfl
  refine ⟨n, _, natural_extends cs n cs₁ e hnatural hcs₁, places, _,
    fraction_extends cs₁ places cs₂ e hfraction hcs₂, power, _,
    exponent_extends cs₂ power cs₃ e hexponent hr, ?_⟩
  split_ifs at hnumber ⊢ <;> cases hnumber <;> rfl

/-- A number followed by something is that number in every longer text. -/
theorem number_extends : Extends number := by
  intro cs j r e h hr
  cases cs with
  | nil => cases h
  | cons c cs =>
      by_cases hminus : c = '-'
      · subst hminus
        exact unsigned_extends true cs j r e h hr
      have hplain : ∀ ds, number (c :: ds) = unsigned false (c :: ds) := by
        intro ds
        simp [number, hminus]
      rw [hplain] at h
      rw [List.cons_append, hplain]
      exact unsigned_extends false (c :: cs) j r e h hr

/-! ## Strings and keywords

These carry their own end, and are read off every longer text unconditionally. -/

/-- What is read is read off every longer text. -/
def Closed {α : Type} (read : List Char → Option (α × List Char)) : Prop :=
  ∀ cs a r e, read cs = some (a, r) → read (cs ++ e) = some (a, r ++ e)

/-- Four hexadecimal digits are four, whatever follows. -/
theorem code_unit_closed : Closed code_unit := by
  intro cs n r e h
  unfold code_unit at h
  split at h
  · simp only [Option.bind_eq_bind, Option.bind_eq_some_iff] at h
    obtain ⟨a, ha, b, hb, c, hc, d, hd, heq⟩ := h
    cases heq
    simp only [List.cons_append, code_unit, ha, hb, hc, hd]
    rfl
  · cases h

/-- An escaped character is complete by itself, and so is a surrogate pair: its second
half must come right after the first. -/
theorem unicode_closed : Closed unicode := by
  intro cs ch r e h
  unfold unicode at h ⊢
  simp only [Option.bind_eq_bind, Option.bind_eq_some_iff, Prod.exists] at h ⊢
  obtain ⟨high, cs₁, hhigh, h⟩ := h
  refine ⟨high, cs₁ ++ e, code_unit_closed cs high cs₁ e hhigh, ?_⟩
  split_ifs at h ⊢
  · cases h
    rfl
  -- a high surrogate: the second unit has to follow, and it was all there
  · split at h
    · rename_i cs₂
      simp only [Option.bind_eq_some_iff, Prod.exists] at h
      obtain ⟨low, cs₃, hlow, h⟩ := h
      simp only [List.cons_append, Option.bind_eq_some_iff, Prod.exists]
      refine ⟨low, cs₃ ++ e, code_unit_closed cs₂ low cs₃ e hlow, ?_⟩
      by_cases hrange : 0xdc00 ≤ low ∧ low ≤ 0xdfff
      · rw [if_pos hrange] at h ⊢
        obtain ⟨hch, hr⟩ := Prod.mk.inj (Option.some.inj h)
        rw [← hch, ← hr]
        rfl
      · rw [if_neg hrange] at h
        cases h
    · cases h

/-- One character of a string does not look ahead. -/
theorem character_closed : Closed character := by
  intro cs ch r e h
  unfold character at h
  split at h
  · rename_i cs'
    exact unicode_closed cs' ch r e h
  · rename_i c cs' hu
    -- one of the letters that stand for a character
    split at h <;> cases h <;> rfl
  · rename_i c cs' hu hescape
    split_ifs at h with hplain
    cases h
    rw [List.cons_append]
    unfold character
    split
    · rename_i heq
      exact absurd (.inl (List.head_eq_of_cons_eq heq)) hplain
    · rename_i heq
      exact absurd (.inl (List.head_eq_of_cons_eq heq)) hplain
    · rename_i heq
      cases heq
      rw [if_neg hplain]
    · rename_i heq
      cases heq
  · cases h

/-- A string that was closed stays that string, with any more fuel. The induction is on
the fuel; a longer text has more of it. -/
theorem string_rest_append {n m : Nat} (hnm : n ≤ m) {cs s r : List Char} (e : List Char)
    (h : string_rest n cs = some (s, r)) : string_rest m (cs ++ e) = some (s, r ++ e) := by
  -- the closing quote is in the text that was read, so nothing after it is looked at
  induction n generalizing m cs s with
  | zero => cases h
  | succ n ih =>
      obtain ⟨m, rfl⟩ : ∃ k, m = k + 1 := ⟨m - 1, by omega⟩
      cases cs with
      | nil => cases h
      | cons c cs =>
          by_cases hquote : c = '"'
          · subst hquote
            cases h
            rfl
          -- not a quote: one character, and the string goes on
          have hstep : ∀ k ds, string_rest (k + 1) (c :: ds)
              = (character (c :: ds)).bind (fun a =>
                  (string_rest k a.2).map (fun b => (a.1 :: b.1, b.2))) := by
            intro k ds
            rw [string_rest]
            · cases character (c :: ds) with
              | none => rfl
              | some a => cases hrest : string_rest k a.2 <;> simp [hrest]
            · intro ds' heq
              exact hquote (List.head_eq_of_cons_eq heq)
          rw [hstep] at h
          obtain ⟨⟨ch, cs₁⟩, hch, hrest⟩ := Option.bind_eq_some_iff.mp h
          obtain ⟨⟨s', r'⟩, hs, heq⟩ := Option.map_eq_some_iff.mp hrest
          cases heq
          rw [List.cons_append, hstep, ← List.cons_append,
            character_closed (c :: cs) ch cs₁ e hch, Option.bind_some, ih (by omega) hs]
          rfl

/-- A string is read to its closing quote, and nothing behind it matters. -/
theorem string_closed : Closed string := by
  intro cs s r e h
  unfold string at h
  split at h
  · rename_i cs'
    obtain ⟨⟨s', r'⟩, hs, heq⟩ := Option.map_eq_some_iff.mp h
    cases heq
    have hquote : string ('"' :: (cs' ++ e)) = (string_rest (cs' ++ e).length (cs' ++ e)).map
        (fun r => (.ofList r.1, r.2)) := rfl
    rw [List.cons_append, hquote,
      string_rest_append (by rw [List.length_append]; omega) e hs]
    rfl
  · cases h

/-- The letters of a keyword are counted, so nothing behind them matters. -/
theorem keyword_closed (rest : List Char) (j : Json) : Closed (keyword rest j) := by
  intro cs j' r e h
  unfold keyword at h ⊢
  split_ifs at h with hpre
  obtain ⟨more, rfl⟩ := List.isPrefixOf_iff_prefix.mp hpre
  cases h
  rw [if_pos (by rw [List.isPrefixOf_iff_prefix, List.append_assoc]; exact List.prefix_append _ _),
    List.append_assoc, List.drop_left, List.drop_left]

/-! ## Values

Arrays and objects carry their end as well. Since the elements inside may be numbers,
the induction is still about texts with something left over; that an object needs
nothing more is `parse_cut_off`. -/

/-- What one reader reads with something left over, another reads off every
longer text. -/
def ExtendsTo {α : Type} (read read' : List Char → Option (α × List Char)) : Prop :=
  ∀ cs a r e, read cs = some (a, r) → r ≠ [] → read' (cs ++ e) = some (a, r ++ e)

/-- An entry is as stable as its value is read. It is stated for two readers of a value,
because the longer text is read with more fuel. -/
theorem entry_extends {read read' : List Char → Option (Json × List Char)}
    (hread : ExtendsTo read read') : ExtendsTo (entry read) (entry read') := by
  intro cs a r e h hr
  unfold entry at h ⊢
  simp only [Option.bind_eq_bind, Option.bind_eq_some_iff, Prod.exists] at h ⊢
  obtain ⟨name, cs₁, hname, h⟩ := h
  have hskip : skip cs ≠ [] := by
    intro hnil
    rw [hnil] at hname
    cases hname
  refine ⟨name, cs₁ ++ e, ?_, ?_⟩
  · rw [skip_append hskip]
    exact string_closed _ name cs₁ e hname
  -- the colon is there, and after it the value, which may not touch the end
  · split at h
    · rename_i cs₂ hcolon
      rw [skip_append (by rw [hcolon]; exact List.cons_ne_nil _ _), hcolon, List.cons_append]
      simp only [Option.bind_eq_some_iff, Prod.exists] at h ⊢
      obtain ⟨v, cs₃, hv, heq⟩ := h
      cases heq
      exact ⟨v, _, hread cs₂ v _ e hv hr, rfl⟩
    · cases h

/-- What comes after an opening bracket or brace: the closing one, or a first
element. -/
def opened (close : Char) (empty : Json) (read : List Char → Option (Json × List Char))
    (cs : List Char) : Option (Json × List Char) :=
  match skip cs with
  | [] => none
  | c :: cs => if c = close then some (empty, cs) else read (c :: cs)

/-- An item and those that follow it. -/
def next_item {α : Type} (f : List Json → α) (n depth : Nat) (cs : List Char) :
    Option (α × List Char) := do
  let (x, cs) ← value n depth cs
  let (xs, cs) ← items n depth cs
  return (f (x :: xs), cs)

/-- An entry and those that follow it. -/
def next_entry {α : Type} (f : List (String × Json) → α) (n depth : Nat) (cs : List Char) :
    Option (α × List Char) := do
  let (e, cs) ← entry (value n depth) cs
  let (es, cs) ← entries n depth cs
  return (f (e :: es), cs)

/-- Nothing is read off the empty text, by any of the four readers. -/
theorem value_nil (n depth : Nat) : value n depth [] = none := by
  cases n <;> rfl

/-- No items. -/
theorem items_nil (n depth : Nat) : items n depth [] = none := by
  cases n <;> rfl

/-- No entries. -/
theorem entries_nil (n depth : Nat) : entries n depth [] = none := by
  cases n <;> rfl

/-- No entry. -/
theorem entry_nil (read : List Char → Option (Json × List Char)) : entry read [] = none := rfl

/-- What `value` does behind a bracket, as one call of `opened`. Arrays and objects are
read by the same steps, and with this lemma and the next the proof about them is done
once. -/
theorem value_bracket (n depth : Nat) {cs cs' : List Char} (h : skip cs = '[' :: cs') :
    value (n + 1) (depth + 1) cs = opened ']' (.arr []) (next_item .arr n depth) cs' := by
  cases hcs : skip cs' with
  | nil => simp [value, h, opened, hcs, value_nil]
  | cons c ds =>
      by_cases hclose : c = ']'
      · subst hclose
        simp [value, h, opened, hcs]
      · simp only [value, h, opened, hcs, if_neg hclose]
        split
        · rename_i hdepth
          cases hdepth
        · rename_i heq
          exact absurd (List.head_eq_of_cons_eq heq) hclose
        · rename_i hdepth _
          cases hdepth
          rfl

/-- What it does behind a brace. -/
theorem value_brace (n depth : Nat) {cs cs' : List Char} (h : skip cs = '{' :: cs') :
    value (n + 1) (depth + 1) cs = opened '}' (.obj []) (next_entry .obj n depth) cs' := by
  cases hcs : skip cs' with
  | nil => simp [value, h, opened, hcs, entry_nil]
  | cons c ds =>
      by_cases hclose : c = '}'
      · subst hclose
        simp [value, h, opened, hcs]
      · simp only [value, h, opened, hcs, if_neg hclose]
        split
        · rename_i hdepth
          cases hdepth
        · rename_i heq
          exact absurd (List.head_eq_of_cons_eq heq) hclose
        · rename_i hdepth _
          cases hdepth
          rfl

/-- Behind an opening mark a longer text is read to the same result, provided its
elements are. -/
theorem opened_append {close : Char} {empty j : Json}
    {read read' : List Char → Option (Json × List Char)} {cs r : List Char} (e : List Char)
    (hread : ∀ cs, read cs = some (j, r) → read' (cs ++ e) = some (j, r ++ e))
    (h : opened close empty read cs = some (j, r)) :
    opened close empty read' (cs ++ e) = some (j, r ++ e) := by
  unfold opened at h ⊢
  cases hcs : skip cs with
  | nil =>
      rw [hcs] at h
      cases h
  | cons c ds =>
      rw [hcs] at h
      rw [skip_append (by rw [hcs]; exact List.cons_ne_nil _ _), hcs, List.cons_append]
      dsimp only at h ⊢
      split_ifs at h ⊢ with hclose
      · cases h
        rfl
      · exact hread (c :: ds) h

/-- A value that is no array and no object. -/
def scalar : List Char → Option (Json × List Char)
  | 'n' :: cs => keyword ['u', 'l', 'l'] .null cs
  | 't' :: cs => keyword ['r', 'u', 'e'] (.bool true) cs
  | 'f' :: cs => keyword ['a', 'l', 's', 'e'] (.bool false) cs
  | '"' :: cs => (string ('"' :: cs)).map (fun r => (.str r.1, r.2))
  | cs => number cs

/-- What `value` does elsewhere: no fuel and no depth is used. -/
theorem value_scalar (n depth : Nat) {cs cs' : List Char} {c : Char} (h : skip cs = c :: cs')
    (hbracket : c ≠ '[') (hbrace : c ≠ '{') : value (n + 1) depth cs = scalar (c :: cs') := by
  rw [value, h]
  unfold scalar
  -- the first character decides which of the scalars is read, and both definitions look
  -- at it in the same way
  split <;> rename_i heq
  · cases heq
    rfl
  · cases heq
    rfl
  · cases heq
    rfl
  · cases heq
    rfl
  · exact absurd (List.head_eq_of_cons_eq heq) hbracket
  · exact absurd (List.head_eq_of_cons_eq heq) hbrace
  · rename_i hnull htrue hfalse hquote _
    split
    · rename_i heq
      cases heq
      exact absurd rfl (hnull _)
    · rename_i heq
      cases heq
      exact absurd rfl (htrue _)
    · rename_i heq
      cases heq
      exact absurd rfl (hfalse _)
    · rename_i heq
      cases heq
      exact absurd rfl (hquote _)
    · rfl

/-- A value that is no array and no object, followed by something, is that value in
every longer text. Only numbers need what follows. -/
theorem scalar_extends : Extends scalar := by
  intro cs j r e h hr
  unfold scalar at h
  split at h
  · exact keyword_closed _ _ _ j r e h
  · exact keyword_closed _ _ _ j r e h
  · exact keyword_closed _ _ _ j r e h
  -- a string ends with its quote
  · rename_i cs'
    obtain ⟨⟨s, r'⟩, hs, heq⟩ := Option.map_eq_some_iff.mp h
    cases heq
    exact congrArg (Option.map (fun r => (Json.str r.1, r.2))) (string_closed _ s r' e hs)
  -- a number does not; that is where the rest has to be non-empty
  · rename_i hnull htrue hfalse hquote
    have hnumber := number_extends cs j r e h hr
    cases cs with
    | nil => cases h
    | cons c cs =>
        rw [List.cons_append] at hnumber ⊢
        unfold scalar
        split
        · rename_i heq
          cases heq
          exact absurd rfl (hnull _)
        · rename_i heq
          cases heq
          exact absurd rfl (htrue _)
        · rename_i heq
          cases heq
          exact absurd rfl (hfalse _)
        · rename_i heq
          cases heq
          exact absurd rfl (hquote _)
        · exact hnumber

/-- **Longer texts.** By induction on the fuel, of which a longer text has more. -/
theorem value_append (n : Nat) : ∀ m e, n ≤ m →
    (∀ depth cs j r, value n depth cs = some (j, r) → r ≠ [] ∨ (skip cs).head? = some '{' →
      value m depth (cs ++ e) = some (j, r ++ e)) ∧
    (∀ depth cs xs r, items n depth cs = some (xs, r) →
      items m depth (cs ++ e) = some (xs, r ++ e)) ∧
    (∀ depth cs es r, entries n depth cs = some (es, r) →
      entries m depth (cs ++ e) = some (es, r ++ e)) := by
  induction n with
  | zero =>
      intro m e _
      refine ⟨?_, ?_, ?_⟩
      · intro depth cs j r h
        cases h
      · intro depth cs xs r h
        cases h
      · intro depth cs es r h
        cases h
  | succ n ih =>
      intro m e hm
      obtain ⟨m, rfl⟩ : ∃ k, m = k + 1 := ⟨m - 1, by omega⟩
      obtain ⟨hvalue, hitems, hentries⟩ := ih m e (by omega)
      have hread : ∀ depth, ExtendsTo (value n depth) (value m depth) :=
        fun depth cs j r e' h hr => (ih m e' (by omega)).1 depth cs j r h (.inl hr)
      -- an item is followed by a comma or a bracket, so its value never touches the end
      have hitem : ∀ {α : Type} (f : List Json → α) depth cs a r,
          next_item f n depth cs = some (a, r) →
            next_item f m depth (cs ++ e) = some (a, r ++ e) := by
        intro α f depth cs a r h
        unfold next_item at h ⊢
        simp only [Option.bind_eq_bind, Option.bind_eq_some_iff] at h ⊢
        obtain ⟨⟨x, cs₁⟩, hx, ⟨xs, cs₂⟩, hxs, heq⟩ := h
        cases heq
        have hcs₁ : cs₁ ≠ [] := by
          rintro rfl
          rw [items_nil] at hxs
          cases hxs
        exact ⟨(x, _), hread depth cs x cs₁ e hx hcs₁, (xs, _), hitems depth cs₁ xs _ hxs, rfl⟩
      have hentry : ∀ {α : Type} (f : List (String × Json) → α) depth cs a r,
          next_entry f n depth cs = some (a, r) →
            next_entry f m depth (cs ++ e) = some (a, r ++ e) := by
        intro α f depth cs a r h
        unfold next_entry at h ⊢
        simp only [Option.bind_eq_bind, Option.bind_eq_some_iff] at h ⊢
        obtain ⟨⟨en, cs₁⟩, hen, ⟨es, cs₂⟩, hes, heq⟩ := h
        cases heq
        have hcs₁ : cs₁ ≠ [] := by
          rintro rfl
          rw [entries_nil] at hes
          cases hes
        exact ⟨(en, _), entry_extends (hread depth) cs en cs₁ e hen hcs₁, (es, _),
          hentries depth cs₁ es _ hes, rfl⟩
      refine ⟨?_, ?_, ?_⟩
      -- a value: an array and an object end with their bracket, and a scalar is the one
      -- case that needs something after it
      · intro depth cs j r h hr
        cases hcs : skip cs with
        | nil =>
            rw [value, hcs] at h
            cases h
        | cons c ds =>
            have hskip : skip (cs ++ e) = c :: (ds ++ e) := by
              rw [skip_append (by rw [hcs]; exact List.cons_ne_nil _ _), hcs, List.cons_append]
            by_cases hbracket : c = '['
            · subst hbracket
              cases depth with
              | zero => simp [value, hcs] at h
              | succ depth =>
                  rw [value_bracket n depth hcs] at h
                  rw [value_bracket m depth hskip]
                  exact opened_append e (fun cs => hitem .arr depth cs j r) h
            by_cases hbrace : c = '{'
            · subst hbrace
              cases depth with
              | zero => simp [value, hcs] at h
              | succ depth =>
                  rw [value_brace n depth hcs] at h
                  rw [value_brace m depth hskip]
                  exact opened_append e (fun cs => hentry .obj depth cs j r) h
            have hr : r ≠ [] := by
              refine hr.resolve_right ?_
              rw [hcs]
              exact fun heq => hbrace (Option.some.inj heq)
            rw [value_scalar n depth hcs hbracket hbrace] at h
            rw [value_scalar m depth hskip hbracket hbrace]
            exact scalar_extends (c :: ds) j r e h hr
      -- the items of an array: a comma and more of them, or the bracket
      · intro depth cs xs r h
        cases hcs : skip cs with
        | nil => simp [items, hcs] at h
        | cons c ds =>
            have hskip : skip (cs ++ e) = c :: (ds ++ e) := by
              rw [skip_append (by rw [hcs]; exact List.cons_ne_nil _ _), hcs, List.cons_append]
            rw [items, hcs] at h
            rw [items, hskip]
            split at h
            · rename_i heq
              cases heq
              cases h
              rfl
            · rename_i heq
              cases heq
              exact hitem id depth ds xs r h
            · cases h
      -- the entries of an object, likewise
      · intro depth cs es r h
        cases hcs : skip cs with
        | nil => simp [entries, hcs] at h
        | cons c ds =>
            have hskip : skip (cs ++ e) = c :: (ds ++ e) := by
              rw [skip_append (by rw [hcs]; exact List.cons_ne_nil _ _), hcs, List.cons_append]
            rw [entries, hcs] at h
            rw [entries, hskip]
            split at h
            · rename_i heq
              cases heq
              cases h
              rfl
            · rename_i heq
              cases heq
              exact hentry id depth ds es r h
            · cases h

/-- **No part of an object is a value**, but the whole. -/
theorem parse_cut_off {limit : Nat} {es : List (String × Json)} (hfits : (Json.obj es).Fits limit)
    {cs e : List Char} (h : print (.obj es) = cs ++ e) (he : e ≠ []) : parse limit cs = none := by
  cases hparse : parse limit cs with
  | none => rfl
  | some j =>
      unfold parse at hparse
      split at hparse
      · rename_i j' r hvalue
        have hbrace : (skip cs).head? = some '{' := by
          cases cs with
          | nil => rw [value_nil] at hvalue; cases hvalue
          | cons c cs =>
              obtain ⟨body, hbody⟩ := print_obj es
              rw [hbody] at h
              obtain rfl := List.head_eq_of_cons_eq h
              rfl
        -- read from a part, the object would be read from the whole with text to spare,
        -- and the whole has none
        have hlonger := (value_append cs.length (print (.obj es)).length e
          (by rw [h, List.length_append]; omega)).1 limit cs j' r hvalue (.inr hbrace)
        have hwhole := hfits.readBack (print (.obj es)).length [] (Nat.le_refl _) (by rintro c ⟨⟩)
        rw [List.append_nil] at hwhole
        rw [← h, hwhole] at hlonger
        exact absurd (List.append_eq_nil_iff.mp (congrArg Prod.snd (Option.some.inj hlonger)).symm).2 he
      · cases hparse

end Json

end InputSync
