/-
Text from bytes that need not be UTF-8 (`String::from_utf8_lossy`).

The decoder takes the longest run of bytes that can begin a character. A
complete run gives the character, any other gives one replacement character,
and what follows is decoded afresh.

An ASCII byte can only begin such a run. So decoding goes piece by piece where
the bytes are cut at ASCII bytes (`decode_append_ascii`), and an ASCII text has
only its own bytes behind it (`decode_eq_iff`).
-/
import Mathlib.Data.List.Basic
import Mathlib.Tactic.Common

set_option autoImplicit false

namespace InputSync.LossyText

/-! ## The decoder

The algorithm of the standard library, with its table of widths. The number of bytes
already taken is carried along instead of a position, which makes it a structural
recursion. -/

/-- `U+FFFD`. -/
def REPLACEMENT_CHARACTER : Char := Char.ofNat 0xFFFD

/-- How many bytes a character with this first byte takes; 0 if no character
begins so. -/
def utf8_char_width (b : Nat) : Nat :=
  if b < 0x80 then 1 else if b < 0xC2 then 0 else if b < 0xE0 then 2 else if b < 0xF0 then 3
  else if b < 0xF5 then 4 else 0

/-- A continuation byte. -/
def is_cont (c : Nat) : Bool := decide (0x80 ≤ c) && decide (c < 0xC0)

/-- A byte that may come second, in a character of three or four bytes. -/
def is_second (b c : Nat) : Bool :=
  if b = 0xE0 then decide (0xA0 ≤ c) && decide (c < 0xC0)
  else if b = 0xED then decide (0x80 ≤ c) && decide (c < 0xA0)
  else if b = 0xF0 then decide (0x90 ≤ c) && decide (c < 0xC0)
  else if b = 0xF4 then decide (0x80 ≤ c) && decide (c < 0x90)
  else is_cont c

/-- The byte at an index, 0 past the end. -/
def safe_get (rest : List UInt8) (i : Nat) : Nat := (rest.getD i 0).toNat

/-- The character that comes of first byte `b`, and how many further bytes
were taken for it. -/
def sequence (b : Nat) (rest : List UInt8) : Char × Nat :=
  let c := safe_get rest 0
  let d := safe_get rest 1
  let e := safe_get rest 2
  if utf8_char_width b = 1 then (Char.ofNat b, 0)
  else if utf8_char_width b = 2 then
    if is_cont c then (Char.ofNat ((b - 0xC0) * 64 + (c - 0x80)), 1) else (REPLACEMENT_CHARACTER, 0)
  else if utf8_char_width b = 3 then
    if is_second b c then
      if is_cont d then
        (Char.ofNat ((b - 0xE0) * 4096 + (c - 0x80) * 64 + (d - 0x80)), 2)
      else (REPLACEMENT_CHARACTER, 1)
    else (REPLACEMENT_CHARACTER, 0)
  else if utf8_char_width b = 4 then
    if is_second b c then
      if is_cont d then
        if is_cont e then
          (Char.ofNat ((b - 0xF0) * 262144 + (c - 0x80) * 4096 + (d - 0x80) * 64 + (e - 0x80)), 3)
        else (REPLACEMENT_CHARACTER, 2)
      else (REPLACEMENT_CHARACTER, 1)
    else (REPLACEMENT_CHARACTER, 0)
  else (REPLACEMENT_CHARACTER, 0)

/-- Decoding, with the number of bytes that were taken already. -/
def decode_from : Nat → List UInt8 → List Char
  | _, [] => []
  | 0, b :: rest => (sequence b.toNat rest).1 :: decode_from (sequence b.toNat rest).2 rest
  | taken + 1, _ :: rest => decode_from taken rest

/-- `String::from_utf8_lossy`. -/
def from_utf8_lossy (bytes : List UInt8) : List Char := decode_from 0 bytes

/-- A character, two kinds of ill-formed bytes, and a dot behind each. -/
example : from_utf8_lossy [0xC3, 0xA9, 0x2E, 0xFF, 0x2E, 0xE2, 0x82, 0x2E]
    = ['é', '.', '\uFFFD', '.', '\uFFFD', '.'] := by decide

/-! ## Sequences and ASCII bytes

A sequence is at most four bytes long and contains an ASCII byte only as a whole. -/

/-- An ASCII byte continues no sequence, -/
theorem is_cont_ascii (c : Nat) (hc : c < 128) : is_cont c = false := by
  rw [is_cont, Bool.and_eq_false_iff]
  exact .inl (decide_eq_false (by omega))

/-- and is no second byte of one, -/
theorem is_second_ascii (b c : Nat) (hc : c < 128) : is_second b c = false := by
  have hcont := is_cont_ascii c hc
  unfold is_second
  split_ifs
  any_goals rw [decide_eq_false (by omega), Bool.false_and]
  exact hcont

/-- but is a character by itself. These three facts are why text can be cut at ASCII
bytes. -/
theorem sequence_ascii (b : Nat) (rest : List UInt8) (hb : b < 128) :
    sequence b rest = (Char.ofNat b, 0) := by
  have hwidth : utf8_char_width b = 1 := if_pos hb
  rw [sequence, if_pos hwidth]

/-- A sequence does not look past an ASCII byte, nor past the end. -/
theorem sequence_append (b : Nat) (pre : List UInt8) (a : UInt8) (rest : List UInt8)
    (ha : a.toNat < 128) : sequence b (pre ++ a :: rest) = sequence b pre := by
  have hend : is_cont 0 = false := rfl
  have hend' := is_second_ascii b 0 (by omega)
  have hcont := is_cont_ascii _ ha
  have hsecond := is_second_ascii b _ ha
  rcases pre with _ | ⟨c, _ | ⟨d, _ | ⟨e, pre⟩⟩⟩
  · simp [sequence, safe_get, hcont, hsecond, hend, hend']
  · simp [sequence, safe_get, hcont, hend]
  · simp [sequence, safe_get, hcont, hend]
  · rfl

/-- Behind the end there are zeros, and none of them continues a sequence. -/
theorem lt_length_of_cont {rest : List UInt8} {i : Nat} (h : is_cont (safe_get rest i) = true) :
    i < rest.length := by
  by_contra hpast
  rw [safe_get, List.getD_eq_getElem?_getD, List.getElem?_eq_none (Nat.le_of_not_lt hpast)] at h
  cases h

/-- The same for a second byte: where one was found there was a byte. -/
theorem lt_length_of_second {b : Nat} {rest : List UInt8} {i : Nat}
    (h : is_second b (safe_get rest i) = true) : i < rest.length := by
  by_contra hpast
  rw [safe_get, List.getD_eq_getElem?_getD, List.getElem?_eq_none (Nat.le_of_not_lt hpast)] at h
  exact absurd h (Bool.eq_false_iff.mp (is_second_ascii b 0 (by omega)))

/-- A sequence is a whole character of one of the four widths, or a part of
one, for which the replacement character stands. -/
theorem sequence_cases (b : Nat) (rest : List UInt8) :
    (utf8_char_width b = 1 ∧ sequence b rest = (Char.ofNat b, 0)) ∨
    (utf8_char_width b = 2 ∧ is_cont (safe_get rest 0) = true ∧
      sequence b rest = (Char.ofNat ((b - 0xC0) * 64 + (safe_get rest 0 - 0x80)), 1)) ∨
    (utf8_char_width b = 3 ∧ is_second b (safe_get rest 0) = true ∧
      is_cont (safe_get rest 1) = true ∧
      sequence b rest = (Char.ofNat ((b - 0xE0) * 4096 + (safe_get rest 0 - 0x80) * 64
        + (safe_get rest 1 - 0x80)), 2)) ∨
    (utf8_char_width b = 4 ∧ is_second b (safe_get rest 0) = true ∧
      is_cont (safe_get rest 1) = true ∧ is_cont (safe_get rest 2) = true ∧
      sequence b rest = (Char.ofNat ((b - 0xF0) * 262144 + (safe_get rest 0 - 0x80) * 4096
        + (safe_get rest 1 - 0x80) * 64 + (safe_get rest 2 - 0x80)), 3)) ∨
    ∃ n ≤ rest.length, sequence b rest = (REPLACEMENT_CHARACTER, n) := by
  -- the first byte announces a width, and each of the bytes that should follow is there
  -- or is not; at the first that is not, the replacement character stands for what was
  -- read
  by_cases h1 : utf8_char_width b = 1
  · exact .inl ⟨h1, by simp only [sequence, if_pos h1]⟩
  refine .inr ?_
  by_cases h2 : utf8_char_width b = 2
  · by_cases hc : is_cont (safe_get rest 0) = true
    · exact .inl ⟨h2, hc, by simp only [sequence, if_neg h1, if_pos h2, if_pos hc]⟩
    · exact .inr (.inr (.inr ⟨0, Nat.zero_le _,
        by simp only [sequence, if_neg h1, if_pos h2, if_neg hc]⟩))
  refine .inr ?_
  by_cases h3 : utf8_char_width b = 3
  · by_cases hc : is_second b (safe_get rest 0) = true
    · by_cases hd : is_cont (safe_get rest 1) = true
      · exact .inl ⟨h3, hc, hd,
          by simp only [sequence, if_neg h1, if_neg h2, if_pos h3, if_pos hc, if_pos hd]⟩
      · exact .inr (.inr ⟨1, lt_length_of_second hc,
          by simp only [sequence, if_neg h1, if_neg h2, if_pos h3, if_pos hc, if_neg hd]⟩)
    · exact .inr (.inr ⟨0, Nat.zero_le _,
        by simp only [sequence, if_neg h1, if_neg h2, if_pos h3, if_neg hc]⟩)
  refine .inr ?_
  by_cases h4 : utf8_char_width b = 4
  · by_cases hc : is_second b (safe_get rest 0) = true
    · by_cases hd : is_cont (safe_get rest 1) = true
      · by_cases he : is_cont (safe_get rest 2) = true
        · exact .inl ⟨h4, hc, hd, he, by
            simp only [sequence, if_neg h1, if_neg h2, if_neg h3, if_pos h4, if_pos hc, if_pos hd,
              if_pos he]⟩
        · exact .inr ⟨2, lt_length_of_cont hd, by
            simp only [sequence, if_neg h1, if_neg h2, if_neg h3, if_pos h4, if_pos hc, if_pos hd,
              if_neg he]⟩
      · exact .inr ⟨1, lt_length_of_second hc, by
          simp only [sequence, if_neg h1, if_neg h2, if_neg h3, if_pos h4, if_pos hc, if_neg hd]⟩
    · exact .inr ⟨0, Nat.zero_le _,
        by simp only [sequence, if_neg h1, if_neg h2, if_neg h3, if_pos h4, if_neg hc]⟩
  exact .inr ⟨0, Nat.zero_le _,
    by simp only [sequence, if_neg h1, if_neg h2, if_neg h3, if_neg h4]⟩

/-- Nor does it take bytes past the end. -/
theorem sequence_le (b : Nat) (rest : List UInt8) : (sequence b rest).2 ≤ rest.length := by
  obtain ⟨-, h⟩ | ⟨-, hc, h⟩ | ⟨-, -, hd, h⟩ | ⟨-, -, -, he, h⟩ | ⟨n, hn, h⟩ :=
    sequence_cases b rest
  · rw [h]
    exact Nat.zero_le _
  · rw [h]
    exact lt_length_of_cont hc
  · rw [h]
    exact lt_length_of_cont hd
  · rw [h]
    exact lt_length_of_cont he
  · rw [h]
    exact hn

/-- What a second byte may be, as inequalities. They rule out overlong spellings,
surrogates and numbers that are too large. -/
theorem is_second_bounds (b c : Nat) (h : is_second b c = true) :
    0x80 ≤ c ∧ c < 0xC0 ∧ (b = 0xE0 → 0xA0 ≤ c) ∧ (b = 0xED → c < 0xA0) ∧
      (b = 0xF0 → 0x90 ≤ c) ∧ (b = 0xF4 → c < 0x90) := by
  unfold is_second is_cont at h
  split_ifs at h <;> simp only [Bool.and_eq_true, decide_eq_true_eq] at h <;> omega

/-- A number that is a scalar value is the number of its character. -/
theorem toNat_ofNat (n : Nat) (h : n < 0xD800 ∨ 0xDFFF < n ∧ n < 0x110000) :
    (Char.ofNat n).toNat = n := by
  rw [Char.ofNat, dif_pos h]
  rfl

/-- The first byte of a sequence, by its width. -/
theorem width_bounds (b : Nat) :
    (utf8_char_width b = 1 → b < 0x80) ∧ (utf8_char_width b = 2 → 0xC2 ≤ b ∧ b < 0xE0) ∧
      (utf8_char_width b = 3 → 0xE0 ≤ b ∧ b < 0xF0) ∧
      (utf8_char_width b = 4 → 0xF0 ≤ b ∧ b < 0xF5) := by
  unfold utf8_char_width
  split_ifs <;> simp <;> omega

/-- What begins with a longer sequence, or part of one, is no ASCII character. -/
theorem sequence_wide (b : Nat) (rest : List UInt8) (hb : 128 ≤ b) :
    128 ≤ (sequence b rest).1.toNat := by
  obtain ⟨hone, htwo, hthree, hfour⟩ := width_bounds b
  obtain ⟨h1, -⟩ | ⟨h2, hc, h⟩ | ⟨h3, hc, hd, h⟩ | ⟨h4, hc, hd, he, h⟩ | ⟨n, -, h⟩ :=
    sequence_cases b rest
  -- a width of one is an ASCII byte, which is excluded
  · exact absurd (hone h1) (by omega)
  -- from here each width has its own range, and the bounds on the bytes give that of
  -- the character
  · have hb := htwo h2
    simp only [is_cont, Bool.and_eq_true, decide_eq_true_eq] at hc
    rw [h, toNat_ofNat _ (by omega)]
    omega
  · have hb := hthree h3
    have hc := is_second_bounds b _ hc
    simp only [is_cont, Bool.and_eq_true, decide_eq_true_eq] at hd
    rw [h, toNat_ofNat _ (by omega)]
    omega
  · have hb := hfour h4
    have hc := is_second_bounds b _ hc
    simp only [is_cont, Bool.and_eq_true, decide_eq_true_eq] at hd he
    rw [h, toNat_ofNat _ (by omega)]
    omega
  · rw [h]
    show 128 ≤ REPLACEMENT_CHARACTER.toNat
    decide

/-! ## Decoding piece by piece

The two results other files use. -/

/-- Decoding up to an ASCII byte and from there on. The induction is on the bytes before
it, with the number already taken general: a sequence that was begun ends before the
ASCII byte or is cut off by it. -/
theorem decode_from_append (taken : Nat) (pre : List UInt8) (a : UInt8) (rest : List UInt8)
    (ha : a.toNat < 128) (htaken : taken ≤ pre.length) :
    decode_from taken (pre ++ a :: rest)
      = decode_from taken pre ++ Char.ofNat a.toNat :: from_utf8_lossy rest := by
  induction pre generalizing taken with
  | nil =>
      obtain rfl : taken = 0 := Nat.le_zero.mp htaken
      rw [List.nil_append, decode_from, decode_from, sequence_ascii _ _ ha]
      rfl
  | cons b pre ih =>
      cases taken with
      | zero =>
          rw [List.cons_append, decode_from, sequence_append _ _ _ _ ha, decode_from,
            ih _ (sequence_le _ _)]
          rfl
      | succ taken =>
          rw [List.cons_append, decode_from, decode_from, ih taken (Nat.le_of_succ_le_succ htaken)]

/-- Decoding before and behind an ASCII byte. -/
theorem decode_append_ascii (pre : List UInt8) (a : UInt8) (rest : List UInt8)
    (ha : a.toNat < 128) :
    from_utf8_lossy (pre ++ a :: rest)
      = from_utf8_lossy pre ++ Char.ofNat a.toNat :: from_utf8_lossy rest :=
  decode_from_append 0 pre a rest ha (Nat.zero_le _)

/-- An ASCII character in the text is its byte. -/
theorem mem_of_mem_decode (c : Char) (hc : c.toNat < 128) (taken : Nat) (bytes : List UInt8)
    (h : c ∈ decode_from taken bytes) : UInt8.ofNat c.toNat ∈ bytes := by
  induction bytes generalizing taken with
  | nil => cases taken <;> cases h
  | cons b rest ih =>
      cases taken with
      | zero =>
          rw [decode_from] at h
          rcases List.mem_cons.mp h with rfl | h
          · have hb : b.toNat < 128 := by
              by_contra hwide
              exact absurd (sequence_wide b.toNat rest (Nat.le_of_not_lt hwide)) (by omega)
            rw [sequence_ascii _ _ hb, toNat_ofNat _ (.inl (by omega)), UInt8.ofNat_toNat]
            exact List.mem_cons_self
          · exact List.mem_cons_of_mem _ (ih _ h)
      | succ taken => exact List.mem_cons_of_mem _ (ih taken h)

/-- A text of ASCII characters is its bytes: no other byte has an ASCII character come
of it. -/
theorem bytes_of_ascii (bytes : List UInt8) (h : ∀ c ∈ from_utf8_lossy bytes, c.toNat < 128) :
    from_utf8_lossy bytes = bytes.map (fun b => Char.ofNat b.toNat) := by
  induction bytes with
  | nil => rfl
  | cons b rest ih =>
      rw [from_utf8_lossy, decode_from] at h ⊢
      have hb : b.toNat < 128 := by
        by_contra hwide
        have hchar := h _ List.mem_cons_self
        exact absurd (sequence_wide b.toNat rest (Nat.le_of_not_lt hwide)) (by omega)
      rw [sequence_ascii _ _ hb] at h ⊢
      rw [List.map_cons, ← ih (fun c hc => h c (List.mem_cons_of_mem _ hc))]
      rfl

/-- And bytes that are ASCII decode to themselves. -/
theorem decode_ascii (bytes : List UInt8) (h : ∀ b ∈ bytes, b.toNat < 128) :
    from_utf8_lossy bytes = bytes.map (fun b => Char.ofNat b.toNat) := by
  induction bytes with
  | nil => rfl
  | cons b rest ih =>
      rw [from_utf8_lossy, decode_from, sequence_ascii _ _ (h b List.mem_cons_self),
        List.map_cons, ← ih (fun b' hb' => h b' (List.mem_cons_of_mem _ hb'))]
      rfl

/-- Only an ASCII text's own bytes decode to it. -/
theorem decode_eq_iff (bytes ascii : List UInt8) (h : ∀ b ∈ ascii, b.toNat < 128) :
    from_utf8_lossy bytes = from_utf8_lossy ascii ↔ bytes = ascii := by
  have hcode : ∀ b : UInt8, (Char.ofNat b.toNat).toNat = b.toNat := fun b =>
    toNat_ofNat _ (.inl (by have := b.toNat_lt; omega))
  refine ⟨fun heq => ?_, fun heq => by rw [heq]⟩
  have htext : ∀ c ∈ from_utf8_lossy bytes, c.toNat < 128 := by
    intro c hc
    rw [heq, decode_ascii ascii h] at hc
    obtain ⟨b, hb, rfl⟩ := List.mem_map.mp hc
    rw [hcode]
    exact h b hb
  rw [bytes_of_ascii bytes htext, decode_ascii ascii h] at heq
  refine List.map_injective_iff.mpr (fun b b' hbb => ?_) heq
  exact UInt8.toNat_inj.mp (by rw [← hcode b, hbb, hcode])

end InputSync.LossyText
