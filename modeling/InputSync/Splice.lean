/-
Writing into a list at an offset, as a file is written after a seek.

`splice` overwrites what is there and grows the list where the data reaches
past its end; a write that starts past the end leaves padding in between, and
an empty write does nothing at all. A write that starts within the list is
`splice_eq`, and what a prefix of the list becomes follows from it. For any
other, the list is read place by place (`splice_getElem?`); so two writes
commute exactly when they put the same where they meet (`splice_comm_iff`).
-/
import Mathlib.Data.List.Basic
import Mathlib.Data.List.Infix
import Mathlib.Tactic.Common

set_option autoImplicit false

universe u

namespace InputSync

variable {α : Type u}

/-- `old` with `data` written at `off`; the gap, if any, is filled with `pad`. -/
def splice (pad : α) (old : List α) (off : Nat) (data : List α) : List α :=
  match data with
  | [] => old
  | _ =>
    old.take off ++ List.replicate (off - old.length) pad ++ data ++ old.drop (off + data.length)

/-- A write that starts within the list. -/
theorem splice_eq (pad : α) (old : List α) (off : Nat) (data : List α) (h : off ≤ old.length) :
    splice pad old off data = old.take off ++ data ++ old.drop (off + data.length) := by
  cases data with
  | nil => simp [splice]
  | cons b bs => simp [splice, Nat.sub_eq_zero_of_le h]

/-- How long the list is then: as long as it was, or up to the end of the data. -/
theorem splice_length (pad : α) (old : List α) (off : Nat) (data : List α)
    (h : off ≤ old.length) :
    (splice pad old off data).length = max old.length (off + data.length) := by
  rw [splice_eq pad old off data h]
  simp only [List.length_append, List.length_take, List.length_drop]
  omega

/-- A write at the end appends. -/
theorem splice_at_end (pad : α) (old data : List α) :
    splice pad old old.length data = old ++ data := by
  rw [splice_eq pad old _ data le_rfl, List.take_length,
    List.drop_eq_nil_of_le (Nat.le_add_right _ _), List.append_nil]

/-- Writing what stands there already changes nothing. -/
theorem splice_same (pad : α) (old : List α) (off : Nat) (data : List α)
    (h : data <+: old.drop off) : splice pad old off data = old := by
  by_cases hoff : off ≤ old.length
  · obtain ⟨rest, hrest⟩ := h
    have hbehind : old.drop (off + data.length) = rest := by
      rw [← List.drop_drop, ← hrest, List.drop_left]
    rw [splice_eq pad old off data hoff, hbehind, List.append_assoc, hrest, List.take_append_drop]
  · rw [List.drop_eq_nil_of_le (by omega), List.prefix_nil] at h
    rw [h, splice]

/-- What lies before the write stays. -/
theorem take_splice (pad : α) (old : List α) (off : Nat) (data : List α) (h : off ≤ old.length) :
    (splice pad old off data).take off = old.take off := by
  rw [splice_eq pad old off data h, List.append_assoc,
    List.take_append_of_le_length (by rw [List.length_take]; omega), List.take_take, min_self]

/-- Up to its end, the write is what it wrote. -/
theorem take_splice_end (pad : α) (old : List α) (off : Nat) (data : List α)
    (h : off ≤ old.length) :
    (splice pad old off data).take (off + data.length) = old.take off ++ data := by
  rw [splice_eq pad old off data h]
  exact List.take_left' (by simp only [List.length_append, List.length_take]; omega)

/-- Writing a slice of `c` into a prefix of `c`, at its own place, gives a
prefix of `c`. -/
theorem splice_isPrefix (pad : α) (old c data : List α) (off : Nat) (hold : old <+: c)
    (hoff : off ≤ old.length) (hdata : data = (c.drop off).take data.length) :
    splice pad old off data <+: c := by
  rw [splice_eq pad old off data hoff]
  obtain ⟨rest, rfl⟩ := hold
  have htake : old.take off = (old ++ rest).take off := by
    rw [List.take_append_of_le_length hoff]
  have hwritten : old.take off ++ data = (old ++ rest).take (off + data.length) := by
    rw [List.take_add, ← htake, ← hdata]
  rw [hwritten]
  by_cases hlong : off + data.length ≤ old.length
  · rw [List.take_append_of_le_length hlong, List.take_append_drop]
    exact List.prefix_append old rest
  · rw [List.drop_eq_nil_of_le (by omega), List.append_nil]
    exact List.take_prefix _ _

/-! ## Two writes

Whether two writes can be told apart by their order is decided where both put something. -/

/-- A written list, place by place. -/
theorem splice_getElem? (pad : α) (old : List α) (off : Nat) (data : List α) (k : Nat) :
    (splice pad old off data)[k]? =
      if off ≤ k ∧ k < off + data.length then data[k - off]?
      else old[k]?.or (if k < off ∧ data ≠ [] then some pad else none) := by
  cases data with
  | nil =>
      rw [if_neg (by simp only [List.length_nil]; omega), if_neg (fun h => h.2 rfl), Option.or_none]
      rfl
  | cons d ds =>
      generalize hdata : d :: ds = data
      have hne : data ≠ [] := by rw [← hdata]; exact List.cons_ne_nil d ds
      have hsplice : splice pad old off data = old.take off ++ List.replicate (off - old.length) pad
          ++ data ++ old.drop (off + data.length) := by rw [← hdata]; rfl
      have hlen : (old.take off ++ List.replicate (off - old.length) pad).length = off := by
        simp only [List.length_append, List.length_take, List.length_replicate]
        omega
      rw [hsplice]
      -- before the data, in it, or behind it
      by_cases hlow : k < off
      · rw [if_neg (by omega), if_pos ⟨hlow, hne⟩, List.append_assoc,
          List.getElem?_append_left (by omega)]
        by_cases hold : k < old.length
        · rw [List.getElem?_append_left (by rw [List.length_take]; omega),
            List.getElem?_take_of_lt hlow, List.getElem?_eq_getElem hold, Option.some_or]
        · rw [List.getElem?_append_right (by rw [List.length_take]; omega),
            List.getElem?_eq_none (by omega : old.length ≤ k), Option.none_or,
            List.getElem?_replicate_of_lt (by rw [List.length_take]; omega)]
      · by_cases hin : k < off + data.length
        · rw [if_pos ⟨by omega, hin⟩,
            List.getElem?_append_left (by rw [List.length_append, hlen]; exact hin),
            List.getElem?_append_right (by omega), hlen]
        · rw [if_neg (by omega), if_neg (by omega), Option.or_none,
            List.getElem?_append_right (by rw [List.length_append, hlen]; omega),
            List.length_append, hlen, List.getElem?_drop]
          congr 1
          omega

/-- Two pieces of data put the same where both put something. -/
def Coincide (off : Nat) (data : List α) (off' : Nat) (data' : List α) : Prop :=
  ∀ k, off ≤ k → k < off + data.length → off' ≤ k → k < off' + data'.length →
    data[k - off]? = data'[k - off']?

/-- The two pieces may be named in either order. -/
theorem coincide_comm {off off' : Nat} {data data' : List α} :
    Coincide off data off' data' ↔ Coincide off' data' off data :=
  ⟨fun h k hlow hhigh hlow' hhigh' => (h k hlow' hhigh' hlow hhigh).symm,
    fun h k hlow hhigh hlow' hhigh' => (h k hlow' hhigh' hlow hhigh).symm⟩

/-- Where nothing is put there is nothing to differ. -/
theorem coincide_nil {off off' : Nat} {data data' : List α} (h : data = [] ∨ data' = []) :
    Coincide off data off' data' := by
  intro k hlow hhigh hlow' hhigh'
  rcases h with rfl | rfl
  · rw [List.length_nil] at hhigh
    omega
  · rw [List.length_nil] at hhigh'
    omega

/-- Writes commute exactly when they coincide. -/
theorem splice_comm_iff (pad : α) (old : List α) (off : Nat) (data : List α) (off' : Nat)
    (data' : List α) :
    splice pad (splice pad old off data) off' data' = splice pad (splice pad old off' data') off data
      ↔ Coincide off data off' data' := by
  rw [List.ext_getElem?_iff]
  simp only [splice_getElem?]
  -- position by position: only where both ranges cover it can the order be seen
  constructor
  · intro h k hlow hhigh hlow' hhigh'
    have hk := h k
    rw [if_pos ⟨hlow', hhigh'⟩, if_pos ⟨hlow, hhigh⟩] at hk
    exact hk.symm
  · intro h k
    by_cases hin : off ≤ k ∧ k < off + data.length
    · by_cases hin' : off' ≤ k ∧ k < off' + data'.length
      · rw [if_pos hin', if_pos hin, h k hin.1 hin.2 hin'.1 hin'.2]
      · rw [if_neg hin', if_pos hin, if_pos hin, List.getElem?_eq_getElem (by omega), Option.some_or]
    · by_cases hin' : off' ≤ k ∧ k < off' + data'.length
      · rw [if_pos hin', if_neg hin, if_pos hin', List.getElem?_eq_getElem (by omega), Option.some_or]
      · rw [if_neg hin', if_neg hin, if_neg hin, if_neg hin', Option.or_assoc, Option.or_assoc]
        congr 1
        split_ifs <;> rfl

end InputSync
