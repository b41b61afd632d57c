/-
Self-delimiting binary codecs: a writer, a reader, and the two laws that make
them inverse to one another.

A binary serializer without a schema on the wire is read strictly from left to
right. The reader of a type takes the bytes it needs off the front of the
input and hands the rest on, so a codec for a product is the two codecs one
after the other, a codec for a list is a count followed by that many elements,
and a codec for a sum is a tag followed by the codec the tag selects. This
file develops that algebra once. The two laws are fields of the structure, so
a codec that loses information cannot be built, and the codec of a whole
message language is assembled from these pieces with no further round-trip
proof than its case split.

The laws are asymmetric on purpose. Reading back what was written
(`get_put`) needs the writer's output to be shorter than `2 ^ 64` bytes,
because a list carries its length as a 64-bit word and a longer list wraps it.
That what was read is what the writer would have written (`put_of_get`) needs
nothing: a reader only ever accepts the canonical spelling.
-/
import Mathlib.Algebra.Group.Nat.Defs
import Mathlib.Data.Nat.Basic
import Mathlib.Data.List.Basic
import Mathlib.Tactic.Common

set_option autoImplicit false

universe u v

namespace InputSync

/-! ## Little-endian words

The number theory of the file is here and nowhere else: a word of `k` bytes and a number
below `256 ^ k` are the same thing. Everything above works with the two codec laws. -/

/-- The `k` low bytes of `n`, least significant first. -/
def leBytes : Nat → Nat → List UInt8
  | 0, _ => []
  | k + 1, n => UInt8.ofNat n :: leBytes k (n / 256)

/-- The number a little-endian byte string spells. -/
def ofLeBytes : List UInt8 → Nat
  | [] => 0
  | b :: bs => b.toNat + 256 * ofLeBytes bs

/-- The width of a word does not depend on its value, which is why a fixed-width reader
knows how many bytes to take. -/
@[simp] theorem leBytes_length (k n : Nat) : (leBytes k n).length = k := by
  induction k generalizing n with
  | zero => rfl
  | succ k ih => simp only [leBytes, List.length_cons, ih]

/-- A number that fits in `k` bytes is recovered from them. -/
theorem ofLeBytes_leBytes (k n : Nat) (h : n < 256 ^ k) : ofLeBytes (leBytes k n) = n := by
  induction k generalizing n with
  | zero =>
      have hn : n = 0 := by simpa using h
      simp only [leBytes, ofLeBytes, hn]
  | succ k ih =>
      have hdiv : n / 256 < 256 ^ k := by
        rw [Nat.div_lt_iff_lt_mul (by omega)]
        rwa [Nat.pow_succ] at h
      simp only [leBytes, ofLeBytes, ih _ hdiv, UInt8.toNat_ofNat']
      omega

/-- A byte string spells a number that fits in it. -/
theorem ofLeBytes_lt (bs : List UInt8) : ofLeBytes bs < 256 ^ bs.length := by
  induction bs with
  | nil => simp [ofLeBytes]
  | cons b bs ih =>
      have hb := b.toNat_lt
      simp only [ofLeBytes, List.length_cons, Nat.pow_succ]
      omega

/-- Every byte string is the canonical spelling of its number. -/
theorem leBytes_ofLeBytes (bs : List UInt8) : leBytes bs.length (ofLeBytes bs) = bs := by
  induction bs with
  | nil => rfl
  | cons b bs ih =>
      have hb := b.toNat_lt
      have hhead : UInt8.ofNat (b.toNat + 256 * ofLeBytes bs) = b := by
        apply UInt8.toNat_inj.mp
        rw [UInt8.toNat_ofNat']
        omega
      have htail : (b.toNat + 256 * ofLeBytes bs) / 256 = ofLeBytes bs := by omega
      simp only [List.length_cons, ofLeBytes, leBytes, hhead, htail, ih]

/-! ## Big-endian words

The header of a frame is in network order while its payload is not, so both orders
occur. -/

/-- The `k` low bytes of `n`, most significant first. -/
def beBytes (k n : Nat) : List UInt8 := (leBytes k n).reverse

/-- The number a big-endian byte string spells. -/
def ofBeBytes (bs : List UInt8) : Nat := ofLeBytes bs.reverse

/-- The same for the other byte order; the length of a frame header rests on it. -/
@[simp] theorem beBytes_length (k n : Nat) : (beBytes k n).length = k := by
  simp only [beBytes, List.length_reverse, leBytes_length]

/-- Reading a big-endian word gives the number back. With `ofBeBytes_lt` and
`beBytes_ofBeBytes` this is the little-endian bijection seen through `reverse`, so the
header needs no arithmetic of its own. -/
theorem ofBeBytes_beBytes (k n : Nat) (h : n < 256 ^ k) : ofBeBytes (beBytes k n) = n := by
  rw [ofBeBytes, beBytes, List.reverse_reverse, ofLeBytes_leBytes k n h]

/-- What a big-endian word spells fits its width, so it can be stored in a machine
integer without a check. -/
theorem ofBeBytes_lt (bs : List UInt8) : ofBeBytes bs < 256 ^ bs.length := by
  simpa only [ofBeBytes, List.length_reverse] using ofLeBytes_lt bs.reverse

/-- Every byte string is the canonical big-endian spelling of its number: no two headers
say the same thing. -/
theorem beBytes_ofBeBytes (bs : List UInt8) : beBytes bs.length (ofBeBytes bs) = bs := by
  have h := leBytes_ofLeBytes bs.reverse
  rw [List.length_reverse] at h
  rw [beBytes, ofBeBytes, h, List.reverse_reverse]

/-! ## Codecs

The laws are part of the structure, so every codec below brings its proofs along and a
codec built from others inherits them. -/

/-- A self-delimiting codec. `put` writes a value; `get` reads one off the
front of the input and returns it with the bytes that follow. -/
structure Codec (α : Type u) where
  put : α → List UInt8
  get : List UInt8 → Option (α × List UInt8)
  get_put : ∀ a s, (put a).length < 2 ^ 64 → get (put a ++ s) = some (a, s)
  put_of_get : ∀ b a s, get b = some (a, s) → b = put a ++ s

namespace Codec

variable {α : Type u} {β : Type v}

/-- A codec read at the type its values are injected into, as a tagged sum
reads the payload of one of its variants. -/
def getAs (c : Codec α) (f : α → β) (b : List UInt8) : Option (β × List UInt8) :=
  (c.get b).map (fun p => (f p.1, p.2))

/-- The first law at the type a value is injected into. A product uses it for its second
component and a sum for each variant, so neither has to open the codec it is built from.
-/
theorem getAs_put (c : Codec α) (f : α → β) (a : α) (s : List UInt8)
    (h : (c.put a).length < 2 ^ 64) : c.getAs f (c.put a ++ s) = some (f a, s) := by
  simp only [getAs, c.get_put a s h, Option.map_some]

/-- The second law in the same form, as an inversion: what `getAs` accepts is the image
of a value, spelled canonically. -/
theorem getAs_eq_some (c : Codec α) (f : α → β) (b s : List UInt8) (m : β)
    (h : c.getAs f b = some (m, s)) : ∃ a, m = f a ∧ b = c.put a ++ s := by
  simp only [getAs, Option.map_eq_some_iff, Prod.mk.injEq] at h
  obtain ⟨⟨a, t⟩, hget, hm, ht⟩ := h
  exact ⟨a, hm.symm, by rw [← ht]; exact c.put_of_get b a t hget⟩

/-- **Fixed-width little-endian words.** -/
def word (k : Nat) : Codec {n : Nat // n < 256 ^ k} where
  put n := leBytes k n.1
  get b :=
    if h : (b.take k).length = k then
      some (⟨ofLeBytes (b.take k), by rw [← h]; simpa only [h] using ofLeBytes_lt (b.take k)⟩,
        b.drop k)
    else none
  get_put a s _ := by
    have htake : (leBytes k a.1 ++ s).take k = leBytes k a.1 :=
      List.take_left' (leBytes_length k a.1)
    have hdrop : (leBytes k a.1 ++ s).drop k = s := List.drop_left' (leBytes_length k a.1)
    rw [dif_pos (by rw [htake, leBytes_length])]
    simp only [htake, hdrop, ofLeBytes_leBytes k a.1 a.2]
  put_of_get b a s h := by
    by_cases hk : (b.take k).length = k
    · rw [dif_pos hk] at h
      simp only [Option.some.injEq, Prod.mk.injEq] at h
      obtain ⟨ha, hs⟩ := h
      have hput : leBytes k a.1 = b.take k := by
        rw [← ha]
        simpa only [hk] using leBytes_ofLeBytes (b.take k)
      rw [hput, ← hs, List.take_append_drop]
    · rw [dif_neg hk] at h
      cases h

/-- A codec transported along a partial inverse: `dec` may reject a value of
the carrier, as a bool rejects the byte `2`. -/
def via (c : Codec α) (enc : β → α) (dec : α → Option β)
    (dec_enc : ∀ b, dec (enc b) = some b) (enc_of_dec : ∀ a b, dec a = some b → a = enc b) :
    Codec β where
  put b := c.put (enc b)
  get s := (c.get s).bind (fun p => (dec p.1).map (fun b => (b, p.2)))
  get_put b s h := by
    simp only [c.get_put (enc b) s h, Option.bind_some, dec_enc, Option.map_some]
  put_of_get s b t h := by
    simp only [Option.bind_eq_some_iff, Option.map_eq_some_iff, Prod.mk.injEq] at h
    obtain ⟨⟨a, t'⟩, hget, b', hdec, hb, ht⟩ := h
    rw [← hb, ← ht, ← enc_of_dec a b' hdec]
    exact c.put_of_get s a t' hget

/-- A codec transported along a bijection, as a struct is the tuple of its
fields. -/
def iso (c : Codec α) (enc : β → α) (dec : α → β)
    (dec_enc : ∀ b, dec (enc b) = b) (enc_dec : ∀ a, enc (dec a) = a) : Codec β :=
  c.via enc (fun a => some (dec a)) (fun b => congrArg some (dec_enc b))
    (fun a b h => by rw [← Option.some.inj h, enc_dec])

/-- **Products**: one codec after the other. -/
def seq (c : Codec α) (d : Codec β) : Codec (α × β) where
  put p := c.put p.1 ++ d.put p.2
  get s := (c.get s).bind (fun p => d.getAs (fun b => (p.1, b)) p.2)
  get_put p s h := by
    simp only [List.length_append] at h
    rw [List.append_assoc, c.get_put p.1 _ (by omega), Option.bind_some,
      d.getAs_put _ p.2 s (by omega)]
  put_of_get s p t h := by
    obtain ⟨⟨a, t'⟩, hget, hrest⟩ := Option.bind_eq_some_iff.mp h
    obtain ⟨b, rfl, ht⟩ := d.getAs_eq_some _ _ _ _ hrest
    rw [List.append_assoc, ← ht]
    exact c.put_of_get s a t' hget

/-! ## Machine words

Each machine integer is `word` at its width, transported along the bijection with its
values. No law is proved again. -/

/-- A byte is a word of one byte; the type supplies the bound. -/
def u8 : Codec UInt8 :=
  (word 1).iso (fun x => ⟨x.toNat, x.toNat_lt⟩) (fun n => UInt8.ofNatLT n.1 n.2)
    (fun x => by simp) (fun n => by simp)

/-- The same at two bytes. -/
def u16 : Codec UInt16 :=
  (word 2).iso (fun x => ⟨x.toNat, x.toNat_lt⟩) (fun n => UInt16.ofNatLT n.1 n.2)
    (fun x => by simp) (fun n => by simp)

/-- The same at four. -/
def u32 : Codec UInt32 :=
  (word 4).iso (fun x => ⟨x.toNat, x.toNat_lt⟩) (fun n => UInt32.ofNatLT n.1 n.2)
    (fun x => by simp) (fun n => by simp)

/-- The same at eight. -/
def u64 : Codec UInt64 :=
  (word 8).iso (fun x => ⟨x.toNat, x.toNat_lt⟩) (fun n => UInt64.ofNatLT n.1 n.2)
    (fun x => by simp) (fun n => by simp)

/-- The five machine words have a known width. Tagged `simp`, these lemmas measure a
message without unfolding its codec. -/
@[simp] theorem u8_put_length (x : UInt8) : (u8.put x).length = 1 := leBytes_length 1 _
/-- A `u16` takes two bytes. -/
@[simp] theorem u16_put_length (x : UInt16) : (u16.put x).length = 2 := leBytes_length 2 _
/-- A `u32` takes four bytes, and so does the position of a variant. -/
@[simp] theorem u32_put_length (x : UInt32) : (u32.put x).length = 4 := leBytes_length 4 _
/-- A `u64` takes eight bytes, and so does the length of a list. -/
@[simp] theorem u64_put_length (x : UInt64) : (u64.put x).length = 8 := leBytes_length 8 _

/-- Signed words travel as the unsigned word of the same bits. -/
def i16 : Codec Int16 := u16.iso Int16.toUInt16 UInt16.toInt16 (fun _ => rfl) (fun _ => rfl)

/-- The same at four bytes. -/
def i32 : Codec Int32 := u32.iso Int32.toUInt32 UInt32.toInt32 (fun _ => rfl) (fun _ => rfl)

/-- An `i16` takes two bytes, being the unsigned word of the same bits. -/
@[simp] theorem i16_put_length (x : Int16) : (i16.put x).length = 2 := u16_put_length _
/-- An `i32` takes four bytes. -/
@[simp] theorem i32_put_length (x : Int32) : (i32.put x).length = 4 := u32_put_length _

/-- A bool is the byte `0` or `1`; any other byte is rejected. -/
def bool : Codec Bool :=
  u8.via (fun b => if b then 1 else 0)
    (fun x => if x = 0 then some false else if x = 1 then some true else none)
    (fun b => by cases b <;> rfl)
    (fun x b h => by
      by_cases h0 : x = 0
      · rw [if_pos h0] at h
        rw [← Option.some.inj h, h0]; rfl
      · rw [if_neg h0] at h
        by_cases h1 : x = 1
        · rw [if_pos h1] at h
          rw [← Option.some.inj h, h1]; rfl
        · rw [if_neg h1] at h
          cases h)

/-- A bool takes one byte, the presence byte of an option included. -/
@[simp] theorem bool_put_length (b : Bool) : (bool.put b).length = 1 := u8_put_length _

/-! ## Tagged sums

An enum is the position of its variant as a `u32`, then the payload the variant has. -/

/-- **Tagged sums.** `tag` names the variant of a value and `body` writes its
payload; `read` is the reader the tag selects. The two obligations are the
case split over the variants, and nothing else. -/
def tagged (tag : α → UInt32) (body : α → List UInt8)
    (read : UInt32 → List UInt8 → Option (α × List UInt8))
    (read_body : ∀ a s, (body a).length < 2 ^ 64 → read (tag a) (body a ++ s) = some (a, s))
    (body_of_read : ∀ i b a s, read i b = some (a, s) → i = tag a ∧ b = body a ++ s) :
    Codec α where
  put a := u32.put (tag a) ++ body a
  get b := (u32.get b).bind (fun p => read p.1 p.2)
  get_put a s h := by
    simp only [List.length_append, u32_put_length] at h
    rw [List.append_assoc, u32.get_put _ _ (by simp), Option.bind_some, read_body a s (by omega)]
  put_of_get b a s h := by
    obtain ⟨⟨i, t⟩, hget, hread⟩ := Option.bind_eq_some_iff.mp h
    obtain ⟨rfl, ht⟩ := body_of_read i t a s hread
    rw [List.append_assoc, ← ht]
    exact u32.put_of_get b _ t hget

/-- An enumeration of `n` variants without payloads travels as the position of
its variant; a position past the last one is rejected. -/
def enumeration (n : Nat) (index : α → Nat) (ofIndex : Nat → α) (hn : n ≤ 2 ^ 32)
    (index_lt : ∀ a, index a < n) (ofIndex_index : ∀ a, ofIndex (index a) = a)
    (index_ofIndex : ∀ i < n, index (ofIndex i) = i) : Codec α :=
  u32.via (fun a => UInt32.ofNat (index a))
    (fun i => if i.toNat < n then some (ofIndex i.toNat) else none)
    (fun a => by
      have hlt := index_lt a
      rw [UInt32.toNat_ofNat', Nat.mod_eq_of_lt (by omega), if_pos hlt, ofIndex_index])
    (fun i a h => by
      by_cases hi : i.toNat < n
      · rw [if_pos hi] at h
        rw [← Option.some.inj h, index_ofIndex _ hi]
        exact (UInt32.ofNat_toNat).symm
      · rw [if_neg hi] at h
        cases h)

/-- A variant without a payload takes the four bytes of its position, whichever it is.
-/
@[simp] theorem enumeration_put_length (n : Nat) (index : α → Nat) (ofIndex : Nat → α)
    (hn : n ≤ 2 ^ 32) (h₁ : ∀ a, index a < n) (h₂ : ∀ a, ofIndex (index a) = a)
    (h₃ : ∀ i < n, index (ofIndex i) = i) (a : α) :
    ((enumeration n index ofIndex hn h₁ h₂ h₃).put a).length = 4 := u32_put_length _

/-- An option is a presence byte and then the value, if there is one. -/
def opt (c : Codec α) : Codec (Option α) where
  put
    | none => bool.put false
    | some a => bool.put true ++ c.put a
  get b := (bool.get b).bind (fun p => if p.1 then c.getAs some p.2 else some (none, p.2))
  get_put o s h := by
    cases o with
    | none => rw [bool.get_put _ _ (by simp)]; rfl
    | some a =>
        simp only [List.length_append, bool_put_length] at h
        rw [List.append_assoc, bool.get_put _ _ (by simp), Option.bind_some, if_pos rfl,
          c.getAs_put some a s (by omega)]
  put_of_get b o s h := by
    obtain ⟨⟨present, t⟩, hget, hrest⟩ := Option.bind_eq_some_iff.mp h
    have hb := bool.put_of_get b present t hget
    cases present with
    | false =>
        simp only [Bool.false_eq_true, if_false, Option.some.injEq, Prod.mk.injEq] at hrest
        obtain ⟨rfl, rfl⟩ := hrest
        exact hb
    | true =>
        obtain ⟨a, rfl, ht⟩ := c.getAs_eq_some some t s o hrest
        rw [hb, ht, List.append_assoc]

/-! ## Lists

A list is where the laws become asymmetric: its length travels in 64 bits, and the
reader trusts it. -/

/-- `n` values one after the other. -/
def getN (c : Codec α) : Nat → List UInt8 → Option (List α × List UInt8)
  | 0, s => some ([], s)
  | n + 1, s => (c.get s).bind (fun p => (getN c n p.2).map (fun q => (p.1 :: q.1, q.2)))

/-- Elements written one after the other are read back. The induction is on the list,
and the bound on the total length gives each element its own. -/
theorem getN_flatMap (c : Codec α) (xs : List α) (s : List UInt8)
    (h : (xs.flatMap c.put).length < 2 ^ 64) :
    c.getN xs.length (xs.flatMap c.put ++ s) = some (xs, s) := by
  induction xs with
  | nil => rfl
  | cons x xs ih =>
      simp only [List.flatMap_cons, List.length_append] at h
      rw [List.flatMap_cons, List.append_assoc, List.length_cons, getN,
        c.get_put x _ (by omega), Option.bind_some, ih (by omega), Option.map_some]

/-- A count of `n` that was read found exactly `n` elements, each spelled canonically.
-/
theorem getN_eq_some (c : Codec α) (n : Nat) (b s : List UInt8) (xs : List α)
    (h : c.getN n b = some (xs, s)) : xs.length = n ∧ b = xs.flatMap c.put ++ s := by
  induction n generalizing b xs with
  | zero =>
      simp only [getN, Option.some.injEq, Prod.mk.injEq] at h
      obtain ⟨rfl, rfl⟩ := h
      exact ⟨rfl, rfl⟩
  | succ n ih =>
      simp only [getN, Option.bind_eq_some_iff, Option.map_eq_some_iff, Prod.mk.injEq] at h
      obtain ⟨⟨x, t⟩, hget, ⟨ys, t'⟩, hys, rfl, rfl⟩ := h
      obtain ⟨hlen, ht⟩ := ih t ys hys
      refine ⟨by rw [List.length_cons, hlen], ?_⟩
      rw [List.flatMap_cons, List.append_assoc, ← ht]
      exact c.put_of_get b x t hget

/-- Where every element takes at least one byte, a list is no longer than what
it is written as. -/
theorem length_le_flatMap_put (c : Codec α) (hpos : ∀ a, 0 < (c.put a).length) (xs : List α) :
    xs.length ≤ (xs.flatMap c.put).length := by
  induction xs with
  | nil => simp
  | cons x xs ih =>
      have hx := hpos x
      simp only [List.flatMap_cons, List.length_append, List.length_cons]
      omega

/-- **Lists**: the length as a 64-bit word, then the elements. -/
def vec (c : Codec α) (hpos : ∀ a, 0 < (c.put a).length) : Codec (List α) where
  put xs := u64.put (UInt64.ofNat xs.length) ++ xs.flatMap c.put
  get b := (u64.get b).bind (fun p => c.getN p.1.toNat p.2)
  get_put xs s h := by
    simp only [List.length_append, u64_put_length] at h
    have hle := length_le_flatMap_put c hpos xs
    rw [List.append_assoc, u64.get_put _ _ (by simp), Option.bind_some, UInt64.toNat_ofNat',
      Nat.mod_eq_of_lt (by omega), getN_flatMap c xs s (by omega)]
  put_of_get b xs s h := by
    obtain ⟨⟨n, t⟩, hget, hrest⟩ := Option.bind_eq_some_iff.mp h
    obtain ⟨hlen, ht⟩ := c.getN_eq_some n.toNat t s xs hrest
    rw [hlen, UInt64.ofNat_toNat, List.append_assoc, ← ht]
    exact u64.put_of_get b n t hget

/-- A byte string: `vec` at bytes. -/
def bytes : Codec (List UInt8) := vec u8 (fun _ => by simp)

/-- A fixed-size array carries no length. -/
def array (n : Nat) : Codec (Vector UInt8 n) where
  put v := v.toList
  get b :=
    if h : (b.take n).length = n then some (⟨(b.take n).toArray, by simpa using h⟩, b.drop n)
    else none
  get_put v s _ := by
    have hlen : v.toList.length = n := by simp
    have htake : (v.toList ++ s).take n = v.toList := List.take_left' hlen
    have hdrop : (v.toList ++ s).drop n = s := List.drop_left' hlen
    rw [dif_pos (by rw [htake, hlen])]
    simp only [htake, hdrop, Option.some.injEq, Prod.mk.injEq, and_true]
    exact Vector.toArray_inj.mp rfl
  put_of_get b v s h := by
    by_cases hn : (b.take n).length = n
    · rw [dif_pos hn] at h
      simp only [Option.some.injEq, Prod.mk.injEq] at h
      obtain ⟨hv, hs⟩ := h
      have hlist : v.toList = b.take n := by rw [← hv]; rfl
      rw [hlist, ← hs, List.take_append_drop]
    · rw [dif_neg hn] at h
      cases h

/-- An array is as long on the wire as it is in memory. -/
@[simp] theorem array_put_length {n : Nat} (v : Vector UInt8 n) :
    ((array n).put v).length = n := Vector.length_toList

/-- Text travels as its UTF-8 bytes; a byte string that is not UTF-8 is
rejected. -/
def string : Codec String :=
  bytes.via (fun s => s.toUTF8.data.toList) (fun b => String.fromUTF8? ⟨b.toArray⟩)
    (fun s => by
      simp only [Array.toArray_toList, String.fromUTF8?]
      exact dif_pos s.isValidUTF8)
    (fun b s h => by
      simp only [String.fromUTF8?] at h
      split at h
      · rw [← Option.some.inj h]; rfl
      · cases h)

end Codec

end InputSync
