/-
What the derived serde code writes a type as, over JSON.

A `Serde` is a writer and a reader that gives back what was written, with the
depth the written value can have. A struct is its fields in declaration order,
each under its name; reading looks every field up by name, refuses a name that
occurs twice, and passes over names it does not know (`Fields`). An internally
tagged enum is the tag, then the fields of the variant it names; reading takes
the tag out first, wherever it is (`tagged`). An untagged enum is its content,
and reading tries one variant after the other, so it loses nothing exactly when
no earlier variant takes what a later one writes (`untagged`): for two tagged
enums that is so when they have no variant name in common.

The laws are fields of the structures, as they are of `Codec`.
-/
import InputSync.Json

set_option autoImplicit false

namespace InputSync

/-- A type with how it is written and read. That what is written can be read is a field,
so a type without it has no instance. -/
structure Serde (α : Type) where
  ser : α → Json
  de : Json → Option α
  depth : Nat
  de_ser : ∀ a, de (ser a) = some a
  fits : ∀ a, (ser a).Fits depth

/-- The fields of a struct, by their names. They are read from entries in which
there may be others. -/
structure Fields (names : List String) (α : Type) where
  ser : α → List (String × Json)
  de : List (String × Json) → Option α
  depth : Nat
  ser_names : ∀ a, ∀ e ∈ ser a, e.1 ∈ names
  de_ser : ∀ a before after, (∀ e ∈ before, e.1 ∉ names) → (∀ e ∈ after, e.1 ∉ names) →
    de (before ++ ser a ++ after) = some a
  fits : ∀ a, ∀ e ∈ ser a, e.2.Fits depth

/-- A variant of an enum: a name, and the fields that go with it. -/
structure Variant (α : Type) where
  name : String
  names : List String
  ser : α → Option (List (String × Json))
  de : List (String × Json) → Option α
  depth : Nat
  ser_names : ∀ a es, ser a = some es → ∀ e ∈ es, e.1 ∈ names
  de_ser : ∀ a es, ser a = some es → de es = some a
  fits : ∀ a es, ser a = some es → ∀ e ∈ es, e.2.Fits depth

namespace Serde

variable {α β : Type}

/-! ## Plain values

The types with a representation of their own. -/

/-- The same text or number for another type. -/
def via (s : Serde α) (enc : β → α) (dec : α → Option β) (dec_enc : ∀ b, dec (enc b) = some b) :
    Serde β where
  ser b := s.ser (enc b)
  de j := (s.de j).bind dec
  depth := s.depth
  de_ser b := by rw [s.de_ser, Option.bind_some, dec_enc]
  fits b := s.fits (enc b)

/-- A bool. -/
def bool : Serde Bool where
  ser b := .bool b
  de
    | .bool b => some b
    | _ => none
  depth := 0
  de_ser _ := rfl
  fits b := .bool 0 b

/-- A string. -/
def string : Serde String where
  ser s := .str s
  de
    | .str s => some s
    | _ => none
  depth := 0
  de_ser _ := rfl
  fits s := .str 0 s

/-- The integers of a machine type; any other number is refused. -/
def integer (low high : Int) (hlow : -2 ^ 63 ≤ low) (hhigh : high < 2 ^ 64) :
    Serde {n : Int // low ≤ n ∧ n ≤ high} where
  ser n := .int n.1
  de
    | .int n => if h : low ≤ n ∧ n ≤ high then some ⟨n, h⟩ else none
    | _ => none
  depth := 0
  de_ser n := dif_pos n.2
  fits n := .int 0 n.1 (Int.le_trans hlow n.2.1) (Int.lt_of_le_of_lt n.2.2 hhigh)

/-- The machine integers, each with its range. -/
def u32 : Serde UInt32 :=
  (integer 0 (2 ^ 32 - 1) (by decide) (by decide)).via
    (fun x => ⟨x.toNat, by have := x.toNat_lt; omega⟩) (fun n => some (UInt32.ofNat n.1.toNat))
    (fun x => by simp)

/-- Eight bytes. -/
def u64 : Serde UInt64 :=
  (integer 0 (2 ^ 64 - 1) (by decide) (by decide)).via
    (fun x => ⟨x.toNat, by have := x.toNat_lt; omega⟩) (fun n => some (UInt64.ofNat n.1.toNat))
    (fun x => by simp)

/-- Four bytes, signed. -/
def i32 : Serde Int32 :=
  (integer (-2 ^ 31) (2 ^ 31 - 1) (by decide) (by decide)).via
    (fun x => ⟨x.toInt, by have := x.le_toInt; have := x.toInt_lt; omega⟩)
    (fun n => some (Int32.ofInt n.1)) (fun x => by simp)

/-- `null` for none; the values themselves are not written as that. -/
def option (s : Serde α) (hnull : ∀ a, s.ser a ≠ .null) : Serde (Option α) where
  ser
    | none => .null
    | some a => s.ser a
  de
    | .null => some none
    | j => (s.de j).map some
  depth := s.depth
  de_ser o := by
    cases o with
    | none => rfl
    | some a =>
        dsimp only
        split
        · rename_i heq
          exact absurd heq (hnull a)
        · rw [s.de_ser, Option.map_some]
  fits o := by
    cases o with
    | none => exact .null s.depth
    | some a => exact s.fits a

/-- An array of values. -/
def list (s : Serde α) : Serde (List α) where
  ser xs := .arr (xs.map s.ser)
  de
    | .arr items => items.mapM s.de
    | _ => none
  depth := s.depth + 1
  de_ser xs := by
    dsimp only
    induction xs with
    | nil => rfl
    | cons x xs ih => simp [s.de_ser, ih]
  fits xs := by
    refine .arr s.depth _ ?_
    intro j hj
    obtain ⟨x, -, rfl⟩ := List.mem_map.mp hj
    exact s.fits x

end Serde

/-! ## Structs

Fields are looked up by name, so other fields and another order do no harm; a field that
is there twice is refused. -/

namespace Fields

variable {names names' : List String} {α β : Type}

/-- The value under a name: `some none` without one, `none` if there are two. -/
def lookup (name : String) (es : List (String × Json)) : Option (Option Json) :=
  match es.filter (fun e => e.1 = name) with
  | [] => some none
  | [e] => some (some e.2)
  | _ => none

/-- Other entries do not matter. -/
theorem lookup_among (name : String) (v : Json) {before after : List (String × Json)}
    (hbefore : ∀ e ∈ before, e.1 ∉ [name]) (hafter : ∀ e ∈ after, e.1 ∉ [name]) :
    lookup name (before ++ [(name, v)] ++ after) = some (some v) := by
  have hnone : ∀ es : List (String × Json), (∀ e ∈ es, e.1 ∉ [name]) →
      es.filter (fun e => e.1 = name) = [] := by
    intro es hes
    rw [List.filter_eq_nil_iff]
    intro e he heq
    exact hes e he (List.mem_singleton.mpr (of_decide_eq_true heq))
  unfold lookup
  rw [List.filter_append, List.filter_append, hnone before hbefore, hnone after hafter,
    List.filter_cons_of_pos (by simp)]
  rfl

/-- A struct without fields. -/
def empty : Fields [] Unit where
  ser _ := []
  de _ := some ()
  depth := 0
  ser_names _ := by rintro e ⟨⟩
  de_ser _ _ _ _ _ := rfl
  fits _ := by rintro e ⟨⟩

/-- One field, which has to be there. -/
def field (name : String) (s : Serde α) : Fields [name] α where
  ser a := [(name, s.ser a)]
  de es := (lookup name es).bind (fun v => v.bind s.de)
  depth := s.depth
  ser_names _ := by simp
  de_ser a before after hbefore hafter := by
    rw [lookup_among name _ hbefore hafter, Option.bind_some, Option.bind_some, s.de_ser]
  fits a := by
    intro e he
    rw [List.mem_singleton.mp he]
    exact s.fits a

/-- A field that may be left out, and is written as `null` for none. -/
def optional (name : String) (s : Serde α) (hnull : ∀ a, s.ser a ≠ .null) :
    Fields [name] (Option α) where
  ser a := [(name, (s.option hnull).ser a)]
  de es := (lookup name es).bind (fun v => (v.map (s.option hnull).de).getD (some none))
  depth := s.depth
  ser_names _ := by simp
  de_ser a before after hbefore hafter := by
    rw [lookup_among name _ hbefore hafter, Option.bind_some, Option.map_some, Option.getD_some,
      (s.option hnull).de_ser]
  fits a := by
    intro e he
    rw [List.mem_singleton.mp he]
    exact (s.option hnull).fits a

/-- The fields of one and then of the other. -/
def and (f : Fields names α) (g : Fields names' β)
    (hdisjoint : ∀ name ∈ names, name ∉ names' := by decide) : Fields (names ++ names') (α × β) where
  ser p := f.ser p.1 ++ g.ser p.2
  de es := (f.de es).bind (fun a => (g.de es).map (fun b => (a, b)))
  depth := max f.depth g.depth
  ser_names p e he := by
    rcases List.mem_append.mp he with he | he
    · exact List.mem_append_left _ (f.ser_names p.1 e he)
    · exact List.mem_append_right _ (g.ser_names p.2 e he)
  de_ser p before after hbefore hafter := by
    have hf : f.de (before ++ (f.ser p.1 ++ g.ser p.2) ++ after) = some p.1 := by
      rw [← List.append_assoc, List.append_assoc]
      apply f.de_ser
      · exact fun e he hmem => hbefore e he (List.mem_append_left _ hmem)
      · intro e he hmem
        rcases List.mem_append.mp he with he | he
        · exact hdisjoint _ hmem (g.ser_names p.2 e he)
        · exact hafter e he (List.mem_append_left _ hmem)
    have hg : g.de (before ++ (f.ser p.1 ++ g.ser p.2) ++ after) = some p.2 := by
      rw [← List.append_assoc]
      apply g.de_ser
      · intro e he hmem
        rcases List.mem_append.mp he with he | he
        · exact hbefore e he (List.mem_append_right _ hmem)
        · exact hdisjoint _ (f.ser_names p.1 e he) hmem
      · exact fun e he hmem => hafter e he (List.mem_append_right _ hmem)
    rw [hf, Option.bind_some, hg, Option.map_some]
  fits p e he := by
    rcases List.mem_append.mp he with he | he
    · exact (f.fits p.1 e he).mono (Nat.le_max_left _ _)
    · exact (g.fits p.2 e he).mono (Nat.le_max_right _ _)

/-- A struct for the tuple of its fields. -/
def iso (f : Fields names α) (enc : β → α) (dec : α → β) (dec_enc : ∀ b, dec (enc b) = b) :
    Fields names β where
  ser b := f.ser (enc b)
  de es := (f.de es).map dec
  depth := f.depth
  ser_names b := f.ser_names (enc b)
  de_ser b before after hbefore hafter := by
    rw [f.de_ser (enc b) before after hbefore hafter, Option.map_some, dec_enc]
  fits b := f.fits (enc b)

/-- A struct whose fields are all there is to the object. -/
theorem de_ser_alone (f : Fields names α) (a : α) : f.de (f.ser a) = some a := by
  have h := f.de_ser a [] [] (by rintro e ⟨⟩) (by rintro e ⟨⟩)
  rwa [List.nil_append, List.append_nil] at h

/-- The struct as a value: an object. A derived reader also takes the values
alone, as an array; nothing writes that. -/
def struct (f : Fields names α) : Serde α where
  ser a := .obj (f.ser a)
  de
    | .obj es => f.de es
    | _ => none
  depth := f.depth + 1
  de_ser a := f.de_ser_alone a
  fits a := .obj f.depth _ (f.fits a)

/-- A variant with these fields. -/
def variant (f : Fields names β) (name : String) (take : α → Option β) (make : β → α)
    (make_take : ∀ a b, take a = some b → make b = a := by intro a b h; cases a <;> cases h <;> rfl) :
    Variant α where
  name := name
  names := names
  ser a := (take a).map f.ser
  de es := (f.de es).map make
  depth := f.depth
  ser_names a es h := by
    obtain ⟨b, -, rfl⟩ := Option.map_eq_some_iff.mp h
    exact f.ser_names b
  de_ser a es h := by
    obtain ⟨b, hb, rfl⟩ := Option.map_eq_some_iff.mp h
    rw [f.de_ser_alone, Option.map_some, make_take a b hb]
  fits a es h := by
    obtain ⟨b, -, rfl⟩ := Option.map_eq_some_iff.mp h
    exact f.fits b

end Fields

/-! ## Enums

A table of variants, with what makes it readable again: the names are different, and
none of the fields is called like the tag. -/

namespace Variant

variable {α β : Type}

/-- The name and the fields a value is written with. -/
def write_as (variants : List (Variant α)) (a : α) : Option (String × List (String × Json)) :=
  variants.findSome? (fun v => (v.ser a).map (fun es => (v.name, es)))

/-- The variant of that name reads the fields. -/
def read_as (variants : List (Variant α)) (name : String) (es : List (String × Json)) : Option α :=
  (variants.find? (fun v => v.name = name)).bind (fun v => v.de es)

/-- An internally tagged enum: no two variants of a name, no field with the name
of the tag, and a variant for every value. -/
structure Table (α : Type) where
  tag : String
  variants : List (Variant α)
  distinct : (variants.map name).Nodup
  untagged : ∀ v ∈ variants, tag ∉ v.names
  covers : ∀ a, ∃ v ∈ variants, (v.ser a).isSome = true
  depth : Nat
  shallow : ∀ d ∈ variants.map Variant.depth, d ≤ depth

/-- The variants are tried in order and some variant takes the value, so the one that
writes it is in the table. -/
theorem write_as_spec (t : Table α) (a : α) :
    ∃ v ∈ t.variants, ∃ es, v.ser a = some es ∧ write_as t.variants a = some (v.name, es) := by
  obtain ⟨w, hw, hsome⟩ := t.covers a
  obtain ⟨es', hes'⟩ := Option.isSome_iff_exists.mp hsome
  have hfound : (write_as t.variants a).isSome = true := by
    unfold write_as
    rw [List.findSome?_isSome_iff]
    exact ⟨w, hw, by rw [hes']; rfl⟩
  obtain ⟨found, hfound⟩ := Option.isSome_iff_exists.mp hfound
  obtain ⟨v, hv, hmap⟩ := List.exists_of_findSome?_eq_some hfound
  obtain ⟨es, hes, rfl⟩ := Option.map_eq_some_iff.mp hmap
  exact ⟨v, hv, es, hes, hfound⟩

/-- The fields of a variant do not have the tag's name. -/
theorem ser_ne_tag (t : Table α) {v : Variant α} (hv : v ∈ t.variants) {a : α}
    {es : List (String × Json)} (hes : v.ser a = some es) : ∀ e ∈ es, e.1 ≠ t.tag := by
  intro e he heq
  apply t.untagged v hv
  rw [← heq]
  exact v.ser_names a es hes e he

/-- A name leads back to its variant, because no other has it. -/
theorem find_name {variants : List (Variant α)} (hdistinct : (variants.map name).Nodup)
    {v : Variant α} (hv : v ∈ variants) :
    variants.find? (fun w => w.name = v.name) = some v := by
  induction variants with
  | nil => cases hv
  | cons w ws ih =>
      rw [List.map_cons, List.nodup_cons] at hdistinct
      rcases List.mem_cons.mp hv with rfl | hv
      · rw [List.find?_cons_of_pos (by simp)]
      · have hne : w.name ≠ v.name := fun heq => hdistinct.1 (heq ▸ List.mem_map_of_mem hv)
        rw [List.find?_cons_of_neg (by simpa using hne), ih hdistinct.2 hv]

end Variant

namespace Serde

variable {α β γ : Type}

open Variant

/-- The tag of an object, and the rest of it. -/
def untag (tag : String) : Json → Option (String × List (String × Json))
  | .obj es =>
    match es.filter (fun e => e.1 = tag) with
    | [(_, .str name)] => some (name, es.filter (fun e => e.1 ≠ tag))
    | _ => none
  | _ => none

/-- The tag comes off the object, wherever it stands and whatever the fields are, as
long as none of them has its name. -/
theorem untag_obj {tag name : String} {es : List (String × Json)} (hes : ∀ e ∈ es, e.1 ≠ tag) :
    untag tag (.obj ((tag, .str name) :: es)) = some (name, es) := by
  have htag : es.filter (fun e => e.1 = tag) = [] := by
    rw [List.filter_eq_nil_iff]
    exact fun e he heq => hes e he (of_decide_eq_true heq)
  have hrest : es.filter (fun e => e.1 ≠ tag) = es := by
    rw [List.filter_eq_self]
    exact fun e he => decide_eq_true (hes e he)
  unfold untag
  dsimp only
  rw [List.filter_cons_of_pos (by simp), List.filter_cons_of_neg (by simp), htag, hrest]

/-- **An internally tagged enum.** -/
def tagged (t : Table α) : Serde α where
  ser a :=
    match write_as t.variants a with
    | some (name, es) => .obj ((t.tag, .str name) :: es)
    | none => .null
  de j := (untag t.tag j).bind (fun r => read_as t.variants r.1 r.2)
  depth := t.depth + 1
  de_ser a := by
    obtain ⟨v, hv, es, hes, hwrite⟩ := write_as_spec t a
    rw [hwrite]
    dsimp only
    rw [untag_obj (ser_ne_tag t hv hes), Option.bind_some]
    dsimp only
    rw [read_as, find_name t.distinct hv, Option.bind_some, v.de_ser a es hes]
  fits a := by
    obtain ⟨v, hv, es, hes, hwrite⟩ := write_as_spec t a
    rw [hwrite]
    refine .obj _ _ ?_
    intro e he
    rcases List.mem_cons.mp he with rfl | he
    · exact .str _ v.name
    · exact (v.fits a es hes e he).mono (t.shallow _ (List.mem_map_of_mem hv))

/-- What a tagged enum writes. -/
theorem tagged_ser (t : Table α) (a : α) :
    ∃ v ∈ t.variants, ∃ es, v.ser a = some es ∧
      (tagged t).ser a = .obj ((t.tag, .str v.name) :: es) := by
  obtain ⟨v, hv, es, hes, hwrite⟩ := write_as_spec t a
  exact ⟨v, hv, es, hes, by simp only [tagged, hwrite]⟩

/-- A tagged enum takes nothing of another one with the same tag and none of its
variant names. -/
theorem tagged_refuses (t : Table α) (u : Table β) (htag : t.tag = u.tag)
    (hnames : ∀ v ∈ u.variants, v.name ∉ t.variants.map Variant.name) (b : β) :
    (tagged t).de ((tagged u).ser b) = none := by
  obtain ⟨v, hv, es, hes, hser⟩ := tagged_ser u b
  have hread : read_as t.variants v.name es = none := by
    have hfind : t.variants.find? (fun w => w.name = v.name) = none := by
      rw [List.find?_eq_none]
      intro w hw heq
      exact hnames v hv (of_decide_eq_true heq ▸ List.mem_map_of_mem hw)
    rw [read_as, hfind, Option.bind_none]
  have huntag : untag u.tag (.obj ((u.tag, .str v.name) :: es)) = some (v.name, es) :=
    untag_obj (ser_ne_tag u hv hes)
  rw [hser]
  simp only [tagged, htag]
  rw [huntag, Option.bind_some, hread]

/-- **An untagged enum** of two variants: the first that reads is taken. -/
def untagged (f : Serde β) (g : Serde γ) (hrefuses : ∀ c, f.de (g.ser c) = none)
    (enc : α → β ⊕ γ) (inl : β → α) (inr : γ → α)
    (dec_enc : ∀ a, (enc a).elim inl inr = a) : Serde α where
  ser a := (enc a).elim f.ser g.ser
  de j :=
    match f.de j with
    | some b => some (inl b)
    | none => (g.de j).map inr
  depth := max f.depth g.depth
  de_ser a := by
    have ha := dec_enc a
    cases henc : enc a with
    | inl b =>
        rw [henc] at ha
        simp only [Sum.elim_inl] at ha ⊢
        rw [f.de_ser, ← ha]
    | inr c =>
        rw [henc] at ha
        simp only [Sum.elim_inr] at ha ⊢
        rw [hrefuses, g.de_ser, Option.map_some, ← ha]
  fits a := by
    cases enc a with
    | inl b => exact (f.fits b).mono (Nat.le_max_left _ _)
    | inr c => exact (g.fits c).mono (Nat.le_max_right _ _)

end Serde

/-! ## Texts

The same over texts instead of values. -/

/-- `serde_json`: compact texts and what they are read as. The limit is its
recursion limit. -/
structure SerdeJson where
  to_string : Json → String
  from_str : String → Option Json
  from_str_to_string : ∀ j, j.Fits 127 → from_str (to_string j) = some j
  no_control : ∀ j, ∀ c ∈ (to_string j).toList, 0x20 ≤ c.toNat
  braces : ∀ es, ∃ body, (to_string (.obj es)).toList = '{' :: (body ++ ['}'])

/-- The printer and the parser of `Json` are such texts. -/
def SerdeJson.compact : SerdeJson where
  to_string j := .ofList (Json.print j)
  from_str s := Json.parse 127 s.toList
  from_str_to_string j h := by rw [String.toList_ofList, Json.parse_print h]
  no_control j := by
    rw [String.toList_ofList]
    exact Json.print_plain j
  braces es := by
    rw [String.toList_ofList]
    exact Json.print_obj es

end InputSync
