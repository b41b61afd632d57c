/-
Destination paths of a file transfer (`sanitize` in
`crates/filetransfer/src/lib.rs`), and the errors of the transfer code.

A path is its list of components, which is how `Path` is compared as well; that a
text ends in a separator, which the file system would notice, is not in it.
`components` follows `Path::components` on Unix: empty parts and inner dots
vanish, a leading dot and every double dot are kept, a leading slash makes the
path absolute. `sanitize_safe` is what the
check is there for: an accepted path has nothing in it that could leave the
directory it is joined to. `sanitize_contains` says which texts are accepted,
and where `join` and a lexical reading of the result lead.
-/
import Mathlib.Data.List.Basic
import Mathlib.Tactic.Common

set_option autoImplicit false

namespace InputSync

/-- A path that was accepted, by its names. -/
abbrev Path := List String

/-- The failures of the transfer code: `Error::Io`, and the texts of
`Error::Other`. -/
inductive TransferError
  | io
  | unknown_transfer
  | file_index_out_of_range
  | chunk_out_of_order (expected_offset offset : UInt64)
  | blake3_mismatch (relative_path : String)
  | absolute_path (rel : String)
  | suspicious_component (rel : String)
deriving DecidableEq

/-- The text of an `Error::Other`. -/
def TransferError.text : TransferError → Option String
  | .io => none
  | .unknown_transfer => some "unknown transfer"
  | .file_index_out_of_range => some "file index out of range"
  | .chunk_out_of_order expected_offset offset =>
    some ("chunk out of order: expected offset " ++ toString expected_offset ++ ", got "
      ++ toString offset)
  | .blake3_mismatch relative_path => some ("blake3 mismatch on '" ++ relative_path ++ "'")
  | .absolute_path rel => some ("absolute path rejected: " ++ rel)
  | .suspicious_component rel => some ("suspicious path component in: " ++ rel)

/-- `Component`, on Unix. -/
inductive Component
  | RootDir | CurDir | ParentDir
  | Normal (name : String)
deriving DecidableEq

/-- A part between two slashes. -/
def component (part : List Char) : Option Component :=
  if part = [] ∨ part = ['.'] then none
  else if part = ['.', '.'] then some .ParentDir
  else some (.Normal (String.ofList part))

/-- `Path::components`. -/
def components (path : List Char) : List Component :=
  let parts := path.splitOn '/'
  match parts with
  | [] :: _ :: _ => .RootDir :: parts.filterMap component
  | ['.'] :: _ => .CurDir :: parts.filterMap component
  | _ => parts.filterMap component

/-- The text begins with a slash. -/
def is_absolute (path : List Char) : Bool := path.head? == some '/'

/-- The name of a normal component. -/
def Component.name : Component → Option String
  | .Normal name => some name
  | _ => none

/-- Reject paths with anything but normal components. -/
def sanitize (rel : String) : Except TransferError Path :=
  let rel := rel.toList.map (fun c => if c = '\\' then '/' else c)
  if is_absolute rel then .error (.absolute_path (String.ofList rel))
  else
    match (components rel).mapM Component.name with
    | some path => .ok path
    | none => .error (.suspicious_component (String.ofList rel))

/-! ## What an accepted path is

The safety half: from acceptance to the absence of anything that could lead out. -/

/-- A proper name inside a directory. -/
def SafeName (name : String) : Prop :=
  name.toList ≠ [] ∧ name.toList ≠ ['.'] ∧ name.toList ≠ ['.', '.'] ∧ '/' ∉ name.toList

/-- A part that becomes a name is that name, and is none of the special parts. -/
theorem component_normal (part : List Char) (name : String)
    (h : component part = some (.Normal name)) :
    name.toList = part ∧ part ≠ [] ∧ part ≠ ['.'] ∧ part ≠ ['.', '.'] := by
  rw [component] at h
  by_cases hskip : part = [] ∨ part = ['.']
  · rw [if_pos hskip] at h
    cases h
  by_cases hparent : part = ['.', '.']
  · rw [if_neg hskip, if_pos hparent] at h
    cases h
  · rw [if_neg hskip, if_neg hparent] at h
    obtain rfl := Component.Normal.inj (Option.some.inj h)
    rw [not_or] at hskip
    exact ⟨String.toList_ofList, hskip.1, hskip.2, hparent⟩

/-- No part has a slash in it. -/
theorem not_mem_of_mem_splitOn (path part : List Char) (h : part ∈ path.splitOn '/') :
    '/' ∉ part := by
  -- character by character: a slash opens a new part, and any other belongs to the part
  -- at the front
  induction path generalizing part with
  | nil =>
      rw [List.splitOn_nil, List.mem_singleton] at h
      simp [h]
  | cons c path ih =>
      rw [List.splitOn_cons_eq_if_modifyHead] at h
      split at h
      · rcases List.mem_cons.mp h with rfl | h
        · simp
        · exact ih part h
      · rename_i hc
        have hne : '/' ≠ c := fun heq => hc (by rw [heq]; exact beq_self_eq_true c)
        cases hsplit : path.splitOn '/' with
        | nil => exact absurd hsplit (List.splitOn_ne_nil _ _)
        | cons head tail =>
            rw [hsplit, List.modifyHead_cons] at h
            rw [hsplit] at ih
            rcases List.mem_cons.mp h with rfl | h
            · simp [hne, ih head List.mem_cons_self]
            · exact ih part (List.mem_cons_of_mem _ h)

/-- Every component is a kept marker or comes from a part. -/
theorem mem_components_normal (path : List Char) (name : String)
    (h : .Normal name ∈ components path) : SafeName name := by
  have hpart : .Normal name ∈ (path.splitOn '/').filterMap component := by
    unfold components at h
    dsimp only at h
    split at h <;> simp_all
  obtain ⟨part, hmem, hpart⟩ := List.mem_filterMap.mp hpart
  obtain ⟨hname, hnil, hdot, hdots⟩ := component_normal part name hpart
  rw [SafeName, hname]
  exact ⟨hnil, hdot, hdots, not_mem_of_mem_splitOn path part hmem⟩

/-- Where every component has a name, all of them are normal. -/
theorem mapM_name (cs : List Component) (p : Path) (h : cs.mapM Component.name = some p) :
    cs = p.map .Normal := by
  induction cs generalizing p with
  | nil =>
      obtain rfl : [] = p := by simpa using h
      rfl
  | cons c cs ih =>
      rw [List.mapM_cons] at h
      obtain ⟨first, hfirst, hrest⟩ := Option.bind_eq_some_iff.mp h
      obtain ⟨rest, hmap, hpath⟩ := Option.bind_eq_some_iff.mp hrest
      obtain rfl := Option.some.inj hpath
      cases c with
      | Normal n =>
          rw [List.map_cons, ← ih rest hmap, Option.some.inj hfirst]
      | _ => cases hfirst

/-- **No way out.** An accepted path consists of proper names. -/
theorem sanitize_safe (rel : String) (path : Path) (h : sanitize rel = .ok path) :
    ∀ name ∈ path, SafeName name := by
  intro name hname
  unfold sanitize at h
  dsimp only at h
  split at h
  · cases h
  · split at h
    · rename_i hmap
      rw [← Except.ok.inj h] at hname
      exact mem_components_normal _ name (by rw [mapM_name _ _ hmap]; exact List.mem_map_of_mem hname)
    · cases h

/-! ## Which paths are accepted

The other half, on the text: cut it at both kinds of slash and look at the segments. -/

/-- The path with one kind of separator, as `sanitize` sees it. -/
def separators (rel : String) : List Char :=
  rel.toList.map (fun c => if c = '\\' then '/' else c)

/-- What stands between the separators. -/
def segments (path : List Char) : List (List Char) := path.splitOn '/'

/-- The marker `Path::components` puts first, for a leading slash or dot. -/
def leading : List (List Char) → List Component
  | [] :: _ :: _ => [.RootDir]
  | ['.'] :: _ => [.CurDir]
  | _ => []

/-- The components are the marker of the first segment, followed by those of all
segments. The source treats the leading marker in the iterator; here it is apart, so the
rest is a plain filter. -/
theorem components_eq (path : List Char) :
    components path = leading (segments path) ++ (segments path).filterMap component := by
  unfold components leading
  dsimp only [segments]
  split <;> rfl

/-- What is left of `sanitize` once the path is known to be relative. -/
theorem sanitize_eq (rel : String) (hrel : is_absolute (separators rel) = false) :
    (sanitize rel).toOption = (components (separators rel)).mapM Component.name := by
  unfold sanitize
  dsimp only
  rw [if_neg (by rw [← separators, hrel]; exact Bool.false_ne_true), ← separators]
  cases (components (separators rel)).mapM Component.name <;> rfl

/-- An absolute path is refused whatever follows. -/
theorem sanitize_absolute (rel : String) (hrel : is_absolute (separators rel) = true) (p : Path) :
    sanitize rel ≠ .ok p := by
  unfold sanitize
  dsimp only
  rw [if_pos (by rw [← separators, hrel])]
  exact nofun

/-- The marker depends on the first segment, and on whether there is another. -/
theorem leading_cons (seg : List Char) (segs : List (List Char)) :
    leading (seg :: segs)
      = if seg = [] ∧ segs ≠ [] then [.RootDir] else if seg = ['.'] then [.CurDir] else [] := by
  unfold leading
  split
  · rename_i heq
    obtain ⟨rfl, rfl⟩ := List.cons.inj heq
    rfl
  · rename_i heq
    obtain ⟨rfl, -⟩ := List.cons.inj heq
    rfl
  · rename_i hroot hdot
    rw [if_neg, if_neg (fun h => hdot segs (by rw [h]))]
    rintro ⟨rfl, hsegs⟩
    obtain ⟨m, more, rfl⟩ := List.exists_cons_of_ne_nil hsegs
    exact hroot m more rfl

/-- A path that is not absolute has a first segment that is not empty, or
nothing else. -/
theorem leading_relative (path : List Char) (hrel : is_absolute path = false) :
    leading (segments path) = if (segments path).head? = some ['.'] then [.CurDir] else [] := by
  cases path with
  | nil => rfl
  | cons c path =>
      have hc : ¬ c = '/' := by
        rintro rfl
        exact Bool.noConfusion hrel
      cases hsegs : segments path with
      | nil => exact absurd hsegs (List.splitOn_ne_nil _ _)
      | cons seg segs =>
          have hcons : segments (c :: path) = (c :: seg) :: segs := by
            rw [segments, List.splitOn_cons_eq_if_modifyHead, if_neg (by rwa [beq_iff_eq]),
              ← segments, hsegs, List.modifyHead_cons]
          rw [hcons, leading_cons, if_neg (fun h => List.cons_ne_nil c seg h.1)]
          simp only [List.head?_cons, Option.some_inj]

/-- Only names are left exactly when no segment leads up. -/
theorem mapM_name_segments (segs : List (List Char)) :
    (∃ p, (segs.filterMap component).mapM Component.name = some p) ↔ ['.', '.'] ∉ segs := by
  induction segs with
  | nil => exact iff_of_true ⟨[], rfl⟩ List.not_mem_nil
  | cons seg segs ih =>
      rw [List.mem_cons, not_or, ← ih]
      -- empty parts and single dots vanish; a parent fails; all others are names
      by_cases hskip : seg = [] ∨ seg = ['.']
      · have hne : ['.', '.'] ≠ seg := by rcases hskip with rfl | rfl <;> exact nofun
        rw [List.filterMap_cons_none (by rw [component, if_pos hskip])]
        exact ⟨fun h => ⟨hne, h⟩, fun h => h.2⟩
      by_cases hparent : seg = ['.', '.']
      · rw [List.filterMap_cons_some (by rw [component, if_neg hskip, if_pos hparent])]
        exact iff_of_false nofun (fun h => h.1 hparent.symm)
      · rw [List.filterMap_cons_some (by rw [component, if_neg hskip, if_neg hparent])]
        constructor
        · rintro ⟨p, hp⟩
          rw [List.mapM_cons] at hp
          obtain ⟨name, -, hrest⟩ := Option.bind_eq_some_iff.mp hp
          obtain ⟨rest, hmap, -⟩ := Option.bind_eq_some_iff.mp hrest
          exact ⟨fun h => hparent h.symm, rest, hmap⟩
        · rintro ⟨-, rest, hmap⟩
          exact ⟨String.ofList seg :: rest, by rw [List.mapM_cons, hmap]; rfl⟩

/-- **What `sanitize` accepts.** -/
theorem sanitize_ok_iff (rel : String) :
    (∃ p, sanitize rel = .ok p) ↔
      is_absolute (separators rel) = false ∧ (segments (separators rel)).head? ≠ some ['.'] ∧
        ['.', '.'] ∉ segments (separators rel) := by
  cases hrel : is_absolute (separators rel) with
  | true =>
      refine iff_of_false ?_ (fun h => Bool.noConfusion h.1)
      rintro ⟨p, hp⟩
      exact sanitize_absolute rel hrel p hp
  | false =>
      have hoption : (∃ p, sanitize rel = .ok p) ↔
          ∃ p, (components (separators rel)).mapM Component.name = some p := by
        rw [← sanitize_eq rel hrel]
        cases sanitize rel with
        | error e => exact iff_of_false nofun nofun
        | ok p => exact iff_of_true ⟨p, rfl⟩ ⟨p, rfl⟩
      rw [hoption, components_eq, leading_relative _ hrel, ← mapM_name_segments]
      -- a leading dot is kept as a component, and `sanitize` refuses it
      by_cases hdot : (segments (separators rel)).head? = some ['.']
      · rw [if_pos hdot]
        exact iff_of_false nofun (fun h => h.2.1 hdot)
      · rw [if_neg hdot, List.nil_append]
        exact ⟨fun h => ⟨rfl, hdot, h⟩, fun h => h.2.2⟩

/-! ## Where an accepted path leads

`join` puts two paths behind one another, and resolving the result goes down from the
directory, name by name. -/

/-- `Path::join`. -/
def join (base path : List Char) : List Char :=
  if is_absolute path then path
  else if base = [] ∨ base.getLast? = some '/' then base ++ path
  else base ++ '/' :: path

/-- One component followed, without looking at the file system. -/
def follow (place : List Component) : Component → List Component
  | .RootDir => [.RootDir]
  | .CurDir => place
  | .Normal name => place ++ [.Normal name]
  | .ParentDir =>
    match place.getLast? with
    | some (.Normal _) => place.dropLast
    | some .RootDir => place
    | _ => place ++ [.ParentDir]

/-- The place a path names, by its text alone. -/
def resolve (path : List Char) : List Component := (components path).foldl follow []

/-- An ordinary segment: neither empty nor a dot. -/
def ordinary (seg : List Char) : Bool := seg ≠ [] && seg ≠ ['.']

/-- What is accepted is relative, and all its components are names. -/
theorem components_of_sanitize (rel : String) (p : Path) (h : sanitize rel = .ok p) :
    is_absolute (separators rel) = false ∧ components (separators rel) = p.map .Normal := by
  have hrel := ((sanitize_ok_iff rel).mp ⟨p, h⟩).1
  have heq := sanitize_eq rel hrel
  rw [h] at heq
  exact ⟨hrel, mapM_name _ _ heq.symm⟩

/-- Without a segment that leads up, the components are the ordinary segments. -/
theorem filterMap_component (segs : List (List Char)) (h : ['.', '.'] ∉ segs) :
    segs.filterMap component = ((segs.filter ordinary).map String.ofList).map .Normal := by
  induction segs with
  | nil => rfl
  | cons seg segs ih =>
      rw [List.mem_cons, not_or] at h
      by_cases hskip : seg = [] ∨ seg = ['.']
      · have hord : ¬ ordinary seg = true := by simpa [ordinary, or_iff_not_imp_left] using hskip
        rw [List.filterMap_cons_none (by rw [component, if_pos hskip]),
          List.filter_cons_of_neg hord, ih h.2]
      · have hord : ordinary seg = true := by simpa [ordinary, not_or] using hskip
        rw [List.filterMap_cons_some (by rw [component, if_neg hskip, if_neg (Ne.symm h.1)]),
          List.filter_cons_of_pos hord, List.map_cons, List.map_cons, ih h.2]

/-- The names are the ordinary segments. -/
theorem names_of_sanitize (rel : String) (p : Path) (h : sanitize rel = .ok p) :
    p = ((segments (separators rel)).filter ordinary).map String.ofList := by
  obtain ⟨hrel, hdot, hparent⟩ := (sanitize_ok_iff rel).mp ⟨p, h⟩
  have hnames := (components_of_sanitize rel p h).2
  rw [components_eq, leading_relative _ hrel, if_neg hdot, List.nil_append,
    filterMap_component _ hparent] at hnames
  exact (List.map_injective_iff.mpr (fun _ _ => Component.Normal.inj) hnames).symm

/-- What comes behind a first segment and a slash decides nothing. -/
theorem leading_append (segs more : List (List Char)) (hsegs : segs ≠ []) (hmore : more ≠ []) :
    leading (segs ++ more) = leading (segs ++ [[]]) := by
  obtain ⟨seg, segs, rfl⟩ := List.exists_cons_of_ne_nil hsegs
  have hleft : segs ++ more ≠ [] := fun h => hmore (List.append_eq_nil_iff.mp h).2
  have hright : segs ++ [[]] ≠ [] := fun h => List.cons_ne_nil _ _ (List.append_eq_nil_iff.mp h).2
  simp only [List.cons_append, leading_cons, ne_eq, hleft, hright, not_false_eq_true, and_true]

/-- A relative path's components come behind those of the directory it is
joined to, but for a leading dot. -/
theorem components_join (base path : List Char) (hpath : is_absolute path = false)
    (hdot : (segments path).head? ≠ some ['.']) :
    components (join base path) = components base ++ components path := by
  have hnone : leading (segments path) = [] := by
    rw [leading_relative path hpath, if_neg hdot]
  have hne : segments path ≠ [] := List.splitOn_ne_nil _ _
  rw [join, hpath, if_neg Bool.false_ne_true]
  by_cases hbase : base = []
  · rw [if_pos (.inl hbase), hbase]
    rfl
  by_cases hslash : base.getLast? = some '/'
  · -- the base ends with the separator
    rw [if_pos (.inr hslash)]
    obtain ⟨front, rfl⟩ : ∃ front, base = front ++ ['/'] :=
      ⟨base.dropLast, (List.dropLast_append_getLast? '/' hslash).symm⟩
    have hsegs : segments (front ++ ['/'] ++ path) = segments front ++ segments path := by
      rw [List.append_assoc]
      exact List.splitOn_append_cons_self front path
    have hfront : segments (front ++ ['/']) = segments front ++ [[]] :=
      List.splitOn_append_cons_self front []
    have hempty : [[]].filterMap component = [] := rfl
    rw [components_eq, components_eq (front ++ ['/']), components_eq path, hsegs, hfront, hnone,
      leading_append (segments front) _ (List.splitOn_ne_nil _ _) hne, List.filterMap_append,
      List.filterMap_append, hempty, List.append_nil, List.nil_append, List.append_assoc]
  · rw [if_neg (by rw [not_or]; exact ⟨hbase, hslash⟩)]
    have hsegs : segments (base ++ '/' :: path) = segments base ++ segments path :=
      List.splitOn_append_cons_self base path
    -- a base of one segment is not empty, so the slash behind it makes no root
    have hlead : leading (segments base ++ segments path) = leading (segments base) := by
      cases hbsegs : segments base with
      | nil => exact absurd hbsegs (List.splitOn_ne_nil _ _)
      | cons seg segs =>
          have hseg : seg = [] → segs ≠ [] := by
            rintro rfl rfl
            have hjoin : ['/'].intercalate (base.splitOn '/') = base :=
              List.intercalate_splitOn '/'
            rw [← segments, hbsegs] at hjoin
            exact hbase hjoin.symm
          rw [List.cons_append, leading_cons, leading_cons]
          by_cases h : seg = []
          · rw [if_pos ⟨h, fun hnil => hne (List.append_eq_nil_iff.mp hnil).2⟩,
              if_pos ⟨h, hseg h⟩]
          · simp only [h, false_and, if_false]
    rw [components_eq, components_eq base, components_eq path, hsegs, hlead, hnone,
      List.filterMap_append, List.nil_append, List.append_assoc]

/-- Following names goes down. -/
theorem follow_names (place : List Component) (p : Path) :
    (p.map .Normal).foldl follow place = place ++ p.map .Normal := by
  induction p generalizing place with
  | nil => rw [List.map_nil, List.append_nil, List.foldl_nil]
  | cons name p ih =>
      rw [List.map_cons, List.foldl_cons, ih, follow, List.append_assoc]
      rfl

/-- **No write outside.** What `sanitize` accepts, and where it leads: into the
directory it is joined to, along its ordinary segments. -/
theorem sanitize_contains (rel : String) :
    ((∃ p, sanitize rel = .ok p) ↔
      (separators rel).head? ≠ some '/' ∧ (segments (separators rel)).head? ≠ some ['.'] ∧
        ['.', '.'] ∉ segments (separators rel)) ∧
    ∀ p, sanitize rel = .ok p → ∀ drop_dir : List Char,
      p = ((segments (separators rel)).filter ordinary).map String.ofList ∧
      (∀ name ∈ p, SafeName name) ∧
      resolve (join drop_dir (separators rel)) = resolve drop_dir ++ p.map .Normal := by
  refine ⟨?_, ?_⟩
  · rw [sanitize_ok_iff, is_absolute, beq_eq_false_iff_ne]
  · intro p h drop_dir
    refine ⟨names_of_sanitize rel p h, sanitize_safe rel p h, ?_⟩
    obtain ⟨hrel, hnames⟩ := components_of_sanitize rel p h
    have hdot := ((sanitize_ok_iff rel).mp ⟨p, h⟩).2.1
    rw [resolve, components_join drop_dir _ hrel hdot, hnames, List.foldl_append, follow_names]
    rfl

/-- Mixed separators, repeated and at the end, and a dot in the middle. -/
theorem sanitize_contains_mixed :
    sanitize "docs\\\\.//a.txt/" = .ok ["docs", "a.txt"] ∧
      resolve (join ['d', '/', '.', '.'] (separators "docs\\\\.//a.txt/"))
        = resolve ['d', '/', '.', '.'] ++ [.Normal "docs", .Normal "a.txt"] :=
  have hok : sanitize "docs\\\\.//a.txt/" = .ok ["docs", "a.txt"] := by decide
  ⟨hok, ((sanitize_contains "docs\\\\.//a.txt/").2 _ hok ['d', '/', '.', '.']).2.2⟩

end InputSync
