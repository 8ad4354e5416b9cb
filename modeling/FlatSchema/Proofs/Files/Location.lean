import FlatSchema.Files.Tree
import FlatSchema.Proofs.Files.Parts
import FlatSchema.Proofs.Text.Utf8

/-!
Where a path leads, as far as the path alone says it. Where no component of a path is a link, the
path names one location, whatever else there is in the tree; a walk along the path that arrives
anywhere arrives there. Only the parts of a path lead on. The file name of a path is the last name
of its location, and the rest of the location is that of the path's parent, however the path is
written. Above the absolute path of a location is the absolute path of the location above.

        from a/b        ./c//x.fbs, /a/b/c/x.fbs, d/../c/x.fbs/.        lead to a/b/c/x.fbs
                        ./c, /a/b/c, d/../c                             lead to a/b/c
-/

namespace FlatSchema

/-! ### Following components -/

namespace Location

open FileTree (cut)
open FlatSchema.Path (point slash)

/-- One component on. -/
def follow (l : Location) (name : Bytes) : Location :=
  if name = [] || name = [point] then l else if name = [point, point] then l.dropLast
  else l ++ [name]

/-- Along all components of a path. -/
def along (l : Location) (bytes : Bytes) : Location := (cut bytes).foldl follow l

theorem follow_of_not_isPart (l : Location) {name : Bytes} (h : Path.isPart name = false) :
    l.follow name = l := by
  have hname : name = [] ∨ name = [point] := by
    by_contra hne
    simp_all [Path.isPart]
  rw [follow, if_pos (by simpa using hname)]

/-- Only what counts among the components leads on. -/
theorem along_eq_parts (l : Location) (bytes : Bytes) :
    l.along bytes = (Path.partsOf bytes).foldl follow l := by
  rw [along, Path.partsOf]
  generalize cut bytes = names
  induction names generalizing l with
  | nil => rfl
  | cons name names ih =>
    rw [List.foldl_cons, ih]
    cases hname : Path.isPart name with
    | true => rw [List.filter_cons_of_pos hname, List.foldl_cons]
    | false => rw [List.filter_cons_of_neg (by simp [hname]), follow_of_not_isPart l hname]

/-- A component that names something. -/
structure IsName (name : Bytes) : Prop where
  no_slash : slash ∉ name
  names : name ∉ [[], [point], [point, point]]

theorem IsName.ne_nil {name : Bytes} (h : IsName name) : name ≠ [] := by
  rintro rfl
  exact h.names (by simp)

theorem IsName.ne_point {name : Bytes} (h : IsName name) : name ≠ [point] := by
  rintro rfl
  exact h.names (by simp)

theorem IsName.isPart {name : Bytes} (h : IsName name) : Path.isPart name = true := by
  have hnames := h.names
  simp_all [Path.isPart]

theorem follow_name (l : Location) {name : Bytes} (h : IsName name) :
    l.follow name = l ++ [name] := by
  have hnames := h.names
  simp_all [follow]

end Location

/-! ### Paths -/

namespace Path

open Location (follow along IsName)

/-- Where a path leads, if no component of it is a link. -/
def target (p : Path) (current : Location) : Location := (p.start current).along p.bytes

/-- The last part of a path leads on from where the parts before it lead. -/
theorem target_concat {p q : Path} {name : Bytes} (hparts : p.parts = q.parts ++ [name])
    (habsolute : q.isAbsolute = p.isAbsolute) (hname : IsName name) (current : Location) :
    p.target current = q.target current ++ [name] := by
  have hstart : p.start current = q.start current := by rw [start, start, habsolute]
  rw [target, target, Location.along_eq_parts, ← parts, hparts, List.foldl_append, hstart,
    Location.along_eq_parts, ← parts]
  exact Location.follow_name _ hname

theorem isName_of_fileName? {p : Path} {name : Bytes} (h : p.fileName? = some name) :
    IsName name := by
  obtain ⟨hlast, hup⟩ := fileName?_eq_some_iff.mp h
  obtain ⟨hslash, hpart⟩ := isPart_of_mem_parts (List.mem_of_getLast? hlast)
  refine ⟨hslash, ?_⟩
  simp_all [isPart]

/-- The file name of a path is the last name of where it leads, behind where its parent leads. -/
theorem exists_target_parent {p : Path} {name : Bytes} (h : p.fileName? = some name)
    (current : Location) :
    ∃ q, p.parent? = some q ∧ p.target current = q.target current ++ [name] := by
  obtain ⟨q, hparent, habsolute, hparts⟩ := exists_parent_of_fileName? h
  exact ⟨q, hparent, target_concat hparts habsolute (isName_of_fileName? h) current⟩

theorem isAbsolute_of_isName {name : String} (h : IsName (bytesOf name)) :
    (ofString name).isAbsolute = false :=
  isAbsolute_of_no_slash h.no_slash

/-- A name below a path is its last part. -/
theorem parts_child (p : Path) {name : String} (h : IsName (bytesOf name)) :
    (p.child name).parts = p.parts ++ [bytesOf name] := by
  have hname : (ofString name).parts = [bytesOf name] := partsOf_of_no_slash h.no_slash h.isPart
  rw [child, parts_join p (isAbsolute_of_isName h), hname]

theorem fileName?_child (p : Path) {name : String} (h : IsName (bytesOf name)) :
    (p.child name).fileName? = some (bytesOf name) := by
  rw [fileName?_eq_some_iff, p.parts_child h, List.getLast?_concat]
  have hnames := h.names
  exact ⟨rfl, by simp_all⟩

/-- A name below a path leads below where the path leads. -/
theorem target_child (p : Path) (current : Location) {name : String} (h : IsName (bytesOf name)) :
    (p.child name).target current = p.target current ++ [bytesOf name] := by
  have habsolute : p.isAbsolute = (p.child name).isAbsolute :=
    (isAbsolute_join p (isAbsolute_of_isName h)).symm
  rw [target_concat (p.parts_child h) habsolute h]

/-! ### Absolute paths -/

/-- A name at the end of a path, seen backwards, is no detour. -/
theorem trimmed_reverse_append {name : Bytes} (h : IsName name) (rest : Bytes) :
    trimmed (name.reverse ++ rest) = name.reverse ++ rest := by
  have hslash : slash ∉ name.reverse := by simpa using h.no_slash
  have hpart : name.reverse ≠ [] ∧ name.reverse ≠ [point] := by
    simpa using ⟨h.ne_nil, h.ne_point⟩
  generalize name.reverse = back at hslash hpart
  cases back with
  | nil => exact absurd rfl hpart.1
  | cons b back =>
    cases back with
    | nil =>
      have hb : b ≠ point := fun hb => hpart.2 (by rw [hb])
      have hs : b ≠ slash := fun hs => hslash (by simp [hs])
      unfold trimmed
      split <;> simp_all
    | cons c back =>
      have hs : b ≠ slash ∧ c ≠ slash := by
        simp only [List.mem_cons, not_or] at hslash
        exact ⟨Ne.symm hslash.1, Ne.symm hslash.2.1⟩
      unfold trimmed
      split <;> simp_all

theorem intercalate_concat {l : Location} (hl : l ≠ []) (name : Bytes) :
    List.intercalate [slash] (l ++ [name]) = List.intercalate [slash] l ++ slash :: name := by
  induction l with
  | nil => exact absurd rfl hl
  | cons first l ih =>
    by_cases hrest : l = []
    · subst hrest
      simp [List.intercalate_cons_cons]
    · rw [List.cons_append, List.intercalate_cons_of_ne_nil (by simp), ih hrest,
        List.intercalate_cons_of_ne_nil hrest, List.append_assoc _ _ (slash :: name)]

theorem trimmed_slash (s : Bytes) : trimmed (slash :: s) = trimmed s := rfl

/-- Names with slashes between them, seen backwards, begin with no detour. -/
theorem trimmed_reverse_intercalate {l : Location} (h : ∀ name ∈ l, IsName name) (hl : l ≠ []) :
    trimmed (List.intercalate [slash] l).reverse = (List.intercalate [slash] l).reverse := by
  obtain ⟨front, last, rfl⟩ := l.eq_nil_or_concat'.resolve_left hl
  have hlast := h last (by simp)
  by_cases hfront : front = []
  · subst hfront
    simpa using trimmed_reverse_append hlast []
  · rw [intercalate_concat hfront, List.reverse_append, List.reverse_cons, List.append_assoc]
    exact trimmed_reverse_append hlast _

theorem parent?_of_slash {s : Bytes} (h : trimmed s.reverse ≠ []) : parent? ⟨slash :: s⟩ =
    some ⟨slash :: (trimmed ((trimmed s.reverse).dropWhile (· != slash))).reverse⟩ := by
  have hback : backward ⟨slash :: s⟩ = trimmed s.reverse := rfl
  have hanchor : anchor (slash :: s) = [slash] := rfl
  rw [parent?, hback]
  dsimp only
  rw [hanchor]
  split
  · next hnil => exact absurd hnil h
  · rfl

/-- Above a location is the location without its last name. -/
theorem parent?_absolute {l : Location} (h : ∀ name ∈ l, IsName name) {name : Bytes}
    (hname : IsName name) :
    (FileTree.absolute (l ++ [name])).parent? = some (FileTree.absolute l) := by
  have hslash : ∀ b ∈ name.reverse, (b != slash) = true := by
    intro b hb
    rw [bne_iff_ne]
    rintro rfl
    exact hname.no_slash (List.mem_reverse.mp hb)
  have hne : name.reverse ≠ [] := by simpa using hname.ne_nil
  by_cases hl : l = []
  · subst hl
    have htrim : trimmed name.reverse = name.reverse := by
      simpa using trimmed_reverse_append hname []
    have hsingle : FileTree.absolute ([] ++ [name]) = ⟨slash :: name⟩ := by
      rw [FileTree.absolute, List.nil_append, List.intercalate_singleton]
    rw [hsingle, parent?_of_slash (by rwa [htrim]), htrim, List.dropWhile_eq_nil_iff.mpr hslash]
    rfl
  · have htrim := trimmed_reverse_append hname (slash :: (List.intercalate [slash] l).reverse)
    have hwhole : (List.intercalate [slash] l ++ slash :: name).reverse =
        name.reverse ++ slash :: (List.intercalate [slash] l).reverse := by simp
    rw [FileTree.absolute, intercalate_concat hl, parent?_of_slash, hwhole, htrim,
      List.dropWhile_append_of_pos hslash, List.dropWhile_cons_of_neg (by simp), trimmed_slash,
      trimmed_reverse_intercalate h hl, List.reverse_reverse]
    · rfl
    · rw [hwhole, htrim]
      simp [hne]

theorem parent?_absolute_nil : (FileTree.absolute []).parent? = none := by decide

end Path

end FlatSchema
