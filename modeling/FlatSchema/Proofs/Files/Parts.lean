import FlatSchema.Files.Tree
import Mathlib.Data.List.TakeWhile

/-!
Paths by their parts. The parts of a path are what stands between its slashes, without what is empty
or a single point. The last part is the file name, unless it leads up; joining puts the parts of one
path behind those of another one, so that the file name of a path is the same below any other path.

        ./a//b.fbs/.                parts       a, b.fbs
        /p                          parts    p
        /p/./a//b.fbs/.  (joined)   parts    p, a, b.fbs
-/

namespace FlatSchema

/-! ### Cutting at slashes -/

namespace FileTree

open FlatSchema.Path (slash)

theorem cut_ne_nil (text : Bytes) : cut text ≠ [] := by
  fun_cases cut text <;> simp_all

theorem cut_append_slash (text more : Bytes) :
    cut (text ++ slash :: more) = cut text ++ cut more := by
  induction text with
  | nil => simp [cut]
  | cons c text ih =>
    rw [List.cons_append, cut, cut, ih]
    split
    · rfl
    · obtain ⟨name, names, hcut⟩ := List.exists_cons_of_ne_nil (cut_ne_nil text)
      simp [hcut]

theorem cut_of_no_slash {text : Bytes} (h : slash ∉ text) : cut text = [text] := by
  induction text with
  | nil => rfl
  | cons c text ih =>
    simp only [List.mem_cons, not_or] at h
    rw [cut, if_neg (Ne.symm h.1), ih h.2]

theorem no_slash_of_mem_cut {text name : Bytes} (h : name ∈ cut text) : slash ∉ name := by
  induction text generalizing name with
  | nil =>
    obtain rfl := List.mem_singleton.mp h
    exact List.not_mem_nil
  | cons c text ih =>
    obtain ⟨first, more, hcut⟩ := List.exists_cons_of_ne_nil (cut_ne_nil text)
    rw [hcut] at ih
    rw [cut, hcut] at h
    split at h
    · rcases List.mem_cons.mp h with rfl | h
      · exact List.not_mem_nil
      · exact ih h
    · next hc =>
      rcases List.mem_cons.mp h with rfl | h
      · simp [Ne.symm hc, ih (List.mem_cons_self ..)]
      · exact ih (List.mem_cons_of_mem _ h)

end FileTree

namespace Path

open FileTree (cut)

/-! ### Parts of texts -/

/-- A component that counts. -/
def isPart (name : Bytes) : Bool := name != [] && name != [point]

/-- The components of a text that count. -/
def partsOf (text : Bytes) : List Bytes := (cut text).filter isPart

@[simp] theorem partsOf_nil : partsOf [] = [] := rfl

@[simp] theorem partsOf_point : partsOf [point] = [] := rfl

theorem partsOf_append_slash (text more : Bytes) :
    partsOf (text ++ slash :: more) = partsOf text ++ partsOf more := by
  rw [partsOf, FileTree.cut_append_slash, List.filter_append, partsOf, partsOf]

@[simp] theorem partsOf_slash (text : Bytes) : partsOf (slash :: text) = partsOf text :=
  partsOf_append_slash [] text

theorem partsOf_of_no_slash {name : Bytes} (hslash : slash ∉ name) (h : isPart name = true) :
    partsOf name = [name] := by
  rw [partsOf, FileTree.cut_of_no_slash hslash, List.filter_cons_of_pos h, List.filter_nil]

/-- What is trimmed off the end of a path does not count. -/
theorem partsOf_trimmed (s : Bytes) : partsOf (trimmed s).reverse = partsOf s.reverse := by
  fun_induction trimmed s with
  | case1 rest ih =>
    show _ = partsOf (slash :: rest).reverse
    rw [ih, List.reverse_cons, partsOf_append_slash, partsOf_nil, List.append_nil]
  | case2 => rfl
  | case3 rest ih =>
    show _ = partsOf (point :: slash :: rest).reverse
    rw [ih, List.reverse_cons, List.reverse_cons, List.append_assoc, List.singleton_append,
      partsOf_append_slash, partsOf_point, List.append_nil]
  | case4 => rfl

theorem anchor_append_drop (s : Bytes) : anchor s ++ s.drop (anchor s).length = s := by
  fun_cases anchor s <;> rfl

/-- The anchor of a path does not count, and with less behind it a path starts in the same way. -/
theorem partsOf_anchor_append {s rest : Bytes} (h : rest <+: s.drop (anchor s).length) :
    partsOf (anchor s ++ rest) = partsOf rest ∧ isAbsolute ⟨anchor s ++ rest⟩ = isAbsolute ⟨s⟩ := by
  fun_cases anchor s with
  | case1 tail => exact ⟨partsOf_slash rest, rfl⟩
  | case2 =>
    obtain rfl : rest = [] := List.prefix_nil.mp h
    exact ⟨rfl, rfl⟩
  | case3 tail =>
    rcases rest with _ | ⟨c, rest⟩
    · exact ⟨rfl, rfl⟩
    · obtain ⟨rfl, -⟩ := List.cons_prefix_cons.mp h
      exact ⟨(partsOf_append_slash [point] rest).trans (partsOf_slash rest).symm, rfl⟩
  | case4 _ hslash hpoint hboth =>
    refine ⟨rfl, ?_⟩
    rw [anchor.eq_4 s hslash hpoint hboth] at h
    obtain ⟨more, rfl⟩ := h
    rcases rest with _ | ⟨c, rest⟩
    · rcases more with _ | ⟨c, more⟩
      · rfl
      · have hc : c ≠ slash := fun hc => hslash more (by rw [hc]; rfl)
        simp [isAbsolute, hc]
    · rfl

theorem partsOf_drop_anchor (s : Bytes) : partsOf (s.drop (anchor s).length) = partsOf s := by
  have hwhole := (partsOf_anchor_append (List.prefix_refl (s.drop (anchor s).length))).1
  rw [← hwhole, anchor_append_drop]

/-! ### File names -/

/-- A text up to a mark ends there, or the mark follows. -/
theorem dropWhile_ne (mark : UInt8) (s : Bytes) :
    s.dropWhile (· != mark) = [] ∨ ∃ rest, s.dropWhile (· != mark) = mark :: rest := by
  have hnot := List.head?_dropWhile_not (· != mark) s
  cases h : s.dropWhile (· != mark) with
  | nil => exact .inl rfl
  | cons c rest =>
    rw [h] at hnot
    obtain rfl : c = mark := by simpa using hnot
    exact .inr ⟨rest, rfl⟩

/-- What comes first behind what is trimmed is no point. -/
theorem takeWhile_trimmed_ne (s : Bytes) : (trimmed s).takeWhile (· != slash) ≠ [point] := by
  fun_induction trimmed s with
  | case1 rest ih => exact ih
  | case2 => simp
  | case3 rest ih => exact ih
  | case4 s hslash hpoint hboth =>
    intro h
    have hs := List.takeWhile_append_dropWhile (p := (· != slash)) (l := s)
    rw [h] at hs
    rcases dropWhile_ne slash s with hrest | ⟨rest, hrest⟩
    · rw [hrest] at hs
      exact hpoint hs.symm
    · rw [hrest] at hs
      exact hboth rest hs.symm

/-- The parts of a path. -/
def parts (p : Path) : List Bytes := partsOf p.bytes

theorem parts_eq_backward (p : Path) : p.parts = partsOf p.backward.reverse := by
  rw [backward, partsOf_trimmed, List.reverse_reverse, partsOf_drop_anchor, parts]

theorem isPart_of_mem_parts {p : Path} {name : Bytes} (h : name ∈ p.parts) :
    slash ∉ name ∧ isPart name = true :=
  have hmem := List.mem_filter.mp h
  ⟨FileTree.no_slash_of_mem_cut hmem.1, hmem.2⟩

/-- The end of a path behind its last slash is its last part, if there is anything. -/
theorem parts_eq_concat (p : Path) (hne : p.backward.takeWhile (· != slash) ≠ []) :
    p.parts = partsOf (p.backward.dropWhile (· != slash)).reverse ++
      [(p.backward.takeWhile (· != slash)).reverse] := by
  have hback := List.takeWhile_append_dropWhile (p := (· != slash)) (l := p.backward)
  have hlast : partsOf (p.backward.takeWhile (· != slash)).reverse =
      [(p.backward.takeWhile (· != slash)).reverse] := by
    refine partsOf_of_no_slash ?_ ?_
    · intro hslash
      have hmem := List.mem_takeWhile_imp (List.mem_reverse.mp hslash)
      simp at hmem
    · have hpoint : p.backward.takeWhile (· != slash) ≠ [point] := takeWhile_trimmed_ne _
      simpa [isPart, hne] using hpoint
  rw [parts_eq_backward, ← hback, List.reverse_append, hback]
  rcases dropWhile_ne slash p.backward with hrest | ⟨rest, hrest⟩
  · rw [hrest, List.reverse_nil, List.nil_append, hlast]
    rfl
  · rw [hrest, List.reverse_cons, List.append_assoc, List.singleton_append, partsOf_append_slash,
      hlast, partsOf_append_slash, partsOf_nil, List.append_nil]

/-- A path without an end behind its last slash has no parts. -/
theorem parts_eq_nil {p : Path} (h : p.backward.takeWhile (· != slash) = []) : p.parts = [] := by
  have hhead : p.backward.head? ≠ some slash := head?_trimmed_ne _
  have hnil : p.backward = [] := by
    cases hback : p.backward with
    | nil => rfl
    | cons c rest =>
      have hc : c ≠ slash := by simpa [hback] using hhead
      rw [hback, List.takeWhile_cons_of_pos (by simpa using hc)] at h
      cases h
  rw [parts_eq_backward, hnil]
  rfl

/-- The file name of a path is its last part, unless that leads up. -/
theorem fileName?_eq (p : Path) :
    p.fileName? = p.parts.getLast?.filter (· != [point, point]) := by
  rw [fileName?]
  by_cases hend : p.backward.takeWhile (· != slash) = []
  · rw [parts_eq_nil hend, hend]
    rfl
  · rw [parts_eq_concat p hend, List.getLast?_concat]
    simp [Option.filter_some, hend]

theorem fileName?_eq_some_iff {p : Path} {name : Bytes} :
    p.fileName? = some name ↔ p.parts.getLast? = some name ∧ name ≠ [point, point] := by
  rw [fileName?_eq, Option.filter_eq_some_iff, bne_iff_ne]

theorem splitName_append {stem ext : Bytes} (hne : stem ≠ []) (hext : point ∉ ext) :
    splitName (stem ++ point :: ext) = (stem, some ext) := by
  have hall : ∀ c ∈ ext.reverse, (c != point) = true := by
    intro c hc
    rw [bne_iff_ne]
    rintro rfl
    exact hext (List.mem_reverse.mp hc)
  have htake : (stem ++ point :: ext).reverse.takeWhile (· != point) = ext.reverse := by
    rw [List.reverse_append, List.reverse_cons, List.append_assoc,
      List.takeWhile_append_of_pos hall]
    simp
  have hlength : (stem ++ point :: ext).length - ext.length - 1 = stem.length := by
    simp
    omega
  rw [splitName, htake, List.reverse_reverse, hlength, List.take_left]
  simp [hne]

/-- A file name has a stem and an extension if a point parts them that is not its first character;
    if there are more points, the last one does. -/
theorem splitName_eq_iff {name stem ext : Bytes} : splitName name = (stem, some ext) ↔
    stem ≠ [] ∧ point ∉ ext ∧ name = stem ++ point :: ext := by
  constructor
  · intro h
    have hback := List.takeWhile_append_dropWhile (p := (· != point)) (l := name.reverse)
    have hfront : ∀ c ∈ name.reverse.takeWhile (· != point), (c != point) = true :=
      fun c hc => List.mem_takeWhile_imp (p := (· != point)) hc
    rw [splitName] at h
    generalize name.reverse.takeWhile (· != point) = front at h hback hfront
    split at h
    · cases h
    · next hne =>
      cases h
      rcases dropWhile_ne point name.reverse with hrest | ⟨rest, hrest⟩
      · rw [hrest, List.append_nil] at hback
        simp [hback] at hne
      · rw [hrest] at hback
        obtain rfl : name = rest.reverse ++ point :: front.reverse := by
          rw [← List.reverse_reverse name, ← hback]
          simp
        have hlength : (rest.reverse ++ point :: front.reverse).length - front.reverse.length - 1 =
            rest.reverse.length := by
          simp
          omega
        refine ⟨by simpa using hne, ?_, by rw [hlength, List.take_left]⟩
        intro hpoint
        simpa using hfront _ (List.mem_reverse.mp hpoint)
  · rintro ⟨hne, hext, rfl⟩
    exact splitName_append hne hext

/-- The file name of a path is a stem, a point and an extension. The stem is not empty, and the
    extension has no more points. -/
structure Named (p : Path) (stem ext : Bytes) : Prop where
  stem_ne : stem ≠ []
  last_point : point ∉ ext
  fileName : p.fileName? = some (stem ++ point :: ext)

theorem extension?_eq_some_iff {p : Path} {ext : Bytes} :
    p.extension? = some ext ↔ ∃ stem, p.Named stem ext := by
  rw [extension?, Option.bind_eq_some_iff]
  constructor
  · rintro ⟨name, hname, hsplit⟩
    obtain ⟨hstem, hext, heq⟩ := splitName_eq_iff.mp (Prod.ext rfl hsplit)
    exact ⟨_, hstem, hext, heq ▸ hname⟩
  · rintro ⟨stem, hstem, hext, hname⟩
    exact ⟨_, hname, by rw [splitName_append hstem hext]⟩

theorem Named.stem?_eq {p : Path} {stem ext : Bytes} (h : p.Named stem ext) :
    p.stem? = some stem := by
  rw [stem?, h.fileName, Option.map_some, splitName_append h.stem_ne h.last_point]

theorem trimmed_suffix (s : Bytes) : trimmed s <:+ s := by
  fun_induction trimmed s with
  | case1 rest ih => exact ih.trans (List.suffix_cons _ _)
  | case2 => exact List.nil_suffix
  | case3 rest ih => exact (ih.trans (List.suffix_cons _ _)).trans (List.suffix_cons _ _)
  | case4 => exact List.suffix_refl _

/-- The parent of a path starts as the path does and has all its parts but the file name. -/
theorem exists_parent_of_fileName? {p : Path} {name : Bytes} (h : p.fileName? = some name) :
    ∃ q, p.parent? = some q ∧ q.isAbsolute = p.isAbsolute ∧ p.parts = q.parts ++ [name] := by
  have hne : p.backward.takeWhile (· != slash) ≠ [] := by
    intro hend
    rw [fileName?, hend] at h
    cases h
  have hback : p.backward ≠ [] := by
    intro hnil
    exact hne (by rw [hnil]; rfl)
  have hparent : p.parent? =
      some ⟨anchor p.bytes ++ (trimmed (p.backward.dropWhile (· != slash))).reverse⟩ := by
    rw [parent?]
    split
    · next hnil => exact absurd hnil hback
    · rfl
  have hprefix : (trimmed (p.backward.dropWhile (· != slash))).reverse <+:
      p.bytes.drop (anchor p.bytes).length := by
    rw [← List.reverse_reverse (List.drop _ _), List.reverse_prefix]
    exact ((trimmed_suffix _).trans (List.dropWhile_suffix _)).trans (trimmed_suffix _)
  obtain ⟨hparts, habsolute⟩ := partsOf_anchor_append hprefix
  have hconcat := parts_eq_concat p hne
  obtain ⟨hlast, -⟩ := fileName?_eq_some_iff.mp h
  rw [hconcat, List.getLast?_concat, Option.some.injEq] at hlast
  refine ⟨_, hparent, habsolute, ?_⟩
  rw [hconcat, hlast, parts, hparts, partsOf_trimmed]

/-! ### Joining -/

theorem isAbsolute_append {s : Bytes} (h : s ≠ []) (more : Bytes) :
    isAbsolute ⟨s ++ more⟩ = isAbsolute ⟨s⟩ := by
  cases s with
  | nil => exact absurd rfl h
  | cons c s => rfl

theorem isAbsolute_of_no_slash {s : Bytes} (h : slash ∉ s) : isAbsolute ⟨s⟩ = false := by
  cases s with
  | nil => rfl
  | cons c s =>
    rw [List.mem_cons, not_or] at h
    simp [isAbsolute, Ne.symm h.1]

theorem join_of_isAbsolute (p : Path) {q : Path} (h : q.isAbsolute = true) : p.join q = q := by
  rw [join, if_pos h]

/-- How a relative path is put below another one: behind it and, where one is missing, a slash. -/
theorem join_cases (p : Path) {q : Path} (h : q.isAbsolute = false) :
    (p = ⟨[]⟩ ∧ p.join q = q) ∨
      (∃ front, p = ⟨front ++ [slash]⟩ ∧ p.join q = ⟨front ++ slash :: q.bytes⟩) ∨
      (p.bytes ≠ [] ∧ p.join q = ⟨p.bytes ++ slash :: q.bytes⟩) := by
  obtain ⟨s⟩ := p
  rw [join, if_neg (by simp [h])]
  split
  · next hends =>
    rw [Bool.or_eq_true, List.isEmpty_iff, decide_eq_true_eq] at hends
    rcases hends with rfl | hends
    · exact .inl ⟨rfl, rfl⟩
    · obtain ⟨front, rfl⟩ := List.getLast?_eq_some_iff.mp hends
      exact .inr (.inl ⟨front, rfl, by simp⟩)
  · next hends =>
    refine .inr (.inr ⟨?_, rfl⟩)
    rintro rfl
    exact hends rfl

/-- A relative path below another one has the parts of both. -/
theorem parts_join (p : Path) {q : Path} (h : q.isAbsolute = false) :
    (p.join q).parts = p.parts ++ q.parts := by
  rcases p.join_cases h with ⟨rfl, hjoin⟩ | ⟨front, rfl, hjoin⟩ | ⟨-, hjoin⟩
  · rw [hjoin]
    rfl
  · have hfront : partsOf (front ++ [slash]) = partsOf front := by
      rw [partsOf_append_slash, partsOf_nil, List.append_nil]
    rw [hjoin, parts, partsOf_append_slash, parts, hfront, parts]
  · rw [hjoin, parts, partsOf_append_slash, parts, parts]

theorem isAbsolute_join (p : Path) {q : Path} (h : q.isAbsolute = false) :
    (p.join q).isAbsolute = p.isAbsolute := by
  rcases p.join_cases h with ⟨rfl, hjoin⟩ | ⟨front, rfl, hjoin⟩ | ⟨hne, hjoin⟩
  · rw [hjoin, h]
    rfl
  · have hslash : front ++ slash :: q.bytes = (front ++ [slash]) ++ q.bytes := by simp
    rw [hjoin, hslash, isAbsolute_append (by simp)]
  · rw [hjoin, isAbsolute_append hne]

/-- Below another path a path keeps its file name. -/
theorem fileName?_join (p : Path) {q : Path} {name : Bytes} (h : q.fileName? = some name) :
    (p.join q).fileName? = some name := by
  cases habsolute : q.isAbsolute with
  | true => rwa [p.join_of_isAbsolute habsolute]
  | false =>
    obtain ⟨hlast, hup⟩ := fileName?_eq_some_iff.mp h
    rw [fileName?_eq_some_iff, parts_join p habsolute, List.getLast?_append, hlast]
    exact ⟨rfl, hup⟩

end Path

end FlatSchema
