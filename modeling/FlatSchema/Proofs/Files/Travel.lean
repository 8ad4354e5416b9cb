import FlatSchema.Proofs.Files.Location

/-!
Ways through a file tree. A way is a walk from link to link, and then to a place. What it finds
stays found in every tree that keeps what there is, and a place where something was missing is found
as soon as something is put there. Where no component of a path is a link, the way leads where the
path alone says.

        in a tree       a/l, a link to ../b      b, a directory
        the path        a/l/x      walks to a/l, then from b to b/x
        missing at first, found once a file is put at b/x
-/

namespace FlatSchema

namespace Place

def location : Place → Location
  | found l _ => l
  | missing l => l

def entry? : Place → Option Entry
  | found _ e => some e
  | missing _ => none

end Place

namespace FileTree

variable {t t' : FileTree} {last : Bool}

/-- All that is in a tree is in another one, at the same locations. -/
structure Kept (t t' : FileTree) : Prop where
  current : t'.current = t.current
  at? : ∀ l e, t.at? l = some e → t'.at? l = some e

theorem Kept.refl (t : FileTree) : Kept t t := ⟨rfl, fun _ _ h => h⟩

theorem Kept.trans {t'' : FileTree} (h : Kept t t') (h' : Kept t' t'') : Kept t t'' :=
  ⟨h'.current.trans h.current, fun l e hl => h'.at? l e (h.at? l e hl)⟩

/-! ### Walks -/

/-- From where something is missing one cannot walk on. -/
theorem walk_missing {l : Location} {names rest : List Bytes} {place : Place}
    (h : t.walk (.missing l) names = .ok (place, rest)) :
    names = [] ∧ place = .missing l ∧ rest = [] := by
  cases names with
  | nil =>
    cases h
    exact ⟨rfl, rfl, rfl⟩
  | cons name names => cases h

/-- What a walk finds, it finds where everything is kept. -/
theorem walk_kept (hkept : Kept t t') {place : Place} {l : Location} {e : Entry}
    {names rest : List Bytes} (h : t.walk place names = .ok (.found l e, rest)) :
    t'.walk place names = .ok (.found l e, rest) := by
  fun_induction walk t place names with
  | case1 place => exact h
  | case2 location name names hname ih =>
    rw [walk, if_pos hname]
    exact ih h
  | case3 location names hname ih =>
    rw [walk, if_neg hname, if_pos rfl]
    exact ih h
  | case4 | case8 | case9 => cases h
  | case5 location name names hname hdots hlong entry hentry ih =>
    rw [walk, if_neg hname, if_neg hdots, if_neg hlong, hkept.at? _ _ hentry]
    exact ih h
  | case6 location name names hname hdots hlong hentry ih =>
    obtain ⟨-, hplace, -⟩ := walk_missing h
    cases hplace
  | case7 location target names hnames => rwa [walk.eq_3 _ _ _ _ hnames]

/-- A walk that came to where something is missing comes to what is put there. -/
theorem walk_made (hkept : Kept t t') {place : Place} {l : Location} {e : Entry}
    {names rest : List Bytes} (hplace : place ≠ .missing l)
    (h : t.walk place names = .ok (.missing l, rest)) (hmade : t'.at? l = some e) :
    t'.walk place names = .ok (.found l e, []) := by
  fun_induction walk t place names with
  | case1 place =>
    cases h
    exact absurd rfl hplace
  | case2 location name names hname ih =>
    rw [walk, if_pos hname]
    exact ih (by simp) h
  | case3 location names hname ih =>
    rw [walk, if_neg hname, if_pos rfl]
    exact ih (by simp) h
  | case4 | case7 | case8 | case9 => cases h
  | case5 location name names hname hdots hlong entry hentry ih =>
    rw [walk, if_neg hname, if_neg hdots, if_neg hlong, hkept.at? _ _ hentry]
    exact ih (by simp) h
  | case6 location name names hname hdots hlong hentry ih =>
    obtain ⟨rfl, hplace, -⟩ := walk_missing h
    cases hplace
    rw [walk, if_neg hname, if_neg hdots, if_neg hlong, hmade]
    rfl

/-- A walk from a directory that arrives at no directory has looked at what is there. -/
theorem walk_at? {place place' : Place} {names rest : List Bytes}
    (h : t.walk place names = .ok (place', rest))
    (hplace : place.entry? = some .directory ∨ t.at? place.location = place.entry?)
    (hend : place'.entry? ≠ some .directory) : t.at? place'.location = place'.entry? := by
  fun_induction walk t place names with
  | case1 place =>
    cases h
    exact hplace.resolve_left hend
  | case2 location name names hname ih => exact ih h (.inl rfl)
  | case3 location names hname ih => exact ih h (.inl rfl)
  | case4 | case8 | case9 => cases h
  | case5 location name names hname hdots hlong entry hentry ih => exact ih h (.inr hentry)
  | case6 location name names hname hdots hlong hentry ih => exact ih h (.inr hentry)
  | case7 location target names hnames =>
    cases h
    exact hplace.resolve_left hend

/-! ### Ways -/

/-- A way from a place, along names and through so many links at most: a walk that ends, or a walk
    to a link that is followed, and then the way from there. -/
inductive Travels (t : FileTree) (last : Bool) : Nat → Place → List Bytes → Place → Prop where
  | stop {links : Nat} {place place' : Place} {names rest : List Bytes} :
      t.walk place names = .ok (place', rest) →
      (∀ l target, place' = .found l (.link target) → rest = [] ∧ last = false) →
      Travels t last links place names place'
  | link {links : Nat} {place place' : Place} {l : Location} {target : Path}
      {names rest : List Bytes} : t.walk place names = .ok (.found l (.link target), rest) →
      ¬ (rest = [] ∧ last = false) →
      Travels t last links (.found (target.start l.dropLast) .directory)
        (cut target.bytes ++ rest) place' →
      Travels t last (links + 1) place names place'

theorem travel_of_travels {links : Nat} {place place' : Place} {names : List Bytes}
    (h : Travels t last links place names place') :
    t.travel last links place names = .ok place' := by
  induction h with
  | stop hwalk hstop =>
    unfold travel
    rw [hwalk]
    split
    · next herror => cases herror
    · next hlink =>
      cases hlink
      obtain ⟨rfl, rfl⟩ := hstop _ _ rfl
      rfl
    · next hother => cases hother; rfl
  | link hwalk hgo _ ih =>
    unfold travel
    rw [hwalk]
    dsimp only
    rw [if_neg (by simpa using hgo)]
    exact ih

theorem travels_of_travel {links : Nat} {place place' : Place} {names : List Bytes}
    (h : t.travel last links place names = .ok place') :
    Travels t last links place names place' := by
  fun_induction travel t last links place names with
  | case1 links place names e hwalk => cases h
  | case2 links place names l target rest hwalk hstop =>
    cases h
    exact .stop hwalk fun _ _ _ => by simpa using hstop
  | case3 place names l target rest hwalk hgo => cases h
  | case4 place names l target rest hwalk hgo links ih =>
    exact .link hwalk (by simpa using hgo) (ih h)
  | case5 links place names place' rest hlink hwalk =>
    cases h
    exact .stop hwalk fun l target hplace => (hlink l target hplace).elim

/-- What a way finds, it finds where everything is kept. -/
theorem Travels.kept (hkept : Kept t t') {links : Nat} {place : Place} {names : List Bytes}
    {l : Location} {e : Entry} (h : Travels t last links place names (.found l e)) :
    Travels t' last links place names (.found l e) := by
  generalize hplace : Place.found l e = place' at h
  induction h with
  | stop hwalk hstop =>
    subst hplace
    exact .stop (walk_kept hkept hwalk) hstop
  | link hwalk hgo _ ih => exact .link (walk_kept hkept hwalk) hgo (ih hplace)

/-- A way that came to where something is missing comes to what is put there. That is no link, so it
    does not matter whether a link at the end is followed. -/
theorem Travels.made (hkept : Kept t t') {links : Nat} {place : Place} {names : List Bytes}
    {l : Location} {e : Entry} (hplace : place ≠ .missing l)
    (h : Travels t last links place names (.missing l)) (hmade : t'.at? l = some e)
    (hlink : ∀ target, e ≠ .link target) : Travels t' true links place names (.found l e) := by
  generalize hend : Place.missing l = place' at h
  induction h with
  | stop hwalk hstop =>
    subst hend
    refine .stop (walk_made hkept hplace hwalk hmade) fun _ target hfound => ?_
    cases hfound
    exact absurd rfl (hlink target)
  | link hwalk hgo _ ih => exact .link (walk_kept hkept hwalk) (by simp) (ih (by simp) hend)

/-- A way from a directory that arrives at no directory has looked at what is there. -/
theorem Travels.at? {links : Nat} {place place' : Place} {names : List Bytes}
    (h : Travels t last links place names place') (hplace : place.entry? = some .directory)
    (hend : place'.entry? ≠ some .directory) : t.at? place'.location = place'.entry? := by
  induction h with
  | stop hwalk _ => exact walk_at? hwalk (.inl hplace) hend
  | link _ _ _ ih => exact ih rfl hend

/-! ### Paths in a tree -/

/-- A path leads where its way leads, unless nothing can be asked at it. -/
theorem resolve_eq_ok_iff {p : Path} {place : Place} : t.resolve last p = .ok place ↔
    (0 ∉ p.bytes ∧ p.isEmpty = false) ∧
      Travels t last linkLimit (.found (p.start t.current) .directory) (cut p.bytes) place := by
  rw [resolve]
  constructor
  · intro h
    split at h
    · cases h
    · next hclean =>
      split at h
      · cases h
      · next hempty => exact ⟨⟨by simpa using hclean, by simpa using hempty⟩, travels_of_travel h⟩
  · rintro ⟨⟨hclean, hempty⟩, h⟩
    rw [if_neg (by simpa using hclean), if_neg (by simp [hempty])]
    exact travel_of_travels h

/-- A path that is neither empty nor too long, and that file names can write. -/
structure Askable (p : Path) : Prop where
  short : p.bytes.length ≤ pathLimit
  clean : 0 ∉ p.bytes
  nonempty : p.isEmpty = false

/-- Whether a path can be asked for is up to the path alone; the rest is a way. -/
theorem locate_eq_ok_iff {p : Path} {place : Place} : t.locate last p = .ok place ↔ Askable p ∧
    Travels t last linkLimit (.found (p.start t.current) .directory) (cut p.bytes) place := by
  rw [locate]
  constructor
  · intro h
    split at h
    · cases h
    · next hshort =>
      obtain ⟨⟨hclean, hempty⟩, hway⟩ := resolve_eq_ok_iff.mp h
      refine ⟨⟨?_, hclean, hempty⟩, hway⟩
      exact Nat.le_of_not_lt fun hlong => hshort ⟨hlong, by simpa using hclean⟩
  · rintro ⟨⟨hshort, hclean, hempty⟩, h⟩
    rw [if_neg (by omega)]
    exact resolve_eq_ok_iff.mpr ⟨⟨hclean, hempty⟩, h⟩

theorem locate_kept (hkept : Kept t t') {p : Path} {l : Location} {e : Entry}
    (h : t.locate last p = .ok (.found l e)) : t'.locate last p = .ok (.found l e) := by
  rw [locate_eq_ok_iff] at h ⊢
  rw [hkept.current]
  exact ⟨h.1, h.2.kept hkept⟩

theorem locate_made (hkept : Kept t t') {p : Path} {l : Location} {e : Entry}
    (h : t.locate last p = .ok (.missing l)) (hmade : t'.at? l = some e)
    (hlink : ∀ target, e ≠ .link target) : t'.locate true p = .ok (.found l e) := by
  rw [locate_eq_ok_iff] at h ⊢
  rw [hkept.current]
  exact ⟨h.1, h.2.made hkept (by simp) hmade hlink⟩

theorem at?_of_locate {p : Path} {place : Place} (h : t.locate last p = .ok place)
    (hend : place.entry? ≠ some .directory) : t.at? place.location = place.entry? :=
  (locate_eq_ok_iff.mp h).2.at? rfl hend

/-- A path leads to a file if that is what it finds. -/
theorem fileOf_eq_ok_iff {p : Path} {n : Nat} :
    t.fileOf p = .ok n ↔ ∃ l, t.locate true p = .ok (.found l (.file n)) := by
  rw [fileOf]
  constructor
  · intro h
    split at h
    · cases h
    · next l m hlocate =>
      cases h
      exact ⟨l, hlocate⟩
    · cases h
    · cases h
  · rintro ⟨l, hlocate⟩
    rw [hlocate]

theorem fileOf_kept (hkept : Kept t t') {p : Path} {n : Nat} (h : t.fileOf p = .ok n) :
    t'.fileOf p = .ok n := by
  obtain ⟨l, hlocate⟩ := fileOf_eq_ok_iff.mp h
  exact fileOf_eq_ok_iff.mpr ⟨l, locate_kept hkept hlocate⟩

theorem readText_eq_ok_iff {p : Path} {text : String} :
    t.readText p = .ok text ↔ ∃ n, t.fileOf p = .ok n ∧ t.contents n = .text text := by
  rw [readText]
  cases hfile : t.fileOf p with
  | error e => simp
  | ok n => cases hcontent : t.contents n <;> simp [hcontent]

/-- What has a text is a file. -/
theorem isFile_of_readText {p : Path} {text : String} (h : t.readText p = .ok text) :
    t.isFile p = true := by
  obtain ⟨n, hfile, -⟩ := readText_eq_ok_iff.mp h
  rw [isFile, hfile]

/-! ### Names on the way -/

open Location (IsName)

theorem walk_names {place place' : Place} {names rest : List Bytes}
    (h : t.walk place names = .ok (place', rest)) (hnames : ∀ name ∈ names, Path.slash ∉ name)
    (hplace : ∀ name ∈ place.location, IsName name) :
    (∀ name ∈ place'.location, IsName name) ∧ ∀ name ∈ rest, Path.slash ∉ name := by
  have hnext {l : Location} {name : Bytes} (hl : ∀ n ∈ l, IsName n) (hslash : Path.slash ∉ name)
      (hname : ¬ (name = [] || name = [Path.point]) = true)
      (hdots : name ≠ [Path.point, Path.point]) : ∀ n ∈ l ++ [name], IsName n := by
    rw [List.forall_mem_append, List.forall_mem_singleton]
    exact ⟨hl, hslash, by simp_all⟩
  fun_induction walk t place names with
  | case1 place =>
    cases h
    exact ⟨hplace, hnames⟩
  | case2 location name names hname ih => exact ih h (List.forall_mem_cons.mp hnames).2 hplace
  | case3 location names hname ih =>
    exact ih h (List.forall_mem_cons.mp hnames).2 fun n hn => hplace n (List.dropLast_subset _ hn)
  | case4 | case8 | case9 => cases h
  | case5 location name names hname hdots hlong entry hentry ih =>
    obtain ⟨hslash, hmore⟩ := List.forall_mem_cons.mp hnames
    exact ih h hmore (hnext hplace hslash hname hdots)
  | case6 location name names hname hdots hlong hentry ih =>
    obtain ⟨hslash, hmore⟩ := List.forall_mem_cons.mp hnames
    exact ih h hmore (hnext hplace hslash hname hdots)
  | case7 location target names hlink =>
    cases h
    exact ⟨hplace, hnames⟩

theorem isName_of_mem_start {p : Path} {l : Location} (h : ∀ name ∈ l, IsName name) :
    ∀ name ∈ p.start l, IsName name := by
  rw [Path.start]
  split
  · simp
  · exact h

/-- A way from a location of names leads to one. -/
theorem Travels.names {links : Nat} {place place' : Place} {names : List Bytes}
    (h : Travels t last links place names place') (hnames : ∀ name ∈ names, Path.slash ∉ name)
    (hplace : ∀ name ∈ place.location, IsName name) : ∀ name ∈ place'.location, IsName name := by
  induction h with
  | stop hwalk _ => exact (walk_names hwalk hnames hplace).1
  | @link links place place' l target names rest hwalk _ _ ih =>
    obtain ⟨hl, hrest⟩ := walk_names hwalk hnames hplace
    refine ih ?_ ?_
    · rw [List.forall_mem_append]
      exact ⟨fun name => no_slash_of_mem_cut, hrest⟩
    · exact isName_of_mem_start fun name hname => hl name (List.dropLast_subset _ hname)

/-- In a directory of names a path leads to a location of names. -/
theorem isName_of_resolve {p : Path} {place : Place} (h : t.resolve last p = .ok place)
    (hcurrent : ∀ name ∈ t.current, IsName name) : ∀ name ∈ place.location, IsName name := by
  exact (resolve_eq_ok_iff.mp h).2.names (fun name => no_slash_of_mem_cut)
    (isName_of_mem_start hcurrent)

/-! ### Trees without links -/

/-- No location has a link, and no file is at two locations. -/
structure Unlinked (t : FileTree) : Prop where
  no_link : ∀ l target, t.at? l ≠ some (.link target)
  one_name : ∀ l m n, t.at? l = some (.file n) → t.at? m = some (.file n) → l = m

/-- A walk that comes past no link arrives where its names lead. -/
theorem walk_location (h : Unlinked t) {place place' : Place} {names rest : List Bytes}
    (hplace : ∀ target, place.entry? ≠ some (.link target))
    (hwalk : t.walk place names = .ok (place', rest)) :
    place'.location = names.foldl Location.follow place.location ∧
      ∀ target, place'.entry? ≠ some (.link target) := by
  fun_induction walk t place names with
  | case1 place =>
    cases hwalk
    exact ⟨rfl, hplace⟩
  | case2 location name names hname ih =>
    rw [List.foldl_cons, Location.follow, if_pos hname]
    exact ih (by simp [Place.entry?]) hwalk
  | case3 location names hname ih =>
    rw [List.foldl_cons, Location.follow, if_neg hname, if_pos rfl]
    exact ih (by simp [Place.entry?]) hwalk
  | case4 | case8 | case9 => cases hwalk
  | case5 location name names hname hdots hlong entry hentry ih =>
    rw [List.foldl_cons, Location.follow, if_neg hname, if_neg hdots]
    exact ih (fun target htarget => h.no_link _ target (hentry.trans htarget)) hwalk
  | case6 location name names hname hdots hlong hentry ih =>
    rw [List.foldl_cons, Location.follow, if_neg hname, if_neg hdots]
    exact ih (by simp [Place.entry?]) hwalk
  | case7 location target names => exact absurd rfl (hplace target)

theorem location_of_locate (h : Unlinked t) {p : Path} {place : Place}
    (hlocate : t.locate last p = .ok place) : place.location = p.target t.current := by
  have htravels := (locate_eq_ok_iff.mp hlocate).2
  cases htravels with
  | stop hwalk _ => exact (walk_location h (by simp [Place.entry?]) hwalk).1
  | link hwalk _ _ =>
    exact absurd rfl ((walk_location h (by simp [Place.entry?]) hwalk).2 _)

/-- Without links a path leads to the file at its target, and only the paths with that target do. -/
theorem at?_target (h : Unlinked t) {p : Path} {n : Nat} (hfile : t.fileOf p = .ok n) :
    t.at? (p.target t.current) = some (.file n) := by
  obtain ⟨l, hlocate⟩ := fileOf_eq_ok_iff.mp hfile
  rw [← location_of_locate h hlocate]
  exact at?_of_locate hlocate (by simp [Place.entry?])

end FileTree

end FlatSchema
