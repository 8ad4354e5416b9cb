import FlatSchema.Proofs.CommandLine.Outputs
import FlatSchema.Proofs.Text.Blank

/-!
What a manifest promises of its schemas. A text that is a manifest is refused for its first fault
alone: a blank name, or else the first entry that is no schema. The schemas of a manifest that is
taken lie below its root, or where they say if they are absolute, and are schemas there too. What is
written for any of them, in whatever directory, is where none of them is.

        root /p     entries   a//x.fbs/.            /q/y.fbs
                    schemas   /p/a//x.fbs/.         /q/y.fbs
                    written   /p/a/x.fields.json    /q/y.fields.json
-/

namespace FlatSchema

open Utf8 (IsText)

namespace Manifest

/-- A text is a manifest for a directory, whatever its name and its schemas are. -/
def Says (text : String) (root : Path) (m : Manifest) : Prop :=
  (Toml.parse text).bind (ofMembers? root) = some m

/-- A name that consists of white space. -/
def HasBlankName (m : Manifest) : Prop := ∀ c ∈ m.name.toList, isBlank c = true

/-- The file name of a path has the extension of schemas. -/
def NamesSchema (p : Path) : Prop := ∃ stem, p.Named stem (bytesOf "fbs")

/-- The first fault of a manifest. -/
inductive Fault (m : Manifest) : ManifestError → Prop
  | emptyName (h : m.HasBlankName) : Fault m .emptyName
  | notASchema (hname : ¬ m.HasBlankName) {before behind : List Path} {p : Path}
      (hsplit : m.schemas = before ++ p :: behind) (hbefore : ∀ q ∈ before, NamesSchema q)
      (hp : ¬ NamesSchema p) : Fault m (.notASchema p)

/-- A path is where an entry leads from a root. -/
structure Resolves (root entry p : Path) : Prop where
  absolute : entry.isAbsolute = true → p = entry
  below : entry.isAbsolute = false →
    p.isAbsolute = root.isAbsolute ∧ p.parts = root.parts ++ entry.parts

/-- The schemas of a manifest are schemas where they lead, and nothing that is written for one of
    them is where one of them is. -/
structure Spares (m : Manifest) : Prop where
  resolved : List.Forall₂ (Resolves m.root) m.schemas m.schemaPaths
  schemas : ∀ p ∈ m.schemaPaths, NamesSchema p
  written : ∀ p ∈ m.schemaPaths, ∃ stem, p.stem? = some stem ∧ ∀ directory : Option Path,
    (outputPath p directory).fileName? = some (stem ++ bytesOf ".fields.json")
  apart : ∀ p ∈ m.schemaPaths, ∀ q ∈ m.schemaPaths, ∀ (directory : Option Path) current,
    (outputPath p directory).target current ≠ q.target current

/-! ### Faults -/

theorem isSchema_eq_false_iff {p : Path} : isSchema p = false ↔ ¬ NamesSchema p := by
  rw [NamesSchema, ← Path.isSchema_iff, Bool.not_eq_true]

theorem find?_isSchema_eq_some_iff {ps : List Path} {p : Path} :
    ps.find? (!isSchema ·) = some p ↔ ¬ NamesSchema p ∧
      ∃ before behind, ps = before ++ p :: behind ∧ ∀ q ∈ before, NamesSchema q := by
  simp only [List.find?_eq_some_iff_append, Bool.not_eq_true', isSchema_eq_false_iff, Bool.not_not,
    NamesSchema, Path.isSchema_iff]

theorem validate_of_blank {m : Manifest} (h : m.HasBlankName) : m.validate = .error .emptyName := by
  have htrim : trim m.name.toList = [] := trim_eq_nil_iff.mpr h
  rw [validate, htrim]
  rfl

theorem not_isEmpty_trim {m : Manifest} (h : ¬ m.HasBlankName) :
    ¬ (trim m.name.toList).isEmpty = true := by
  rwa [List.isEmpty_iff, trim_eq_nil_iff]

theorem validate_of_entry {m : Manifest} (hname : ¬ m.HasBlankName) {p : Path}
    (hfind : m.schemas.find? (!isSchema ·) = some p) : m.validate = .error (.notASchema p) := by
  rw [validate, if_neg (not_isEmpty_trim hname), hfind]

theorem validate_of_schemas {m : Manifest} (hname : ¬ m.HasBlankName)
    (hfind : m.schemas.find? (!isSchema ·) = none) : m.validate = .ok m := by
  rw [validate, if_neg (not_isEmpty_trim hname), hfind]

theorem find?_isSchema_eq_none_iff {ps : List Path} :
    ps.find? (!isSchema ·) = none ↔ ∀ p ∈ ps, NamesSchema p := by
  simp only [List.find?_eq_none, Bool.not_eq_true', Bool.not_eq_false, NamesSchema,
    Path.isSchema_iff]

/-- A manifest is taken or has a fault, which then is what is reported. -/
theorem validate_cases (m : Manifest) :
    (m.validate = .ok m ∧ ¬ m.HasBlankName ∧ ∀ p ∈ m.schemas, NamesSchema p) ∨
      ∃ e, m.validate = .error e ∧ m.Fault e := by
  by_cases hname : m.HasBlankName
  · exact .inr ⟨_, validate_of_blank hname, .emptyName hname⟩
  · cases hfind : m.schemas.find? (!isSchema ·) with
    | none =>
      exact .inl ⟨validate_of_schemas hname hfind, hname, find?_isSchema_eq_none_iff.mp hfind⟩
    | some p =>
      obtain ⟨hp, before, behind, hsplit, hbefore⟩ := find?_isSchema_eq_some_iff.mp hfind
      exact .inr ⟨_, validate_of_entry hname hfind, .notASchema hname hsplit hbefore hp⟩

theorem Fault.validate_eq {m : Manifest} {e : ManifestError} (h : m.Fault e) :
    m.validate = .error e := by
  rcases h with hname | ⟨hname, hsplit, hbefore, hp⟩
  · exact validate_of_blank hname
  · exact validate_of_entry hname (find?_isSchema_eq_some_iff.mpr ⟨hp, _, _, hsplit, hbefore⟩)

theorem validate_eq_error_iff {m : Manifest} {e : ManifestError} :
    m.validate = .error e ↔ m.Fault e := by
  refine ⟨fun h => ?_, Fault.validate_eq⟩
  rcases m.validate_cases with ⟨hok, -⟩ | ⟨e', herror, hfault⟩
  · cases h.symm.trans hok
  · obtain rfl : e = e' := Except.error.inj (h.symm.trans herror)
    exact hfault

theorem validate_eq_ok_iff {m m' : Manifest} : m.validate = .ok m' ↔
    m = m' ∧ ¬ m.HasBlankName ∧ ∀ p ∈ m.schemas, NamesSchema p := by
  constructor
  · intro h
    rcases m.validate_cases with ⟨hok, hsound⟩ | ⟨e, herror, -⟩
    · exact ⟨Except.ok.inj (hok.symm.trans h), hsound⟩
    · cases h.symm.trans herror
  · rintro ⟨rfl, hname, hall⟩
    exact validate_of_schemas hname (find?_isSchema_eq_none_iff.mpr hall)

/-! ### Schemas -/

theorem root_of_ofMembers? {root : Path} {members : Toml.Members} {m : Manifest}
    (h : ofMembers? root members = some m) : m.root = root := by
  simp only [ofMembers?, Option.bind_eq_bind, Option.bind_eq_some_iff, Option.pure_def,
    Option.some.injEq] at h
  obtain ⟨_, _, _, _, _, _, _, _, _, _, _, _, _, _, _, _, rfl⟩ := h
  rfl

theorem resolves_join (root entry : Path) : Resolves root entry (root.join entry) where
  absolute := root.join_of_isAbsolute
  below h := ⟨root.isAbsolute_join h, root.parts_join h⟩

/-- A schema entry names a schema below any root. -/
theorem named_join (root : Path) {entry : Path} {stem ext : Bytes} (h : entry.Named stem ext) :
    (root.join entry).Named stem ext :=
  ⟨h.stem_ne, h.last_point, root.fileName?_join h.fileName⟩

/-- The names in a text are texts. A text is cut at any slash; the parts are shorter. -/
theorem isText_of_mem_cut {bytes name : Bytes} (h : IsText bytes)
    (hname : name ∈ FileTree.cut bytes) : IsText name := by
  induction hlength : bytes.length using Nat.strongRecOn generalizing bytes with
  | _ length ih =>
  subst hlength
  by_cases hslash : Path.slash ∈ bytes
  · obtain ⟨front, back, rfl⟩ := List.append_of_mem hslash
    obtain ⟨hfront, hback⟩ := h.cut (by decide)
    rw [FileTree.cut_append_slash, List.mem_append] at hname
    rw [List.length_append, List.length_cons] at ih
    rcases hname with hname | hname
    · exact ih _ (by omega) hfront hname rfl
    · exact ih _ (by omega) hback hname rfl
  · rw [FileTree.cut_of_no_slash hslash, List.mem_singleton] at hname
    rwa [hname]

/-- A path that is written as a string has a stem that is a text. -/
theorem isText_stem {s : String} {stem ext : Bytes} (h : (Path.ofString s).Named stem ext) :
    IsText stem := by
  have hlast := (Path.fileName?_eq_some_iff.mp h.fileName).1
  have hcut := (List.mem_filter.mp (List.mem_of_getLast? hlast)).1
  exact ((isText_of_mem_cut (isText_bytesOf s) hcut).cut (by decide)).1

/-- The paths of a manifest are written as strings. -/
theorem exists_ofString_of_mem_pathsOf? {v : Toml.Value} {ps : List Path}
    (h : pathsOf? v = some ps) {p : Path} (hp : p ∈ ps) : ∃ s, p = .ofString s := by
  cases v with
  | array items =>
    rw [pathsOf?] at h
    induction items generalizing ps with
    | nil =>
      cases h
      cases hp
    | cons item items ih =>
      simp only [List.mapM_cons, Option.pure_def, Option.bind_eq_bind,
        Option.bind_eq_some_iff, Option.some.injEq] at h
      obtain ⟨first, hfirst, rest, hrest, rfl⟩ := h
      rcases List.mem_cons.mp hp with rfl | hp
      · obtain ⟨s, -, rfl⟩ := Option.map_eq_some_iff.mp hfirst
        exact ⟨s, rfl⟩
      · exact ih hp hrest
  | _ => cases h

theorem exists_ofString_of_mem_schemas {root : Path} {members : Toml.Members} {m : Manifest}
    (h : ofMembers? root members = some m) {p : Path} (hp : p ∈ m.schemas) :
    ∃ s, p = .ofString s := by
  simp only [ofMembers?, Option.bind_eq_bind, Option.bind_eq_some_iff, Option.pure_def,
    Option.some.injEq] at h
  obtain ⟨project, _, _, _, _, _, _, _, schemas, hschemas, _, _, _, _, _, _, rfl⟩ := h
  rw [Section.read] at hschemas
  cases hvalue : project.get? 1 "schemas" with
  | none =>
    rw [hvalue] at hschemas
    cases hschemas
    cases hp
  | some v =>
    rw [hvalue] at hschemas
    exact exists_ofString_of_mem_pathsOf? hschemas hp

theorem fileName?_outputPath {p : Path} {stem : Bytes} (h : p.stem? = some stem)
    (htext : IsText stem) (directory : Option Path) :
    (outputPath p directory).fileName? = some (stem ++ bytesOf ".fields.json") := by
  have hname := Path.fileName?_child (directory.getD (p.parent?.getD ⟨[]⟩)) p.isName_fieldsName
  rw [Path.fieldsName, Path.shownStem, h, Option.getD_some, bytesOf_append,
    bytesOf_shownOf htext] at hname
  rw [outputPath, h]
  exact hname

/-- No schema is where definitions are written. -/
theorem target_outputPath_ne {p : Path} (hp : NamesSchema p) (q : Path) (directory : Option Path)
    (current : Location) : (outputPath q directory).target current ≠ p.target current := by
  obtain ⟨stem, hname⟩ := hp
  obtain ⟨above, -, htarget⟩ := Path.exists_target_parent hname.fileName current
  intro h
  rw [Path.target_outputPath, htarget] at h
  have hnames : bytesOf q.fieldsName = stem ++ Path.point :: bytesOf "fbs" :=
    (List.cons.inj (List.append_inj' h rfl).2).1
  have hlast := congrArg List.getLast? hnames
  have hjson : (bytesOf ".fields.json").getLast? = some 0x6e := by decide +kernel
  have hfbs : (Path.point :: bytesOf "fbs").getLast? = some 0x73 := by decide +kernel
  rw [Path.fieldsName, bytesOf_append, List.getLast?_append, List.getLast?_append, hjson, hfbs]
    at hlast
  simp at hlast

theorem spares_of_schemas {m : Manifest} (h : ∀ p ∈ m.schemas, NamesSchema p)
    (hstrings : ∀ p ∈ m.schemas, ∃ s, p = .ofString s) : m.Spares := by
  have hnamed : ∀ p ∈ m.schemaPaths, ∃ stem, p.Named stem (bytesOf "fbs") ∧ IsText stem := by
    intro p hp
    obtain ⟨entry, hentry, rfl⟩ := List.mem_map.mp hp
    obtain ⟨stem, hstem⟩ := h entry hentry
    obtain ⟨s, rfl⟩ := hstrings entry hentry
    exact ⟨stem, named_join m.root hstem, isText_stem hstem⟩
  have hschemas : ∀ p ∈ m.schemaPaths, NamesSchema p := fun p hp =>
    let ⟨stem, hstem, _⟩ := hnamed p hp
    ⟨stem, hstem⟩
  refine ⟨?_, hschemas, ?_, ?_⟩
  · rw [schemaPaths, List.forall₂_map_right_iff, List.forall₂_same]
    exact fun entry _ => resolves_join m.root entry
  · intro p hp
    obtain ⟨stem, hstem, htext⟩ := hnamed p hp
    exact ⟨stem, hstem.stem?_eq, fileName?_outputPath hstem.stem?_eq htext⟩
  · intro p _ q hq directory current
    exact target_outputPath_ne (hschemas q hq) p directory current

/-- What is written for the schemas of a manifest is where none of them is, and a text that is a
    manifest is refused for its first fault and for nothing else. -/
theorem spares_schemas (text : String) (root : Path) :
    (∀ m, ofText text root = .ok m → Says text root m ∧ m.root = root ∧ m.Spares) ∧
      ∀ m, Says text root m →
        (ofText text root = .ok m ↔ ¬ m.HasBlankName ∧ ∀ p ∈ m.schemas, NamesSchema p) ∧
        ∀ e, ofText text root = .error e ↔ m.Fault e := by
  have hvalid {m : Manifest} (h : Says text root m) : ofText text root = m.validate := by
    rw [ofText, h]
  constructor
  · intro m h
    cases hread : (Toml.parse text).bind (ofMembers? root) with
    | none =>
      rw [ofText, hread] at h
      cases h
    | some read =>
      rw [hvalid hread, validate_eq_ok_iff] at h
      obtain ⟨rfl, -, hall⟩ := h
      obtain ⟨members, -, hmembers⟩ := Option.bind_eq_some_iff.mp hread
      exact ⟨hread, root_of_ofMembers? hmembers,
        spares_of_schemas hall fun p => exists_ofString_of_mem_schemas hmembers⟩
  · intro m h
    rw [hvalid h, validate_eq_ok_iff]
    exact ⟨and_iff_right rfl, fun e => validate_eq_error_iff⟩

/-- A manifest with entries that are written in an odd way. -/
def oddText : String :=
  "[project]\nname = \"m\"\nschemas = [\"./a//x.fbs/.\", \"/q/..fbs\", \"b/../y.z.fbs\"]\n"

def oddManifest : Manifest where
  name := "m"
  schemas := [.ofString "./a//x.fbs/.", .ofString "/q/..fbs", .ofString "b/../y.z.fbs"]
  directory := none
  pretty := true
  denyWarnings := false
  root := .ofString "p/"

/-- A manifest with two entries that are no schemas. -/
def faultyText : String :=
  "[project]\nname = \"m\"\nschemas = [\"a.fbs\", \"d/.fbs\", \"c.txt\"]\n"

def faultyManifest : Manifest :=
  { oddManifest with schemas := [.ofString "a.fbs", .ofString "d/.fbs", .ofString "c.txt"] }

theorem spares_schemas_odd :
    ofText oddText (.ofString "p/") = .ok oddManifest ∧ oddManifest.Spares ∧
      ofText faultyText (.ofString "p/") = .error (.notASchema (.ofString "d/.fbs")) := by
  have hodd : Says oddText (.ofString "p/") oddManifest := by
    rw [Says]
    decide +kernel
  have hfaulty : Says faultyText (.ofString "p/") faultyManifest := by
    rw [Says]
    decide +kernel
  have hname : ¬ oddManifest.HasBlankName := fun h => absurd (h 'm' (by decide)) (by decide)
  have hschemas : ∀ p ∈ oddManifest.schemas, NamesSchema p := by
    intro p hp
    have hall : ∀ p ∈ oddManifest.schemas, isSchema p = true := by decide
    exact Path.isSchema_iff.mp (hall p hp)
  have haccepted := ((spares_schemas oddText _).2 _ hodd).1.mpr ⟨hname, hschemas⟩
  have hfault : faultyManifest.Fault (.notASchema (.ofString "d/.fbs")) := by
    have hname' : ¬ faultyManifest.HasBlankName := hname
    have hsplit : faultyManifest.schemas =
        [.ofString "a.fbs"] ++ .ofString "d/.fbs" :: [.ofString "c.txt"] := rfl
    refine .notASchema hname' hsplit ?_ (isSchema_eq_false_iff.mp (by decide))
    rw [List.forall_mem_singleton]
    exact Path.isSchema_iff.mp (by decide)
  exact ⟨haccepted, ((spares_schemas oddText _).1 _ haccepted).2.2,
    (((spares_schemas faultyText _).2 _ hfaulty).2 _).mpr hfault⟩

end Manifest

end FlatSchema
