import FlatSchema.CommandLine.Run
import FlatSchema.Proofs.Files.Change
import Mathlib.Data.List.Induction
import Mathlib.Data.List.Infix

/-!
Which manifest a run has. The search starts in the directory of the first input, or in the current
directory if there is no input, and goes upwards. The first manifest that is there is the one; if it
cannot be read or is not right, that is an error, and nothing further up is looked at.

        a/b/x.fbs       searched        a/b/Fbsc.toml, a/Fbsc.toml, Fbsc.toml
-/

namespace FlatSchema

open FileTree (Asks files)
open Location (IsName)

/-- A path, and what is above it. -/
def Path.upward (p : Path) : List Path :=
  match h : p.parent? with
  | none => [p]
  | some above =>
    have := Path.length_parent_lt h
    p :: above.upward
termination_by p.bytes.length

theorem Path.upward_eq (p : Path) : p.upward = p :: (p.parent?.map upward).getD [] := by
  rw [upward]
  split
  · next hnone =>
    rw [hnone]
    rfl
  · next above habove =>
    dsimp only
    rw [habove]
    rfl

/-- Upwards from a location are the locations around it. -/
theorem Path.upward_absolute {l : Location} (h : ∀ name ∈ l, IsName name) :
    (FileTree.absolute l).upward = l.inits.reverse.map FileTree.absolute := by
  induction l using List.reverseRecOn with
  | nil =>
    rw [upward_eq, parent?_absolute_nil]
    rfl
  | append_singleton l name ih =>
    obtain ⟨hl, hname⟩ := List.forall_mem_append.mp h
    rw [upward_eq, parent?_absolute hl (by simpa using hname), Option.map_some, Option.getD_some,
      ih hl]
    simp [List.inits_append]

namespace Run

/-- A run of two actions is a run of the first one and then a run of the second one. -/
theorem exists_of_run_bind {α β : Type} {x : StateM FileTree α} {f : α → StateM FileTree β}
    {t : FileTree} {r : β × FileTree} (h : (x >>= f).run t = r) :
    ∃ a t₁, x.run t = (a, t₁) ∧ (f a).run t₁ = r :=
  ⟨(x.run t).1, (x.run t).2, rfl, h⟩

/-- Where the search of a run on a file tree starts. -/
def searchedFrom (o : Options) (t : FileTree) : Path :=
  match o.inputs.head? with
  | some input => (((t.canonical? input).getD input).parent?).getD ⟨[]⟩
  | none => FileTree.absolute t.current

/-- If the first input is there, its directory and all those around it are searched. Without inputs
    these are the current directory and those around it. -/
theorem upward_searchedFrom {o : Options} {t : FileTree}
    (hcurrent : ∀ name ∈ t.current, IsName name) :
    (o.inputs = [] →
      (searchedFrom o t).upward = t.current.inits.reverse.map FileTree.absolute) ∧
    ∀ input rest l name e, o.inputs = input :: rest →
      t.resolve true input = .ok (.found (l ++ [name]) e) →
      (searchedFrom o t).upward = l.inits.reverse.map FileTree.absolute := by
  constructor
  · intro hinputs
    rw [searchedFrom, hinputs]
    exact Path.upward_absolute hcurrent
  · intro input rest l name e hinputs hresolve
    have hnames := FileTree.isName_of_resolve hresolve hcurrent
    obtain ⟨hl, hname⟩ := List.forall_mem_append.mp hnames
    have hcanonical : t.canonical? input = some (FileTree.absolute (l ++ [name])) := by
      rw [FileTree.canonical?, hresolve]
    rw [searchedFrom, hinputs]
    dsimp only [List.head?_cons]
    rw [hcanonical, Option.getD_some, Path.parent?_absolute hl (hname name (by simp)),
      Option.getD_some]
    exact Path.upward_absolute hl

theorem run_searchStart (o : Options) (t : FileTree) :
    (searchStart files o).run t = (searchedFrom o t, t) := by
  rw [searchStart, searchedFrom]
  cases o.inputs.head? <;> rfl

end Run

namespace Manifest

theorem run_isFile {α : Type} (p : Path) (f : Bool → StateM FileTree α) (t : FileTree) :
    (files.isFile p >>= f).run t = (f (t.isFile p)).run t := by
  have hasked : (files.isFile p).run t = pure (t.isFile p, t) := rfl
  rw [StateT.run_bind, hasked, pure_bind]

/-- The search upwards finds the first file that has the name of a manifest. -/
theorem run_find? (start : Path) (t : FileTree) :
    (find? files start).run t = ((start.upward.map (·.child fileName)).find? t.isFile, t) := by
  rw [find?, Path.upward_eq, List.map_cons, run_isFile]
  split
  · next hfile =>
    rw [List.find?_cons_of_pos hfile]
    rfl
  · next hfile =>
    rw [List.find?_cons_of_neg hfile]
    split
    · next hnone =>
      rw [hnone]
      rfl
    · next above habove =>
      dsimp only
      rw [habove]
      exact run_find? above t
termination_by start.bytes.length
decreasing_by exact Path.length_parent_lt ‹_›

/-- What a text says, or what is wrong with it; that there is none is not among it. -/
theorem ofText_ne_notFound (text : String) (root start : Path) :
    ofText text root ≠ .error (.notFound start) := by
  rw [ofText]
  split
  · rw [validate]
    split
    · simp
    · split <;> simp
  · simp

/-- What there is to read at a path, as a manifest. -/
def loaded (t : FileTree) (p : Path) : Except ManifestError Manifest :=
  match t.readText p with
  | .error e => .error (.unreadable e)
  | .ok text => ofText text (p.parent?.getD (.ofString "."))

theorem run_load (p : Path) (t : FileTree) : (load files p).run t = (loaded t p, t) := by
  have hread : (files.readText p).run t = pure (t.readText p, t) := rfl
  rw [load, StateT.run_bind, hread, pure_bind, loaded]
  cases t.readText p <;> rfl

theorem run_findAndLoad (start : Path) (t : FileTree) : (findAndLoad files start).run t =
    (match (start.upward.map (·.child fileName)).find? t.isFile with
      | none => .error (.notFound start)
      | some p => loaded t p, t) := by
  have hfind : (find? files start).run t = pure (_, t) := run_find? start t
  rw [findAndLoad, StateT.run_bind, hfind, pure_bind]
  dsimp only
  cases (start.upward.map (·.child fileName)).find? t.isFile with
  | none => rfl
  | some p => exact run_load p t

theorem loaded_eq_ok_iff {t : FileTree} {p : Path} {m : Manifest} : loaded t p = .ok m ↔
    ∃ text, t.readText p = .ok text ∧ ofText text (p.parent?.getD (.ofString ".")) = .ok m := by
  rw [loaded]
  cases t.readText p <;> simp

theorem loaded_ne_notFound (t : FileTree) (p start : Path) :
    loaded t p ≠ .error (.notFound start) := by
  rw [loaded]
  split
  · simp
  · exact ofText_ne_notFound _ _ _

end Manifest

namespace Run

/-- The manifest of a run is what there is to read at the first path with the right name, from where
    the search starts upwards. -/
theorem run_manifest? (o : Options) (t : FileTree) :
    (manifest? files o).run t =
      (match ((searchedFrom o t).upward.map (·.child Manifest.fileName)).find? t.isFile with
        | none => .ok none
        | some p => ((Manifest.loaded t p).map some).mapError .manifest, t) := by
  have hstart : (searchStart files o).run t = pure (searchedFrom o t, t) := run_searchStart o t
  have hload : (Manifest.findAndLoad files (searchedFrom o t)).run t = pure (_, t) :=
    Manifest.run_findAndLoad _ t
  rw [manifest?, StateT.run_bind, hstart, pure_bind, StateT.run_bind, hload, pure_bind]
  dsimp only
  cases ((searchedFrom o t).upward.map (·.child Manifest.fileName)).find? t.isFile with
  | none => rfl
  | some p =>
    have hload := Manifest.loaded_ne_notFound t p
    dsimp only
    generalize Manifest.loaded t p = answer at hload
    cases answer with
    | ok m => rfl
    | error e =>
      cases e with
      | notFound start => exact absurd rfl (hload start)
      | _ => rfl

/-- Looking for a manifest changes nothing. -/
theorem asks_manifest? (o : Options) : Asks (manifest? files o) := fun t => by
  rw [run_manifest?]

/-- The settings of a run on a file tree. -/
def settings? (o : Options) (t : FileTree) : Except RunError Settings := do
  Settings.resolve o (← ((manifest? files o).run t).1)

/-- A run has no manifest if none of the directories searched has the file, and one if the nearest
    file is right: that of the first directory upwards that has one. -/
theorem manifest?_eq_ok_iff {o : Options} {t : FileTree} {found : Option Manifest} :
    ((manifest? files o).run t).1 = .ok found ↔
      (found = none ∧
        ∀ d ∈ (searchedFrom o t).upward, t.isFile (d.child Manifest.fileName) = false) ∨
      ∃ below d above text m, (searchedFrom o t).upward = below ++ d :: above ∧
        (∀ b ∈ below, t.isFile (b.child Manifest.fileName) = false) ∧
        t.readText (d.child Manifest.fileName) = .ok text ∧
        Manifest.ofText text ((d.child Manifest.fileName).parent?.getD (.ofString ".")) = .ok m ∧
        found = some m := by
  rw [run_manifest?, List.find?_map]
  dsimp only
  generalize (searchedFrom o t).upward = searched
  cases hfind : searched.find? (t.isFile ∘ (·.child Manifest.fileName)) with
  | none =>
    have hnone := List.find?_eq_none.mp hfind
    constructor
    · intro h
      cases h
      exact .inl ⟨rfl, by simpa using hnone⟩
    · rintro (⟨rfl, -⟩ | ⟨below, d, above, text, m, rfl, -, hread, -⟩)
      · rfl
      · refine absurd (FileTree.isFile_of_readText hread) (hnone d ?_)
        simp
  | some d =>
    obtain ⟨hd, below, above, hsearched, hbelow⟩ := List.find?_eq_some_iff_append.mp hfind
    rw [Option.map_some]
    dsimp only
    constructor
    · intro h
      cases hm : Manifest.loaded t (d.child Manifest.fileName) with
      | error e =>
        rw [hm] at h
        cases h
      | ok m =>
        rw [hm] at h
        cases h
        obtain ⟨text, hread, htext⟩ := Manifest.loaded_eq_ok_iff.mp hm
        exact .inr ⟨below, d, above, text, m, hsearched, by simpa using hbelow, hread, htext, rfl⟩
    · rintro (⟨-, hnone⟩ | ⟨below', d', above', text, m, hsearched', hbelow', hread, htext, rfl⟩)
      · have hnot := hnone d (by simp [hsearched])
        cases hnot.symm.trans hd
      · have hd' : (t.isFile ∘ (·.child Manifest.fileName)) d' = true :=
          FileTree.isFile_of_readText hread
        have hfind' := List.find?_eq_some_iff_append.mpr
          ⟨hd', below', above', hsearched', by simpa using hbelow'⟩
        obtain rfl : d = d' := Option.some.inj (hfind.symm.trans hfind')
        rw [Manifest.loaded_eq_ok_iff.mpr ⟨text, hread, htext⟩]
        rfl

end Run

end FlatSchema
