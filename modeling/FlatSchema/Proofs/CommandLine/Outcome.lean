import FlatSchema.Proofs.CommandLine.Search
import FlatSchema.Proofs.CommandLine.Verdict

/-!
How a run goes and how it ends. Inputs are taken in order, each from the tree that the ones before
it left. What is wrong with a schema is the matter of that schema alone; what is wrong with the
files stops the run where it stands.

        a.fbs     an error in it     rejected        nothing changes
        b.fbs                        written         b.fields.json
        c.fbs     is not there       unreadable      the run stops
        d.fbs                                        exit code 1
-/

namespace FlatSchema

/-- What becomes of an input. -/
inductive Fate where
  | unreadable
  | rejected
  | shown
  | written
  | unwritable
deriving DecidableEq, Inhabited

namespace Fate

/-- Nothing was wrong. -/
def isGood : Fate → Bool
  | shown | written => true
  | _ => false

/-- The run ends here. -/
def stops : Fate → Bool
  | unreadable | unwritable => true
  | _ => false

end Fate

namespace Run

open FileTree (Grown Grows Wrote files)

/-- A text cannot be written: the directory it is to be in cannot be made, or the file cannot. All
    that happens is that directories on the way to it are made. -/
structure Refused (p : Path) (text : String) (t t' : FileTree) : Prop where
  grown : Grown (·.Above p) t t'
  refused : (∃ e, (prepare files p).run t = (.error e, t')) ∨
    ((prepare files p).run t = (.ok (), t') ∧ ∃ e, t'.writeText p text = .error e)

/-- What becomes of an input, and what it does to the tree. -/
inductive Treated (o : Options) (s : Settings) (input : Path) (t : FileTree) :
    Fate → FileTree → Prop where
  | unreadable {e : FileError} : t.readText input = .error e → Treated o s input t .unreadable t
  | rejected {source : String} : t.readText input = .ok source → ¬ s.Clean input source →
      Treated o s input t .rejected t
  | shown {source : String} : t.readText input = .ok source → s.Clean input source →
      (o.has .check = true ∨ o.has .emitJson = true) → Treated o s input t .shown t
  | written {source : String} {t' : FileTree} : t.readText input = .ok source →
      s.Clean input source → o.has .check = false → o.has .emitJson = false →
      Wrote (outputPath input s.outputDirectory) (s.fields input source) t t' →
      Treated o s input t .written t'
  | unwritable {source : String} {t' : FileTree} : t.readText input = .ok source →
      s.Clean input source → o.has .check = false → o.has .emitJson = false →
      Refused (outputPath input s.outputDirectory) (s.fields input source) t t' →
      Treated o s input t .unwritable t'

/-- Inputs are treated in order, up to the first that stops the run. -/
inductive Course (o : Options) (s : Settings) :
    FileTree → List Path → List Fate → FileTree → Prop where
  | done {t : FileTree} : Course o s t [] [] t
  | next {t t₁ t' : FileTree} {input : Path} {rest : List Path} {fate : Fate} {fates : List Fate} :
      Treated o s input t fate t₁ → fate.stops = false → Course o s t₁ rest fates t' →
      Course o s t (input :: rest) (fate :: fates) t'
  | stop {t t' : FileTree} {input : Path} {rest : List Path} {fate : Fate} :
      Treated o s input t fate t' → fate.stops = true → Course o s t (input :: rest) [fate] t'

variable {o : Options} {s : Settings}

/-! ### One input -/

/-- Before a file is written, only directories on the way to it are made. -/
theorem grows_prepare (p : Path) : Grows (·.Above p) (prepare files p) := by
  rw [prepare]
  split
  · next directory hdirectory =>
    have hparent := (Option.filter_eq_some_iff.mp hdirectory).1
    refine ((Grows.createDirectories directory).mono fun d hd => ?_).bind fun made => .pure _
    rcases hd with rfl | hd
    · exact .parent hparent
    · exact .step hparent hd
  · exact .pure _

theorem write_cases {p : Path} {text : String} {t t' : FileTree} {result : Except RunError Unit}
    (h : (write files p text).run t = (result, t')) :
    (result = .ok () ∧ Wrote p text t t') ∨ (∃ e, result = .error e) ∧ Refused p text t t' := by
  obtain ⟨made, t₁, hmade, h⟩ := exists_of_run_bind h
  have hgrown := grows_prepare p t
  rw [hmade] at hgrown
  cases made with
  | error e =>
    cases h
    exact .inr ⟨⟨e, rfl⟩, hgrown, .inl ⟨e, hmade⟩⟩
  | ok _ =>
    obtain ⟨written, t₂, hwritten, h⟩ := exists_of_run_bind h
    rcases FileTree.run_change_cases (·.writeText p text) t₁ with
      ⟨new, hnew, hrun⟩ | ⟨e, he, hrun⟩
    · cases hrun.symm.trans hwritten
      cases h
      exact .inl ⟨rfl, hgrown.wrote hnew⟩
    · cases hrun.symm.trans hwritten
      cases h
      exact .inr ⟨⟨_, rfl⟩, hgrown, .inr ⟨hmade, e, he⟩⟩

/-- An input is treated in one of the ways there are, and what it answers is whether it was good,
    unless it stops the run. -/
theorem compile_treated (htokens : o.has .emitTokens = false) (hast : o.has .emitAst = false)
    {input : Path} {t t' : FileTree} {lines : List Line} {result : Except RunError Bool}
    (h : (compile files o s input).run t = ((lines, result), t')) :
    ∃ fate, Treated o s input t fate t' ∧
      ((fate.stops = true ∧ ∃ e, result = .error e) ∨
        (fate.stops = false ∧ result = .ok fate.isGood)) := by
  obtain ⟨read, t₁, hread, h⟩ := exists_of_run_bind h
  obtain ⟨rfl, rfl⟩ : t.readText input = read ∧ t = t₁ := Prod.mk.inj hread
  cases hsource : t.readText input with
  | error e =>
    rw [hsource] at h
    cases h
    exact ⟨.unreadable, .unreadable hsource, .inl ⟨rfl, _, rfl⟩⟩
  | ok source =>
    rw [hsource] at h
    have hverdict := Verdict.verdict_ofSource s input source htokens hast
    dsimp only at h
    generalize Verdict.ofSource o s source input.toString = answer at h hverdict
    obtain ⟨said, verdict⟩ := answer
    by_cases hclean : s.Clean input source
    · cases hmode : o.has .check || o.has .emitJson with
      | true =>
        rw [if_pos hclean, if_pos hmode] at hverdict
        subst hverdict
        cases h
        exact ⟨.shown, .shown hsource hclean (by simpa using hmode), .inr ⟨rfl, rfl⟩⟩
      | false =>
        rw [if_pos hclean, if_neg (by simp [hmode])] at hverdict
        subst hverdict
        obtain ⟨hcheck, hjson⟩ := Bool.or_eq_false_iff.mp hmode
        obtain ⟨result, t₂, hwrite, h⟩ := exists_of_run_bind h
        rcases write_cases hwrite with ⟨rfl, hwrote⟩ | ⟨⟨e, rfl⟩, hrefused⟩
        · cases h
          exact ⟨.written, .written hsource hclean hcheck hjson hwrote, .inr ⟨rfl, rfl⟩⟩
        · cases h
          exact ⟨.unwritable, .unwritable hsource hclean hcheck hjson hrefused,
            .inl ⟨rfl, e, rfl⟩⟩
    · rw [if_neg hclean] at hverdict
      subst hverdict
      cases h
      exact ⟨.rejected, .rejected hsource hclean, .inr ⟨rfl, rfl⟩⟩

/-! ### All inputs -/

/-- The induction is on the inputs; each is treated in the tree that the ones before it left. -/
theorem compileAll_course (htokens : o.has .emitTokens = false) (hast : o.has .emitAst = false)
    {inputs : List Path} {t t' : FileTree} {lines : List Line} {result : Except RunError Bool}
    (h : (compileAll files o s inputs).run t = ((lines, result), t')) :
    ∃ fates, Course o s t inputs fates t' ∧
      (result = .ok true ↔ ∀ fate ∈ fates, fate.isGood = true) := by
  induction inputs generalizing t lines result with
  | nil =>
    cases h
    exact ⟨[], .done, by simp⟩
  | cons input rest ih =>
    obtain ⟨⟨said, first⟩, t₁, hfirst, h⟩ := exists_of_run_bind h
    obtain ⟨fate, htreated, ⟨hstops, e, rfl⟩ | ⟨hstops, rfl⟩⟩ :=
      compile_treated htokens hast hfirst
    · cases h
      refine ⟨[fate], .stop htreated hstops, ?_⟩
      cases fate <;> simp_all [Fate.stops, Fate.isGood]
    · obtain ⟨⟨more, others⟩, t₂, hrest, h⟩ := exists_of_run_bind h
      have hresults : ((said ++ more, others.map (fate.isGood && ·)), t₂) =
        ((lines, result), t') := h
      simp only [Prod.mk.injEq] at hresults
      obtain ⟨⟨-, rfl⟩, rfl⟩ := hresults
      obtain ⟨fates, hcourse, hgood⟩ := ih hrest
      refine ⟨fate :: fates, .next htreated hstops hcourse, ?_⟩
      rw [List.forall_mem_cons, ← hgood]
      cases others <;> simp [Except.map]

/-! ### Whole runs -/

/-- Warnings are denied if the options or the manifest say so, and definitions are written in one
    line if the manifest says that they should not be pretty. -/
theorem settings_of_resolve {found : Option Manifest} (h : Settings.resolve o found = .ok s) :
    s.inputs ≠ [] ∧
      (s.denyWarnings = true ↔
        o.has .denyWarnings = true ∨ ∃ m ∈ found, m.denyWarnings = true) ∧
      (s.layout = .compact ↔ ∃ m ∈ found, m.pretty = false) := by
  rw [Settings.resolve] at h
  generalize (if o.inputs.isEmpty then (found.map Manifest.schemaPaths).getD [] else o.inputs) =
    inputs at h
  split at h
  · cases h
  · next hinputs =>
    cases h
    refine ⟨by simpa using hinputs, ?_, ?_⟩
    · cases found <;> simp
    · cases found with
      | none => simp
      | some m => cases hpretty : m.pretty <;> simp [hpretty]

theorem withOptions_course (htokens : o.has .emitTokens = false) (hast : o.has .emitAst = false)
    {found : Option Manifest} {t t' : FileTree} {lines : List Line}
    {result : Except RunError Bool} (hfound : ((manifest? files o).run t).1 = .ok found)
    (hs : Settings.resolve o found = .ok s)
    (h : (withOptions files o).run t = ((lines, result), t')) :
    ∃ fates, Course o s t s.inputs fates t' ∧
      (result = .ok true ↔ ∀ fate ∈ fates, fate.isGood = true) := by
  obtain ⟨manifest, t₁, hmanifest, h⟩ := exists_of_run_bind h
  have hsearch := asks_manifest? o t
  rw [hmanifest] at hsearch hfound
  obtain rfl : t₁ = t := hsearch
  obtain rfl : manifest = .ok found := hfound
  dsimp only at h
  rw [hs] at h
  obtain ⟨⟨said, answer⟩, t₂, hall, h⟩ := exists_of_run_bind h
  cases h
  exact compileAll_course htokens hast hall

/-- A run that goes well has settings. -/
theorem exists_settings {t t' : FileTree} {lines : List Line} {good : Bool}
    (h : (withOptions files o).run t = ((lines, .ok good), t')) :
    ∃ found s, ((manifest? files o).run t).1 = .ok found ∧ Settings.resolve o found = .ok s := by
  obtain ⟨manifest, t₁, hmanifest, h⟩ := exists_of_run_bind h
  rw [hmanifest]
  cases manifest with
  | error e => cases h
  | ok found =>
    dsimp only at h
    cases hs : Settings.resolve o found with
    | error e =>
      rw [hs] at h
      cases h
    | ok s => exact ⟨found, s, rfl, hs⟩

/-- The exit code says whether everything was good. -/
theorem report_cases {t t' : FileTree} {r : Report} (h : (report files o).run t = (r, t')) :
    ∃ lines result, (withOptions files o).run t = ((lines, result), t') ∧
      (result = .ok true ∧ r.exitCode = 0 ∨ result ≠ .ok true ∧ r.exitCode = 1) := by
  obtain ⟨⟨lines, result⟩, t₁, hrun, h⟩ := exists_of_run_bind h
  cases result with
  | error e =>
    cases h
    exact ⟨lines, _, hrun, .inr ⟨by simp, rfl⟩⟩
  | ok good =>
    cases h
    cases good with
    | true => exact ⟨lines, _, hrun, .inl ⟨rfl, rfl⟩⟩
    | false => exact ⟨lines, _, hrun, .inr ⟨by simp, rfl⟩⟩

/-- A run that asks for definitions takes its inputs in order. A schema on which something counts is
    rejected and changes nothing; another one has its definitions in its file, or changes nothing if
    it is only to be shown. The first input that cannot be read, or output that cannot be written,
    ends the run. The exit code says whether everything was good. -/
theorem course_of_withArguments (t t' : FileTree) (arguments : List Bytes) (o : Options)
    (found : Option Manifest) (s : Settings) (r : Report)
    (ho : Options.ofArguments arguments = .ok o) (htokens : o.has .emitTokens = false)
    (hast : o.has .emitAst = false) (hfound : ((manifest? files o).run t).1 = .ok found)
    (hs : Settings.resolve o found = .ok s)
    (hrun : (withArguments files arguments).run t = (r, t')) :
    s.inputs ≠ [] ∧
      (s.denyWarnings = true ↔
        o.has .denyWarnings = true ∨ ∃ m ∈ found, m.denyWarnings = true) ∧
      (s.layout = .compact ↔ ∃ m ∈ found, m.pretty = false) ∧
      ∃ fates, Course o s t s.inputs fates t' ∧
        r.exitCode = if ∀ fate ∈ fates, fate.isGood = true then 0 else 1 := by
  rw [withArguments, ho] at hrun
  obtain ⟨lines, result, hoptions, hcode⟩ := report_cases hrun
  obtain ⟨fates, hcourse, hgood⟩ := withOptions_course htokens hast hfound hs hoptions
  obtain ⟨hinputs, hdeny, hlayout⟩ := settings_of_resolve hs
  refine ⟨hinputs, hdeny, hlayout, fates, hcourse, ?_⟩
  simp only [← hgood]
  rcases hcode with ⟨hresult, hcode⟩ | ⟨hresult, hcode⟩
  · rw [hcode, if_pos hresult]
  · rw [hcode, if_neg hresult]

/-- A project that denies warnings: a schema that gives one, and two good schemas. -/
def batch : FileTree := .ofTexts [
  (["Fbsc.toml"], "[project]\nname = \"batch\"\n[diagnostics]\ndeny_warnings = true\n"),
  (["a.fbs"], "rpc_service A \x7b\x7d"), (["b.fbs"], "table B \x7b\x7d"),
  (["d.fbs"], "table D \x7b\x7d")]

def batchManifest : Manifest where
  name := "batch"
  schemas := []
  directory := none
  pretty := true
  denyWarnings := true
  root := .ofString "/"

/-- All three, and before the last one a schema that is not there. -/
def batchInputs : List String := ["a.fbs", "b.fbs", "c.fbs", "d.fbs"]

def batchOptions : Options where
  inputs := batchInputs.map .ofString

def batchSettings : Settings := ⟨batchOptions.inputs, none, .pretty, true⟩

/-- What comes of them. -/
def batchRun : Report × FileTree := (withArguments files (batchInputs.map bytesOf)).run batch

/-- The manifest has the first schema rejected. The second one is written all the same, and the last
    one is not taken up. -/
theorem course_of_withArguments_batch :
    Options.ofArguments (batchInputs.map bytesOf) = .ok batchOptions ∧
      ((manifest? files batchOptions).run batch).1 = .ok (some batchManifest) ∧
      Settings.resolve batchOptions (some batchManifest) = .ok batchSettings ∧
      (∃ fates, Course batchOptions batchSettings batch batchSettings.inputs fates batchRun.2 ∧
        batchRun.1.exitCode = if ∀ fate ∈ fates, fate.isGood = true then 0 else 1) ∧
      batchRun.2.entries.map Prod.fst =
        ["b.fields.json", "d.fbs", "b.fbs", "a.fbs", "Fbsc.toml"].map ([bytesOf ·]) := by
  have hoptions : Options.ofArguments (batchInputs.map bytesOf) = .ok batchOptions := by
    decide +kernel
  have hfound : ((manifest? files batchOptions).run batch).1 = .ok (some batchManifest) := by
    decide +kernel
  have hsettings : Settings.resolve batchOptions (some batchManifest) = .ok batchSettings := by
    decide +kernel
  obtain ⟨-, -, -, hcourse⟩ := course_of_withArguments batch batchRun.2 (batchInputs.map bytesOf)
    batchOptions (some batchManifest) batchSettings batchRun.1 hoptions rfl rfl hfound hsettings rfl
  exact ⟨hoptions, hfound, hsettings, hcourse, by decide +kernel⟩

end Run

end FlatSchema
