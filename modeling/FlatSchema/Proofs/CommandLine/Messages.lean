import FlatSchema.Proofs.CommandLine.Outcome
import FlatSchema.Proofs.Token.Concatenation

/-!
What a quiet run says about its schemas. Every error is said, whatever is asked for. A warning is
said only if it was found in reading a schema that has an error as well; where a schema could be
read, its warnings are left out.

        a.fbs    rpc_service S { }  table          Warning: …    Error: …
        b.fbs    rpc_service S { }  table T { }

Messages are told apart by their headers. All else that a run says, on the files and on the run as a
whole, has neither header.
-/

namespace FlatSchema

/-! ### Headers -/

/-- What a message on a diagnostic opens with. -/
def Severity.header : Severity → String
  | .error => "Error: "
  | .warning => "Warning: "

/-- A text opens with the header of diagnostics of this severity. -/
def Severity.Heads (v : Severity) (text : String) : Prop := v.header.toList <+: text.toList

instance (v : Severity) (text : String) : Decidable (v.Heads text) :=
  inferInstanceAs (Decidable (_ <+: _))

namespace Diagnostic

/-- The message on a diagnostic. -/
def text (d : Diagnostic) : String := d.severity.header ++ d.headline

theorem line_eq (d : Diagnostic) : d.line = .message d.text := by
  rw [line, text, isError]
  cases d.severity <;> rfl

/-- The message on a diagnostic has the header of its severity, and no other. -/
theorem heads_text (v : Severity) (d : Diagnostic) : v.Heads d.text ↔ d.severity = v := by
  rw [Severity.Heads, text, String.toList_append]
  cases v <;> cases d.severity <;> simp [Severity.header]

/-- Those of some diagnostics that have a severity. -/
def ofSeverity (v : Severity) (ds : List Diagnostic) : List Diagnostic :=
  ds.filter (·.severity = v)

theorem ofSeverity_error_eq_nil {ds : List Diagnostic} (h : ds.any isError = false) :
    ofSeverity .error ds = [] := by
  refine List.filter_eq_nil_iff.mpr fun d hd => ?_
  have herror := List.any_eq_false.mp h d hd
  simpa [isError] using herror

theorem ofSeverity_warning_eq_nil {ds : List Diagnostic} (h : ∀ d ∈ ds, d.isError = true) :
    ofSeverity .warning ds = [] := by
  refine List.filter_eq_nil_iff.mpr fun d hd => ?_
  have herror := isError_iff.mp (h d hd)
  simp [herror]

/-- Leaving out what is not an error leaves the errors. -/
theorem ofSeverity_error_filter (ds : List Diagnostic) (quiet : Bool) :
    ofSeverity .error (ds.filter fun d => d.isError || !quiet) = ofSeverity .error ds := by
  rw [ofSeverity, ofSeverity, List.filter_filter]
  refine List.filter_congr fun d _ => ?_
  cases h : d.severity <;> simp [isError, h]

end Diagnostic

/-- A message on a run has neither header. -/
theorem Severity.not_heads_run (v : Severity) (text : String) : ¬ v.Heads ("error: " ++ text) := by
  rw [Heads, String.toList_append]
  cases v <;> simp [header]

/-! ### Lines -/

/-- The messages among some lines that have the header of a severity. -/
def Line.headed (v : Severity) (lines : List Line) : List String :=
  (lines.filterMap message?).filter (v.Heads ·)

namespace Line

variable {v : Severity}

theorem headed_append (l m : List Line) : headed v (l ++ m) = headed v l ++ headed v m := by
  rw [headed, List.filterMap_append, List.filter_append]
  rfl

theorem headed_eq_nil {lines : List Line} (h : ∀ l ∈ lines, l.message? = none) :
    headed v lines = [] := by
  rw [headed, List.filterMap_eq_nil_iff.mpr h, List.filter_nil]

theorem headed_append_of_silent {l m : List Line} (h : ∀ x ∈ m, x.message? = none) :
    headed v (l ++ m) = headed v l := by
  rw [headed_append, headed_eq_nil h, List.append_nil]

theorem headed_map_line (ds : List Diagnostic) :
    headed v (ds.map Diagnostic.line) = (Diagnostic.ofSeverity v ds).map Diagnostic.text := by
  have hmessages : (ds.map Diagnostic.line).filterMap message? = ds.map Diagnostic.text := by
    rw [List.filterMap_map, ← List.filterMap_eq_map]
    refine List.filterMap_congr fun d _ => ?_
    rw [Function.comp_apply, d.line_eq]
    rfl
  have hheads : (fun text => decide (v.Heads text)) ∘ Diagnostic.text =
      fun d => decide (d.severity = v) :=
    funext fun d => decide_eq_decide.mpr (d.heads_text v)
  rw [headed, hmessages, List.filter_map, hheads, Diagnostic.ofSeverity]

theorem headed_run (text : String) : headed v [.message ("error: " ++ text)] = [] := by
  have hnot := v.not_heads_run text
  simp [headed, message?, hnot]

end Line

/-! ### One schema -/

/-- What is found in a source in the mode that the options ask for: in its tokens, in reading it, or
    in reading and resolving it. -/
def Options.found (o : Options) (source file : String) : List Diagnostic :=
  if o.has .emitTokens then (Lexed.ofSource source file).diagnostics
  else if o.has .emitAst then (Parsed.ofSource source file).diagnostics
  else (Compilation.ofSource source file).bag.diagnostics

/-- The warnings of a source that are said in any case: those that were found in reading it, if an
    error was found there as well. -/
def Options.unmuted (o : Options) (source file : String) : List Diagnostic :=
  if o.has .emitTokens then []
  else if (Parsed.ofSource source file).diagnostics.any Diagnostic.isError then
    Diagnostic.ofSeverity .warning (Parsed.ofSource source file).diagnostics
  else []

/-- Both errors and warnings were found in reading. -/
def Parsed.Mixed (parsed : Parsed) : Prop :=
  (∃ d ∈ parsed.diagnostics, d.severity = .error) ∧ ∃ d ∈ parsed.diagnostics, d.severity = .warning

instance (parsed : Parsed) : Decidable parsed.Mixed := inferInstanceAs (Decidable (_ ∧ _))

theorem Options.unmuted_eq_nil_iff {o : Options} {source file : String} :
    o.unmuted source file = [] ↔
      o.has .emitTokens = true ∨ ¬ (Parsed.ofSource source file).Mixed := by
  rw [unmuted, Parsed.Mixed]
  cases o.has .emitTokens with
  | true => simp
  | false =>
    cases herrors : (Parsed.ofSource source file).diagnostics.any Diagnostic.isError with
    | true =>
      obtain ⟨d, hd, herror⟩ := List.any_eq_true.mp herrors
      have hfound : ∃ d ∈ (Parsed.ofSource source file).diagnostics, d.severity = .error :=
        ⟨d, hd, Diagnostic.isError_iff.mp herror⟩
      simp [hfound, Diagnostic.ofSeverity]
    | false =>
      have hnone : ¬ ∃ d ∈ (Parsed.ofSource source file).diagnostics, d.severity = .error := by
        rintro ⟨d, hd, herror⟩
        exact List.any_eq_false.mp herrors d hd (Diagnostic.isError_iff.mpr herror)
      simp [hnone]

namespace Verdict

variable {o : Options} {s : Settings} {v : Severity} {source file : String}

theorem headed_listTokens :
    Line.headed v (listTokens source file).1 =
      (Diagnostic.ofSeverity v (Lexed.ofSource source file).diagnostics).map Diagnostic.text := by
  have hlisting : ∀ l ∈ (Lexed.ofSource source file).tokens.map (Line.output ·.listing),
      l.message? = none := by
    simp [Line.message?]
  rw [listTokens, Line.headed_append, Line.headed_eq_nil hlisting, List.nil_append,
    Line.headed_map_line]

/-- Behind the diagnostics of a schema, nothing has a header. -/
theorem headed_ofDefinition (bag : Bag) (definition : SchemaDefinition) :
    Line.headed v (ofDefinition o s file bag definition).1 =
      (Diagnostic.ofSeverity v
        (bag.diagnostics.filter fun d => d.isError || !o.has .quiet)).map Diagnostic.text := by
  have hdenied : Line.headed v [.message s!"error: {file}: warnings are denied"] = [] := by
    have h := Line.headed_run (v := v) (file ++ ": warnings are denied")
    rwa [← String.append_assoc] at h
  have hsilent (text : String) : ∀ l ∈ [Line.output text], l.message? = none := by
    simp [Line.message?]
  rw [← Line.headed_map_line, ofDefinition]
  dsimp only
  cases bag.hasErrors with
  | true => rfl
  | false =>
    cases s.denyWarnings && bag.hasWarnings with
    | true => exact (Line.headed_append _ _).trans (by rw [hdenied, List.append_nil])
    | false =>
      cases o.has .check with
      | true => exact Line.headed_append_of_silent (hsilent _)
      | false =>
        cases o.has .emitJson with
        | true => exact Line.headed_append_of_silent (hsilent _)
        | false => rfl

/-- What is said of a source. Where it could not be read, everything is said that was found in
    reading it. -/
theorem headed_ofSource :
    Line.headed v (ofSource o s source file).1 =
      (Diagnostic.ofSeverity v
        (if o.has .emitTokens then (Lexed.ofSource source file).diagnostics
        else if (Parsed.ofSource source file).diagnostics.any Diagnostic.isError then
          (Parsed.ofSource source file).diagnostics
        else if o.has .emitAst then []
        else (Compilation.ofSource source file).bag.diagnostics.filter fun d =>
          d.isError || !o.has .quiet)).map Diagnostic.text := by
  rw [ofSource]
  cases o.has .emitTokens with
  | true => exact headed_listTokens
  | false =>
    dsimp only
    rw [Compilation.definition_ofParsed]
    cases (Parsed.ofSource source file).diagnostics.any Diagnostic.isError with
    | true => exact Line.headed_map_line _
    | false =>
      cases o.has .emitAst with
      | true => exact Line.headed_eq_nil (by simp [Line.message?])
      | false =>
        have hevents : ∀ l ∈ (Analysis.events (Parsed.ofSource source file).schema).map Line.log,
            l.message? = none := by
          simp [Line.message?]
        refine (Line.headed_append _ _).trans ?_
        rw [Line.headed_eq_nil hevents, List.nil_append]
        exact headed_ofDefinition _ _

/-- Every error is said, quiet or not. -/
theorem headed_error :
    Line.headed .error (ofSource o s source file).1 =
      (Diagnostic.ofSeverity .error (o.found source file)).map Diagnostic.text := by
  rw [headed_ofSource, Options.found]
  refine congrArg (List.map Diagnostic.text) ?_
  cases o.has .emitTokens with
  | true => rfl
  | false =>
    cases herrors : (Parsed.ofSource source file).diagnostics.any Diagnostic.isError with
    | true =>
      have hbag := Compilation.diagnostics_ofParsed_of_error _ herrors
      cases o.has .emitAst with
      | true => rfl
      | false => exact congrArg _ hbag.symm
    | false =>
      cases o.has .emitAst with
      | true => exact (Diagnostic.ofSeverity_error_eq_nil herrors).symm
      | false => exact Diagnostic.ofSeverity_error_filter _ _

/-- When quiet, warnings are said only of a source that could not be read. -/
theorem headed_warning (hquiet : o.has .quiet = true) :
    Line.headed .warning (ofSource o s source file).1 =
      (o.unmuted source file).map Diagnostic.text := by
  rw [headed_ofSource, Options.unmuted]
  refine congrArg (List.map Diagnostic.text) ?_
  cases o.has .emitTokens with
  | true => exact Diagnostic.ofSeverity_warning_eq_nil fun d hd => Lexed.isError_of_mem hd
  | false =>
    cases (Parsed.ofSource source file).diagnostics.any Diagnostic.isError with
    | true => rfl
    | false =>
      cases o.has .emitAst with
      | true => rfl
      | false =>
        refine Diagnostic.ofSeverity_warning_eq_nil fun d hd => ?_
        simpa [hquiet] using (List.mem_filter.mp hd).2

end Verdict

/-! ### Runs -/

namespace Run

open FileTree (files)

variable {o : Options} {s : Settings} {v : Severity}

/-- The inputs that are compiled in a run, each with the text that was read of it: all in order, up
    to the first that stops the run. -/
def processedFrom (o : Options) (s : Settings) : List Path → FileTree → List (Path × String)
  | [], _ => []
  | input :: rest, t =>
    match t.readText input with
    | .error _ => []
    | .ok source =>
      match (compile files o s input).run t with
      | ((_, .error _), _) => [(input, source)]
      | ((_, .ok _), t₁) => (input, source) :: processedFrom o s rest t₁

/-- The inputs that are compiled in a run on a file tree. -/
def processed (o : Options) (t : FileTree) : List (Path × String) :=
  match settings? o t with
  | .error _ => []
  | .ok s => processedFrom o s s.inputs t

/-- Where there is nothing to read, nothing is said, and the run stops. -/
theorem compile_unreadable {input : Path} {t : FileTree} {e : FileError}
    (hread : t.readText input = .error e) :
    (compile files o s input).run t = (([], .error (.unreadable input e)), t) := by
  generalize h : (compile files o s input).run t = answer
  obtain ⟨read, t₁, hread', h⟩ := exists_of_run_bind h
  obtain ⟨rfl, rfl⟩ : t.readText input = read ∧ t = t₁ := Prod.mk.inj hread'
  rw [hread] at h
  exact h.symm

/-- Writing the definitions says nothing under a header. -/
theorem headed_compile {input : Path} {source : String} {t t' : FileTree} {lines : List Line}
    {result : Except RunError Bool} (hsource : t.readText input = .ok source)
    (h : (compile files o s input).run t = ((lines, result), t')) :
    Line.headed v lines = Line.headed v (Verdict.ofSource o s source input.toString).1 := by
  obtain ⟨read, t₁, hread, h⟩ := exists_of_run_bind h
  obtain ⟨rfl, rfl⟩ : t.readText input = read ∧ t = t₁ := Prod.mk.inj hread
  rw [hsource] at h
  dsimp only at h
  generalize Verdict.ofSource o s source input.toString = answer at h ⊢
  obtain ⟨said, verdict⟩ := answer
  cases verdict with
  | bad =>
    cases h
    rfl
  | good =>
    cases h
    rfl
  | write json types =>
    obtain ⟨written, t₂, hwritten, h⟩ := exists_of_run_bind h
    cases written with
    | error e =>
      cases h
      rfl
    | ok _ =>
      cases h
      exact Line.headed_append_of_silent (by simp [Line.message?])

/-- What is said under a header is said of one processed input after the other. The induction is on
    the inputs. -/
theorem headed_compileAll {inputs : List Path} {t t' : FileTree} {lines : List Line}
    {result : Except RunError Bool}
    (h : (compileAll files o s inputs).run t = ((lines, result), t')) :
    Line.headed v lines = (processedFrom o s inputs t).flatMap fun p =>
      Line.headed v (Verdict.ofSource o s p.2 p.1.toString).1 := by
  induction inputs generalizing t lines result with
  | nil =>
    cases h
    rfl
  | cons input rest ih =>
    obtain ⟨⟨said, first⟩, t₁, hfirst, h⟩ := exists_of_run_bind h
    rw [processedFrom, hfirst]
    cases hsource : t.readText input with
    | error e =>
      rw [compile_unreadable hsource] at hfirst
      cases hfirst
      cases h
      rfl
    | ok source =>
      have hsaid := headed_compile (v := v) hsource hfirst
      cases first with
      | error e =>
        cases h
        rw [hsaid, List.flatMap_singleton]
      | ok good =>
        obtain ⟨⟨more, others⟩, t₂, hrest, h⟩ := exists_of_run_bind h
        have hlines : ((said ++ more, others.map (good && ·)), t₂) = ((lines, result), t') := h
        simp only [Prod.mk.injEq] at hlines
        obtain ⟨⟨rfl, -⟩, rfl⟩ := hlines
        rw [Line.headed_append, hsaid, ih hrest, List.flatMap_cons]

theorem headed_withOptions {t t' : FileTree} {lines : List Line} {result : Except RunError Bool}
    (h : (withOptions files o).run t = ((lines, result), t')) :
    Line.headed v lines = match settings? o t with
      | .error _ => []
      | .ok s => (processedFrom o s s.inputs t).flatMap fun p =>
        Line.headed v (Verdict.ofSource o s p.2 p.1.toString).1 := by
  obtain ⟨manifest, t₁, hmanifest, h⟩ := exists_of_run_bind h
  have hsearch := asks_manifest? o t
  rw [hmanifest] at hsearch
  obtain rfl : t₁ = t := hsearch
  rw [settings?, hmanifest]
  cases manifest with
  | error e =>
    cases h
    rfl
  | ok found =>
    dsimp only at h
    have hloaded : ∀ l ∈ (found.map fun f => Line.log (loadedEvent f)).toList,
        l.message? = none := by
      cases found <;> simp [Line.message?]
    show _ = match Settings.resolve o found with
      | .error _ => []
      | .ok s => _
    cases hsettings : Settings.resolve o found with
    | error e =>
      rw [hsettings] at h
      cases h
      exact Line.headed_eq_nil hloaded
    | ok s =>
      rw [hsettings] at h
      obtain ⟨⟨said, answer⟩, t₂, hall, h⟩ := exists_of_run_bind h
      cases h
      rw [Line.headed_append, Line.headed_eq_nil hloaded, List.nil_append]
      exact headed_compileAll hall

/-- Leaving out log events leaves the messages. -/
theorem headed_filter_audible (verbosity : Nat) (lines : List Line) :
    Line.headed v (lines.filter (audible verbosity)) = Line.headed v lines := by
  have hmessages : (lines.filter (audible verbosity)).filterMap Line.message? =
      lines.filterMap Line.message? := by
    rw [List.filterMap_filter]
    refine List.filterMap_congr fun l _ => ?_
    cases l <;> simp [audible, Line.message?]
  rw [Line.headed, hmessages, Line.headed]

theorem headed_report {t t' : FileTree} {r : Report} (h : (report files o).run t = (r, t')) :
    ∃ lines result, (withOptions files o).run t = ((lines, result), t') ∧
      Line.headed v r.lines = Line.headed v lines := by
  obtain ⟨⟨lines, result⟩, t₁, hrun, h⟩ := exists_of_run_bind h
  refine ⟨lines, result, ?_⟩
  cases result with
  | ok good =>
    cases h
    exact ⟨hrun, headed_filter_audible _ _⟩
  | error e =>
    cases h
    refine ⟨hrun, ?_⟩
    have hstopped : Line.headed v [.message s!"error: {e.message}"] = [] :=
      Line.headed_run e.message
    rw [Line.headed_append, headed_filter_audible, hstopped, List.append_nil]

theorem headed_withArguments {arguments : List Bytes} {t t' : FileTree} {r : Report}
    (ho : Options.ofArguments arguments = .ok o)
    (hrun : (withArguments files arguments).run t = (r, t')) {f : Path × String → List String}
    (hf : ∀ s : Settings, ∀ p : Path × String,
      Line.headed v (Verdict.ofSource o s p.2 p.1.toString).1 = f p) :
    r.messages.filter (v.Heads ·) = (processed o t).flatMap f := by
  rw [withArguments, ho] at hrun
  obtain ⟨lines, result, hoptions, hlines⟩ := headed_report (v := v) hrun
  refine (hlines.trans (headed_withOptions hoptions)).trans ?_
  rw [processed]
  cases settings? o t with
  | error e => rfl
  | ok s =>
    dsimp only
    rw [funext (hf s)]

/-- A quiet run says every error that it finds in its schemas, in order. It says no warning exactly
    if it only lists tokens, or if no schema is read with both an error and a warning. -/
theorem headers_of_quiet (t t' : FileTree) (arguments : List Bytes) (o : Options) (r : Report)
    (ho : Options.ofArguments arguments = .ok o) (hquiet : o.has .quiet = true)
    (hrun : (withArguments files arguments).run t = (r, t')) :
    r.messages.filter (Severity.error.Heads ·) = ((processed o t).flatMap fun p =>
        (Diagnostic.ofSeverity .error (o.found p.2 p.1.toString)).map Diagnostic.text) ∧
      ((∀ m ∈ r.messages, ¬ Severity.warning.Heads m) ↔ o.has .emitTokens = true ∨
        ∀ p ∈ processed o t, ¬ (Parsed.ofSource p.2 p.1.toString).Mixed) := by
  refine ⟨headed_withArguments ho hrun fun s p => Verdict.headed_error, ?_⟩
  have hwarnings := headed_withArguments ho hrun fun s p => Verdict.headed_warning hquiet
  calc (∀ m ∈ r.messages, ¬ Severity.warning.Heads m)
    _ ↔ r.messages.filter (Severity.warning.Heads ·) = [] := by simp [List.filter_eq_nil_iff]
    _ ↔ ∀ p ∈ processed o t, o.unmuted p.2 p.1.toString = [] := by
      rw [hwarnings, List.flatMap_eq_nil_iff]
      simp only [List.map_eq_nil_iff]
    _ ↔ _ := by
      simp only [Options.unmuted_eq_nil_iff]
      cases o.has .emitTokens <;> simp

/-- A good schema with a warning, and one that cannot be read. -/
def muted : FileTree :=
  .ofTexts [(["a.fbs"], "rpc_service S \x7b\x7d"), (["b.fbs"], "table")]

def mutedArguments : List Bytes := ["a.fbs", "b.fbs", "--check", "-q"].map bytesOf

def mutedOptions : Options where
  inputs := [.ofString "a.fbs", .ofString "b.fbs"]
  switches := [.check, .quiet]

/-- Only the error is said. -/
theorem headers_of_quiet_muted :
    Options.ofArguments mutedArguments = .ok mutedOptions ∧ mutedOptions.has .quiet = true ∧
      (∀ m ∈ ((withArguments files mutedArguments).run muted).1.messages,
        ¬ Severity.warning.Heads m) ∧
      ((withArguments files mutedArguments).run muted).1.messages.filter
        (Severity.error.Heads ·) = ["Error: expected type name, found end of file"] := by
  have hoptions : Options.ofArguments mutedArguments = .ok mutedOptions := by decide +kernel
  obtain ⟨herrors, hwarnings⟩ := headers_of_quiet muted _ mutedArguments mutedOptions _ hoptions
    (by decide) rfl
  refine ⟨hoptions, by decide, hwarnings.mpr (.inr ?_), herrors.trans ?_⟩ <;> decide +kernel

/-- A schema with a warning and then an error in it. -/
def mixed : FileTree := .ofTexts [(["a.fbs"], "rpc_service S \x7b\x7d\ntable")]

def mixedArguments : List Bytes := ["a.fbs", "-q"].map bytesOf

/-- Its warning is said, though the run is to be quiet. -/
theorem warned_of_quiet_mixed :
    (∃ o, Options.ofArguments mixedArguments = .ok o ∧ o.has .quiet = true) ∧
      "Warning: rpc_service `S` is ignored" ∈
        ((withArguments files mixedArguments).run mixed).1.messages ∧
      Severity.warning.Heads "Warning: rpc_service `S` is ignored" := by
  refine ⟨⟨⟨[.ofString "a.fbs"], none, [.quiet], 0⟩, ?_, ?_⟩, ?_, ?_⟩ <;> decide +kernel

end Run

end FlatSchema
