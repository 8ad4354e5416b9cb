import FlatSchema.CommandLine.Verdict
import FlatSchema.Proofs.Definition.Analysis

/-!
What is decided about a schema whose definitions are asked for. It is clean if nothing that is
reported on it, in reading it or in resolving it, counts against it: errors do, and warnings do if
they are denied. A schema that is not clean is bad, whatever is asked for; what becomes of a clean
one depends on the mode alone.

        reported            warnings denied         else
        nothing             clean                   clean
        warnings            bad                     clean
        an error            bad                     bad
-/

namespace FlatSchema

/-- What is asked for is definitions in files. -/
def Options.Writing (o : Options) : Prop :=
  ∀ mode ∈ [Switch.check, .emitJson, .emitTokens, .emitAst], o.has mode = false

namespace Settings

variable (s : Settings) (input : Path) (source : String)

/-- The text that is written for an input of some content. -/
def fields : String :=
  (Analysis.ofSchema (Parsed.ofSource source input.toString).schema).definition.handoff s.layout

/-- Nothing that is reported on an input of some content counts against it. -/
def Clean : Prop :=
  ∀ d ∈ (Parsed.ofSource source input.toString).diagnostics ++
      (Analysis.ofSchema (Parsed.ofSource source input.toString).schema).bag.diagnostics,
    d.severity ≠ .error ∧ (s.denyWarnings = true → d.severity ≠ .warning)

instance : Decidable (s.Clean input source) := inferInstanceAs (Decidable (∀ d ∈ _, _))

end Settings

/-! ### Reports -/

theorem Diagnostic.isError_iff {d : Diagnostic} : d.isError = true ↔ d.severity = .error := by
  rw [isError, beq_iff_eq]

theorem Diagnostic.isError_eq_false_iff {d : Diagnostic} :
    d.isError = false ↔ d.severity = .warning := by
  rw [isError]
  cases d.severity <;> simp

namespace Compilation

variable (parsed : Parsed)

theorem reportAll_diagnostics :
    Bag.reportAll {} parsed.diagnostics = ⟨parsed.diagnostics, []⟩ := by
  rw [Bag.reportAll_unscoped, List.nil_append]

theorem definition_ofParsed :
    (ofParsed parsed).definition = if parsed.diagnostics.any Diagnostic.isError then none
      else some (Analysis.ofSchema parsed.schema).definition := by
  rw [ofParsed, reportAll_diagnostics]
  exact apply_ite definition _ _ _

/-- What is reported on a schema that could not be read is what is reported in reading it. -/
theorem diagnostics_ofParsed_of_error (h : parsed.diagnostics.any Diagnostic.isError = true) :
    (ofParsed parsed).bag.diagnostics = parsed.diagnostics := by
  rw [ofParsed, reportAll_diagnostics]
  simp only [Bag.hasErrors, h, if_true]

/-- What is reported on a schema that could be read is what is reported in reading it and then in
    resolving it. -/
theorem diagnostics_ofParsed (h : parsed.diagnostics.any Diagnostic.isError = false) :
    (ofParsed parsed).bag.diagnostics =
      parsed.diagnostics ++ (Analysis.ofSchema parsed.schema).bag.diagnostics := by
  rw [ofParsed, reportAll_diagnostics]
  simp only [Bag.hasErrors, h, Bool.false_eq_true, if_false, Bag.absorb, Bag.reportAll_unscoped]

end Compilation

/-- A bag holds something that counts, as errors do and denied warnings. -/
theorem Bag.counts_eq_false_iff (bag : Bag) (deny : Bool) :
    (bag.hasErrors || (deny && bag.hasWarnings)) = false ↔
      ∀ d ∈ bag.diagnostics, d.severity ≠ .error ∧ (deny = true → d.severity ≠ .warning) := by
  have hwarning (d : Diagnostic) : (!d.isError) = true ↔ d.severity = .warning := by
    rw [Bool.not_eq_true', Diagnostic.isError_eq_false_iff]
  rw [hasErrors, hasWarnings, Bool.or_eq_false_iff, List.any_eq_false]
  cases deny with
  | false => simp [Diagnostic.isError_iff]
  | true =>
    rw [Bool.true_and, List.any_eq_false]
    simp only [Diagnostic.isError_iff, hwarning, true_implies, forall_and, ne_eq]

/-! ### Verdicts -/

namespace Verdict

variable {o : Options} {s : Settings} {input : Path} {source : String}

theorem verdict_ofDefinition (file : String) (bag : Bag) (definition : SchemaDefinition) :
    (ofDefinition o s file bag definition).2 =
      if bag.hasErrors || (s.denyWarnings && bag.hasWarnings) then .bad
      else if o.has .check || o.has .emitJson then .good
      else .write (definition.handoff s.layout) definition.types.length := by
  rw [ofDefinition]
  dsimp only
  cases bag.hasErrors with
  | true => rfl
  | false =>
    cases s.denyWarnings && bag.hasWarnings with
    | true => rfl
    | false =>
      cases o.has .check with
      | true => rfl
      | false => cases o.has .emitJson <;> rfl

/-- A schema that is not clean is bad, and a clean one is good or to be written, as the mode has
    it. -/
theorem verdict_ofSource (s : Settings) (input : Path) (source : String)
    (htokens : o.has .emitTokens = false) (hast : o.has .emitAst = false) :
    (ofSource o s source input.toString).2 =
      if s.Clean input source then
        if o.has .check || o.has .emitJson then .good
        else .write (s.fields input source)
          (Analysis.ofSchema
            (Parsed.ofSource source input.toString).schema).definition.types.length
      else .bad := by
  rw [ofSource, htokens, hast]
  dsimp only
  rw [Compilation.definition_ofParsed]
  simp only [Bool.false_eq_true, if_false]
  cases herrors : (Parsed.ofSource source input.toString).diagnostics.any Diagnostic.isError with
  | true =>
    obtain ⟨d, hd, herror⟩ := List.any_eq_true.mp herrors
    have hbad : ¬ s.Clean input source := fun hclean =>
      (hclean d (List.mem_append_left _ hd)).1 (Diagnostic.isError_iff.mp herror)
    rw [if_neg hbad]
    rfl
  | false =>
    have hbag := Compilation.diagnostics_ofParsed _ herrors
    have hclean := Bag.counts_eq_false_iff
      (Compilation.ofParsed (Parsed.ofSource source input.toString)).bag s.denyWarnings
    rw [hbag] at hclean
    simp only [Bool.false_eq_true, if_false, verdict_ofDefinition]
    by_cases h : s.Clean input source
    · rw [hclean.mpr h, if_pos h]
      rfl
    · rw [if_neg h, if_pos (eq_true_of_ne_false (mt hclean.mp h))]

end Verdict

end FlatSchema
