import FlatSchema.Proofs.Definition.Field
import Mathlib.Data.List.Forall2

/-!
What is reported about a field. Keys that come again are reported first, entry by entry; then each
concern is looked at once, in a fixed order, and what is wrong with it is one error at the last
entry of its key. Without anything wrong there is nothing to report.

        hp: int (vectortype: Array, id: 1, key: maybe, id: -1, hash)
        ↦   warning id again · error vectortype · error key · error id negative · error hash

Everything goes to the end of the bag, inside the open scopes and the scope of the field.
-/

namespace FlatSchema

/-- What is said about a key as a text, which is empty for the bare key. -/
def Saying.written : Saying → String
  | .text t => t
  | _ => ""

/-- What is said about a key is a 32-bit number. -/
def Saying.IsIndex (s : Saying) (n : Int) : Prop :=
  ∃ t core, s = .text t ∧ IsCore t.toList core ∧ IsNumeral core n ∧
    -0x80000000 ≤ n ∧ n < 0x80000000

/-- What is said about a text that an attribute does not accept. -/
def invalidValue (key text expected : String) : String :=
  s!"invalid value `{text}` for attribute `{key}`; expected {expected}"

/-- What can be wrong with a field is wrong with one of its attributes. -/
inductive Concern where
  | vectorForm
  | flag (key : String)
  | setter
  | index
  | unsupported (key : String)
deriving DecidableEq, Inhabited

namespace Concern

/-- The key that a concern is about. -/
def key : Concern → String
  | vectorForm => "vectortype"
  | flag key => key
  | setter => "setter"
  | index => "id"
  | unsupported key => key

/-- All concerns in the order in which they are looked at. -/
def all : List Concern :=
  [vectorForm, flag "deprecated", flag "key", flag "sortedvector", flag "sharedstring",
    flag "nonVirtual", setter, index, unsupported "required", unsupported "force_align",
    unsupported "bit_flags", unsupported "flexbuffer", unsupported "hash",
    unsupported "original_order"]

end Concern

namespace FieldDecl

/-- `Defect decl c message`: something is wrong with a concern of a field, and `message` says what.
    The vector form is wrong if the type is no vector or if no form is named; a flag is wrong if its
    text is no truth value; an index is wrong if it is no 32-bit number or a negative one. -/
inductive Defect (decl : FieldDecl) : Concern → String → Prop where
  | vectorFormWithoutVector {s : Saying} : Says decl.metadata.entries "vectortype" s →
      s ≠ .nothing → decl.type.text.toList.head? ≠ some '[' →
      Defect decl .vectorForm
        s!"non-vector field `{decl.name.text}` may not have the `vectortype` attribute"
  | unknownVectorForm {s : Saying} : Says decl.metadata.entries "vectortype" s →
      s ≠ .nothing → decl.type.text.toList.head? = some '[' →
      (∀ f : VectorForm, ¬ Names s.written (Choice.word f)) →
      Defect decl .vectorForm
        (s!"unable to parse `{s.written}` as a vector type; valid choices are: " ++
          "IList, IReadOnlyList, Array, Memory, ReadOnlyMemory, IIndexedVector")
  | flag {key t : String} : Says decl.metadata.entries key (.text t) →
      ¬ Names t "true" → ¬ Names t "false" →
      Defect decl (.flag key) (invalidValue key t "`true` or `false`")
  | setter {t : String} : Says decl.metadata.entries "setter" (.text t) →
      (∀ k : SetterKind, ¬ Names t (Choice.word k)) →
      Defect decl .setter
        (invalidValue "setter" t <| "one of: " ++
          ("Public, PublicInit, Protected, ProtectedInit, ProtectedInternal, " ++
            "ProtectedInternalInit, None"))
  | indexNotSet {s : Saying} : Says decl.metadata.entries "id" s → s ≠ .nothing →
      (∀ n, ¬ s.IsIndex n) →
      Defect decl .index "value of `id` attribute should be set if the attribute is present"
  | negativeIndex {s : Saying} {n : Int} : Says decl.metadata.entries "id" s →
      s.IsIndex n → n < 0 →
      Defect decl .index
        s!"value of `id` attribute {n} of field `{decl.name.text}` is negative"
  | unsupported {key : String} {s : Saying} : Says decl.metadata.entries key s → s ≠ .nothing →
      Defect decl (.unsupported key) s!"the `{key}` attribute is not supported"

/-- What is reported on a concern: a defect as an error at the last entry of its key, and nothing
    without one. -/
inductive ReportsOn (decl : FieldDecl) (c : Concern) : List Diagnostic → Prop where
  | defect {message : String} {e : MetadataEntry} : decl.Defect c message →
      AttributeMap.IsLast decl.metadata.entries c.key e → ReportsOn decl c [.errorAt message e.span]
  | flawless : (∀ message, ¬ decl.Defect c message) → ReportsOn decl c []

/-- All that is reported about a field: the warnings about keys that come again, and then what each
    concern gives. -/
def Reported (decl : FieldDecl) (ds : List Diagnostic) : Prop :=
  ∃ warnings rows, AttributeMap.Repeats [] decl.metadata.entries warnings ∧
    List.Forall₂ decl.ReportsOn Concern.all rows ∧ ds = warnings ++ rows.flatten

end FieldDecl

/-! ### Messages -/

theorem listing_vectorForm : Choice.listing VectorForm =
    "IList, IReadOnlyList, Array, Memory, ReadOnlyMemory, IIndexedVector" := by rfl

theorem listing_setterKind : Choice.listing SetterKind =
    "Public, PublicInit, Protected, ProtectedInit, ProtectedInternal, " ++
      "ProtectedInternalInit, None" := by decide +kernel

theorem message_unknownVectorForm (t : String) :
    (FieldProblem.unknownVectorForm t).message =
      s!"unable to parse `{t}` as a vector type; valid choices are: " ++
        "IList, IReadOnlyList, Array, Memory, ReadOnlyMemory, IIndexedVector" := by
  unfold FieldProblem.message
  simp only [listing_vectorForm, toString]

theorem expected_setterRule : setterRule.expected = "one of: " ++
    ("Public, PublicInit, Protected, ProtectedInit, ProtectedInternal, " ++
      "ProtectedInternalInit, None") := by
  simp only [setterRule, listing_setterKind, toString]

theorem key_setterRule : setterRule.key = "setter" := rfl

theorem accept_setterRule (t : String) : setterRule.accept t = Choice.ofWord? (trimString t) := by
  simp only [setterRule]

/-! ### What is said -/

namespace AttributeMap

variable {m : AttributeMap} {key : String}

theorem saying_ne_nothing_iff : m.saying key ≠ .nothing ↔ m.contains key = true := by
  unfold saying contains
  cases m.get? key with
  | none => simp
  | some a => cases ha : a.text? <;> simp [ha]

theorem written_saying {a : Attribute} (h : m.get? key = some a) :
    (m.saying key).written = a.text?.getD "" := by
  unfold saying
  rw [h]
  cases ha : a.text? <;> simp only [ha] <;> rfl

theorem number_eq_absent_iff : m.number key = .absent ↔ m.saying key = .nothing := by
  unfold number saying
  cases m.get? key with
  | none => simp
  | some a =>
    cases ha : a.text? with
    | none => simp [ha]
    | some t =>
      simp only [ha, Option.bind_some]
      cases int32? (trim t.toList) <;> simp

end AttributeMap

namespace AttributeRule

variable {α : Type} (rule : AttributeRule α) (m : AttributeMap)

/-- The message about the text of an attribute, if its rule does not accept it. -/
def defect? : Option String :=
  match m.saying rule.key with
  | .text t =>
    if (rule.accept t).isSome then none else some (invalidValue rule.key t rule.expected)
  | _ => none

theorem defect?_eq_some_iff {rule : AttributeRule α} {m : AttributeMap} {message : String} :
    rule.defect? m = some message ↔ ∃ t, m.saying rule.key = .text t ∧ rule.accept t = none ∧
      message = invalidValue rule.key t rule.expected := by
  unfold defect?
  cases m.saying rule.key with
  | text t =>
    simp only [Option.ite_none_left_eq_some, Bool.not_eq_true, Option.isSome_eq_false_iff,
      Option.isNone_iff_eq_none, Option.some.injEq, Saying.text.injEq, exists_eq_left']
    exact and_congr_right fun _ => eq_comm
  | _ => simp only [reduceCtorEq, false_and, exists_false]

/-- A rule reports the text that it does not accept, at the attribute. -/
theorem reports_eq (elsewhere : Span) :
    rule.reports m = (rule.defect? m).toList.map fun message =>
      .errorAt message ((m.spanOf? rule.key).getD elsewhere) := by
  unfold reports defect? AttributeMap.saying AttributeMap.spanOf?
  cases m.get? rule.key with
  | none => rfl
  | some a =>
    cases ha : a.text? with
    | none => simp only [ha, Option.toList_none, List.map_nil]
    | some t =>
      simp only [ha]
      split <;> rfl

theorem accept_flag (key : String) : (flag key).accept = truth? := by simp only [flag]

/-- Flags accept the same texts, whether or not being left out is told from being off. -/
theorem defect?_optionalFlag (key : String) :
    (optionalFlag key).defect? m = (flag key).defect? m := by
  unfold defect? optionalFlag flag
  cases m.saying key with
  | text t => cases h : truth? t <;> simp only [h] <;> rfl
  | _ => rfl

end AttributeRule

namespace FieldDecl

/-! ### Defects -/

/-- The message about a concern, if something is wrong with it. -/
def defect? (decl : FieldDecl) : Concern → Option String
  | .vectorForm =>
    if decl.attributes.saying "vectortype" = .nothing then none
    else if !decl.isVector then
      some (FieldProblem.vectorFormWithoutVector decl.name.text).message
    else if (Choice.ofWord? (trimString (decl.attributes.saying "vectortype").written) :
      Option VectorForm).isSome then none
    else some (FieldProblem.unknownVectorForm (decl.attributes.saying "vectortype").written).message
  | .flag key => (AttributeRule.flag key).defect? decl.attributes
  | .setter => setterRule.defect? decl.attributes
  | .index =>
    match decl.attributes.number "id" with
    | .absent => none
    | .invalid => some FieldProblem.idWithoutNumber.message
    | .value n => if n < 0 then some (FieldProblem.negativeId n decl.name.text).message else none
  | .unsupported key =>
    if decl.attributes.contains key then some (FieldProblem.unsupported key).message else none

variable {decl : FieldDecl}

theorem says_iff {key : String} {s : Saying} :
    Says decl.metadata.entries key s ↔ decl.attributes.saying key = s :=
  AttributeMap.says_iff

theorem isVector_iff : decl.isVector = true ↔ decl.type.text.toList.head? = some '[' := by
  rw [isVector]
  by_cases h : decl.type.text.toList.head? = some '['
  · obtain ⟨inner, hinner⟩ := List.head?_eq_some_iff.mp h
    simp [elementType?_of_cons hinner, h]
  · simp [elementType?_of_head_ne h, h]

theorem isIndex_iff {n : Int} :
    (decl.attributes.saying "id").IsIndex n ↔ decl.attributes.number "id" = .value n :=
  AttributeMap.number_eq_value_iff.symm

theorem defect?_of_defect {c : Concern} {message : String} (h : decl.Defect c message) :
    decl.defect? c = some message := by
  cases h with
  | vectorFormWithoutVector hs hne hvector =>
    obtain rfl := says_iff.mp hs
    have hplain : decl.isVector = false := by simpa [← isVector_iff] using hvector
    rw [defect?, if_neg hne, hplain, if_pos (by rfl)]
    rfl
  | unknownVectorForm hs hne hvector hform =>
    obtain rfl := says_iff.mp hs
    rw [defect?, if_neg hne, isVector_iff.mpr hvector, if_neg (by simp),
      ofWord?_eq_none_iff.mpr hform, if_neg (by simp), message_unknownVectorForm]
  | @flag key t hs htrue hfalse =>
    rw [defect?]
    have hnone : (AttributeRule.flag key).accept t = none := by
      rw [AttributeRule.accept_flag]
      exact truth?_eq_none_iff.mpr ⟨htrue, hfalse⟩
    exact AttributeRule.defect?_eq_some_iff.mpr ⟨t, says_iff.mp hs, hnone, rfl⟩
  | @setter t hs hkind =>
    rw [← expected_setterRule, ← key_setterRule, defect?]
    have hnone : setterRule.accept t = none := by
      rw [accept_setterRule]
      exact ofWord?_eq_none_iff.mpr hkind
    exact AttributeRule.defect?_eq_some_iff.mpr ⟨t, says_iff.mp hs, hnone, rfl⟩
  | indexNotSet hs hne hn =>
    obtain rfl := says_iff.mp hs
    rw [defect?]
    cases h : decl.attributes.number "id" with
    | absent => exact absurd (AttributeMap.number_eq_absent_iff.mp h) hne
    | invalid => rfl
    | value n => exact absurd (isIndex_iff.mpr h) (hn n)
  | negativeIndex hs hn hneg =>
    obtain rfl := says_iff.mp hs
    rw [defect?, isIndex_iff.mp hn]
    simp only [hneg, if_true]
    rfl
  | unsupported hs hne =>
    obtain rfl := says_iff.mp hs
    rw [defect?, if_pos (AttributeMap.saying_ne_nothing_iff.mp hne)]
    rfl

theorem defect_of_defect? {c : Concern} {message : String} (h : decl.defect? c = some message) :
    decl.Defect c message := by
  cases c with
  | vectorForm =>
    simp only [defect?, Option.ite_none_left_eq_some] at h
    obtain ⟨hne, h⟩ := h
    split at h
    · next hplain =>
      obtain rfl := Option.some.inj h
      refine .vectorFormWithoutVector (says_iff.mpr rfl) hne fun hhead => ?_
      simp [isVector_iff.mpr hhead] at hplain
    · next hvector =>
      simp only [Option.ite_none_left_eq_some, Bool.not_eq_true, Option.isSome_eq_false_iff,
        Option.isNone_iff_eq_none, Option.some.injEq] at h
      obtain ⟨hform, rfl⟩ := h
      rw [message_unknownVectorForm]
      exact .unknownVectorForm (says_iff.mpr rfl) hne (isVector_iff.mp (by simpa using hvector))
        (ofWord?_eq_none_iff.mp hform)
  | flag key =>
    rw [defect?] at h
    obtain ⟨t, ht, hnone, rfl⟩ := AttributeRule.defect?_eq_some_iff.mp h
    rw [AttributeRule.accept_flag] at hnone
    obtain ⟨htrue, hfalse⟩ := truth?_eq_none_iff.mp hnone
    exact .flag (says_iff.mpr ht) htrue hfalse
  | setter =>
    rw [defect?] at h
    obtain ⟨t, ht, hnone, rfl⟩ := AttributeRule.defect?_eq_some_iff.mp h
    rw [expected_setterRule, key_setterRule]
    rw [accept_setterRule] at hnone
    exact .setter (says_iff.mpr ht) (ofWord?_eq_none_iff.mp hnone)
  | index =>
    simp only [defect?] at h
    split at h
    · cases h
    · next hinvalid =>
      obtain rfl := Option.some.inj h
      refine .indexNotSet (says_iff.mpr rfl) (fun hs => ?_) fun n hn => ?_
      · simp [AttributeMap.number_eq_absent_iff.mpr hs] at hinvalid
      · simp [isIndex_iff.mp hn] at hinvalid
    · next n hn =>
      simp only [Option.ite_none_right_eq_some, Option.some.injEq] at h
      obtain ⟨hneg, rfl⟩ := h
      exact .negativeIndex (says_iff.mpr rfl) (isIndex_iff.mpr hn) hneg
  | unsupported key =>
    simp only [defect?, Option.ite_none_right_eq_some, Option.some.injEq] at h
    obtain ⟨hkey, rfl⟩ := h
    exact .unsupported (says_iff.mpr rfl) (AttributeMap.saying_ne_nothing_iff.mpr hkey)

theorem defect_iff {c : Concern} {message : String} :
    decl.Defect c message ↔ decl.defect? c = some message :=
  ⟨defect?_of_defect, defect_of_defect?⟩

/-! ### Reports -/

/-- The reports on a concern: the message about it, if there is one, at its attribute. -/
def reportsOn (decl : FieldDecl) (c : Concern) : List Diagnostic :=
  (decl.defect? c).toList.map fun message =>
    .errorAt message ((decl.attributes.spanOf? c.key).getD decl.span)

theorem typeReports_eq : decl.typeReports = decl.reportsOn .vectorForm := by
  cases h : decl.attributes.get? "vectortype" with
  | none =>
    have hsaying : decl.attributes.saying "vectortype" = .nothing := by
      rw [AttributeMap.saying, h]
    rw [typeReports, h, reportsOn, defect?, if_pos hsaying]
    rfl
  | some a =>
    have hsaying : decl.attributes.saying "vectortype" ≠ .nothing := by
      rw [AttributeMap.saying_ne_nothing_iff, AttributeMap.contains, h]
      rfl
    rw [typeReports, h, reportsOn, defect?, if_neg hsaying, AttributeMap.written_saying h]
    simp only
    split
    · rfl
    split
    · rfl
    · rfl

theorem flagReports_eq : decl.flagReports = [.flag "deprecated", .flag "key", .flag "sortedvector",
    .flag "sharedstring", .flag "nonVirtual", .setter].flatMap decl.reportsOn := by
  have hflag (key : String) :
      (AttributeRule.flag key).reports decl.attributes = decl.reportsOn (.flag key) :=
    AttributeRule.reports_eq _ _ decl.span
  have hnonVirtual : (AttributeRule.optionalFlag "nonVirtual").reports decl.attributes =
      decl.reportsOn (.flag "nonVirtual") := by
    rw [AttributeRule.reports_eq _ _ decl.span, AttributeRule.defect?_optionalFlag]
    rfl
  have hsetter : setterRule.reports decl.attributes = decl.reportsOn .setter :=
    AttributeRule.reports_eq _ _ decl.span
  simp only [flagReports, hflag, hnonVirtual, hsetter, List.flatMap_cons, List.flatMap_nil,
    List.append_nil, List.append_assoc]

theorem idReports_eq : decl.idReports = decl.reportsOn .index := by
  unfold idReports reportsOn defect?
  cases decl.attributes.number "id" with
  | absent => rfl
  | invalid => rfl
  | value n =>
    simp only
    split <;> rfl

theorem unsupportedReports_eq :
    decl.unsupportedReports =
      (unsupportedAttributes.map Concern.unsupported).flatMap decl.reportsOn := by
  rw [unsupportedReports]
  induction unsupportedAttributes with
  | nil => rfl
  | cons key keys ih =>
    rw [List.map_cons, List.flatMap_cons, ← ih, reportsOn, defect?, List.filter_cons]
    split <;> rfl

/-- The steps report what each concern gives, in order. -/
theorem reports_eq :
    decl.reports = AttributeMap.duplicates decl.metadata.entries ++
      Concern.all.flatMap decl.reportsOn := by
  rw [reports]
  simp only [FieldStep.all, stepReports, typeReports_eq, flagReports_eq, idReports_eq,
    unsupportedReports_eq, Concern.all, unsupportedAttributes, List.map_cons, List.map_nil,
    List.flatMap_cons, List.flatMap_nil, List.append_nil, List.nil_append, List.append_assoc]

theorem Defect.exists_isLast {c : Concern} {message : String} (h : decl.Defect c message) :
    ∃ e, AttributeMap.IsLast decl.metadata.entries c.key e := by
  have hsaid {key : String} {s : Saying} (hs : Says decl.metadata.entries key s)
      (hne : s ≠ .nothing) : ∃ e, AttributeMap.IsLast decl.metadata.entries key e := by
    cases hs with
    | nothing => exact absurd rfl hne
    | bare hentries hkey hbehind _ => exact ⟨_, _, _, hentries, hkey, hbehind⟩
    | text hentries hkey hbehind _ _ => exact ⟨_, _, _, hentries, hkey, hbehind⟩
  cases h with
  | vectorFormWithoutVector hs hne _ => exact hsaid hs hne
  | unknownVectorForm hs hne _ _ => exact hsaid hs hne
  | flag hs _ _ => exact hsaid hs (by simp)
  | setter hs _ => exact hsaid hs (by simp)
  | indexNotSet hs hne _ => exact hsaid hs hne
  | negativeIndex hs hn _ =>
    obtain ⟨t, _, rfl, -⟩ := hn
    exact hsaid hs (by simp)
  | unsupported hs hne => exact hsaid hs hne

theorem reportsOn_iff {c : Concern} {ds : List Diagnostic} :
    decl.ReportsOn c ds ↔ decl.reportsOn c = ds := by
  constructor
  · rintro (⟨hdefect, hlast⟩ | hnone)
    · rw [reportsOn, defect_iff.mp hdefect, AttributeMap.spanOf?, attributes,
        AttributeMap.get?_eq_some_iff.mpr ⟨_, hlast, rfl⟩]
      rfl
    · have hdefect : decl.defect? c = none :=
        Option.eq_none_iff_forall_ne_some.mpr fun message h => hnone message (defect_iff.mpr h)
      rw [reportsOn, hdefect]
      rfl
  · rintro rfl
    cases h : decl.defect? c with
    | none =>
      have hnone (message : String) : ¬ decl.Defect c message := by simp [defect_iff, h]
      rw [reportsOn, h]
      exact .flawless hnone
    | some message =>
      have hdefect := defect_iff.mpr h
      obtain ⟨e, hlast⟩ := hdefect.exists_isLast
      rw [reportsOn, h, AttributeMap.spanOf?, attributes,
        AttributeMap.get?_eq_some_iff.mpr ⟨_, hlast, rfl⟩]
      exact .defect hdefect hlast

theorem reportsOn_eq_nil_iff {c : Concern} :
    decl.reportsOn c = [] ↔ ∀ message, ¬ decl.Defect c message := by
  simp [reportsOn, defect_iff, Option.eq_none_iff_forall_ne_some]

theorem reported_iff {ds : List Diagnostic} : decl.Reported ds ↔ decl.reports = ds := by
  have hrows (rows : List (List Diagnostic)) : List.Forall₂ decl.ReportsOn Concern.all rows ↔
      Concern.all.map decl.reportsOn = rows := by
    have heq : decl.ReportsOn = fun c ds => decl.reportsOn c = ds := by
      funext c ds
      exact propext reportsOn_iff
    rw [← List.forall₂_eq_eq_eq, List.forall₂_map_left_iff, heq]
  simp only [Reported, AttributeMap.repeats_iff, hrows, exists_and_left, exists_eq_left']
  rw [reports_eq, List.flatMap_def, eq_comm]
  rfl

/-- A report has no scope of its own. -/
theorem scope_of_mem_reports {d : Diagnostic} (hd : d ∈ decl.reports) : d.scope = [] := by
  rw [reports_eq, List.mem_append, List.mem_flatMap] at hd
  rcases hd with hd | ⟨c, -, hd⟩
  · obtain ⟨e, a, rfl⟩ := AttributeMap.exists_of_mem_duplicatesFrom hd
    rfl
  · obtain ⟨message, -, rfl⟩ := List.mem_map.mp hd
    rfl

theorem analyze_bag (bag : Bag) : (decl.analyze bag).2 = ⟨bag.diagnostics ++ decl.reports.map
    fun d => { d with scope := bag.scopes ++ [decl.name.text] }, bag.scopes⟩ := by
  have hscope : decl.reports.map (Diagnostic.within (bag.scopes ++ [decl.name.text])) =
      decl.reports.map fun d => { d with scope := bag.scopes ++ [decl.name.text] } := by
    refine List.map_congr_left fun d hd => ?_
    rw [Diagnostic.within, scope_of_mem_reports hd, List.append_nil]
  rw [← hscope]
  simp [analyze, Bag.inScope, Bag.leave, Bag.enter]

/-- Resolving a field leaves the scopes as they are and adds what is reported, inside the open
    scopes and the scope of the field; it adds nothing exactly if no key comes again and nothing is
    wrong. -/
theorem analyze_bag_iff (decl : FieldDecl) (bag bag' : Bag) :
    ((decl.analyze bag).2 = bag' ↔ bag'.scopes = bag.scopes ∧
      ∃ ds, decl.Reported ds ∧ bag'.diagnostics = bag.diagnostics ++
        ds.map fun d => { d with scope := bag.scopes ++ [decl.name.text] }) ∧
    ((decl.analyze bag).2 = bag ↔ (decl.metadata.entries.map MetadataEntry.key).Nodup ∧
      ∀ c ∈ Concern.all, ∀ message, ¬ decl.Defect c message) := by
  rw [analyze_bag]
  constructor
  · simp only [reported_iff, exists_eq_left']
    cases bag'
    simp only [Bag.mk.injEq]
    rw [and_comm]
    exact and_congr eq_comm eq_comm
  · have hnil : decl.reports = [] ↔ (decl.metadata.entries.map MetadataEntry.key).Nodup ∧
        ∀ c ∈ Concern.all, ∀ message, ¬ decl.Defect c message := by
      rw [reports_eq, List.append_eq_nil_iff, AttributeMap.duplicates_eq_nil_iff,
        List.flatMap_eq_nil_iff]
      simp only [reportsOn_eq_nil_iff]
    rw [← hnil]
    cases bag
    simp

end FieldDecl

end FlatSchema
