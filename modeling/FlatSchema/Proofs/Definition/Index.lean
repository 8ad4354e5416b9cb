import FlatSchema.Proofs.Definition.Repetition
import FlatSchema.Proofs.Json.Writing
import FlatSchema.Proofs.Token.Writing
import Mathlib.Data.Nat.Digits.Defs

/-!
Indices given by hand. The text of an attribute tells a number if it is, up to white space around
it, one sign at most and at least one digit, and the number is that of the digits in base ten. Every
number that 32 bits hold is read as it is; a text that tells no number or another one is refused,
and none is read as a number that it does not tell.

        "7"   "+7"   " 007 "             ↦   7
        "-2147483648"                    ↦   -2³¹         reported as negative
        "2147483648"   "4294967303"      ↦   refused, as too large
        ""   "-"   "0x7"   "7.0"   "7 7" ↦   refused, as no number
-/

namespace FlatSchema

/-! ### Texts that tell a number -/

/-- The number of a row of digits: its last digit counts ones, the one before it tens. -/
def decimalValue (digits : List Char) : Nat :=
  Nat.ofDigits 10 (digits.reverse.map fun d => d.toNat - '0'.toNat)

/-- A text tells a number. -/
def Tells (text : String) (n : Int) : Prop :=
  ∃ before sign digits behind, text.toList = before ++ (sign ++ digits) ++ behind ∧
    (∀ c ∈ before, isBlank c = true) ∧ (∀ c ∈ behind, isBlank c = true) ∧
    digits ≠ [] ∧ (∀ d ∈ digits, d.isDigit = true) ∧
    ((sign = [] ∨ sign = ['+']) ∧ n = decimalValue digits ∨
      sign = ['-'] ∧ n = -decimalValue digits)

theorem decimalValue_concat (digits : List Char) (d : Char) :
    decimalValue (digits ++ [d]) = 10 * decimalValue digits + (d.toNat - '0'.toNat) := by
  rw [decimalValue, List.reverse_append, List.reverse_singleton, List.singleton_append,
    List.map_cons, Nat.ofDigits_cons, Nat.add_comm]
  rfl

theorem ofDigitChars_eq_decimalValue (digits : List Char) :
    Nat.ofDigitChars 10 digits 0 = decimalValue digits := by
  induction digits using List.reverseRecOn with
  | nil => rfl
  | append_singleton digits d ih =>
    rw [Nat.ofDigitChars_append, ih, decimalValue_concat]
    rfl

/-- A text tells the number of the numeral that trimming leaves of it. -/
theorem tells_iff {text : String} {n : Int} :
    Tells text n ↔ ∃ core, IsCore text.toList core ∧ IsNumeral core n := by
  constructor
  · rintro ⟨before, sign, digits, behind, htext, hbefore, hbehind, hne, hdigits, hvalue⟩
    have hsign : ∃ factor, (sign, factor) ∈ numeralSigns ∧ n = factor * decimalValue digits := by
      rcases hvalue with ⟨rfl | rfl, rfl⟩ | ⟨rfl, rfl⟩
      · exact ⟨1, by decide, by simp⟩
      · exact ⟨1, by decide, by simp⟩
      · exact ⟨-1, by decide, by simp⟩
    obtain ⟨factor, hmem, rfl⟩ := hsign
    refine ⟨sign ++ digits, ⟨⟨before, behind, htext, hbefore, hbehind⟩, ?_, ?_⟩, ?_⟩
    · obtain ⟨d, digits, rfl⟩ := List.exists_cons_of_ne_nil hne
      have hd := Piece.not_blank (.inr (hdigits d (List.mem_cons_self ..)))
      rcases hvalue with ⟨rfl | rfl, -⟩ | ⟨rfl, -⟩
      · simpa using hd
      · exact fun c hc => by cases hc; decide
      · exact fun c hc => by cases hc; decide
    · rw [List.getLast?_append_of_ne_nil _ hne]
      exact fun c hc => Piece.not_blank (.inr (hdigits c (List.mem_of_getLast? hc)))
    · rw [← ofDigitChars_eq_decimalValue]
      exact .mk hmem hne hdigits
  · rintro ⟨core, ⟨⟨before, behind, htext, hbefore, hbehind⟩, -, -⟩, ⟨hsign, hne, hdigits⟩⟩
    next sign digits factor =>
    refine ⟨before, sign, digits, behind, htext, hbefore, hbehind, hne, hdigits, ?_⟩
    rw [ofDigitChars_eq_decimalValue]
    simp only [numeralSigns, List.mem_cons, Prod.mk.injEq, List.not_mem_nil, or_false] at hsign
    rcases hsign with ⟨rfl, rfl⟩ | ⟨rfl, rfl⟩ | ⟨rfl, rfl⟩ <;> simp

theorem Tells.ne_empty {text : String} {n : Int} (h : Tells text n) : text ≠ "" := by
  rintro rfl
  obtain ⟨before, sign, digits, behind, htext, -, -, hne, -⟩ := h
  simp_all

/-- A text tells one number at most. -/
theorem Tells.unique {text : String} {n n' : Int} (h : Tells text n) (h' : Tells text n') :
    n = n' := by
  obtain ⟨core, hcore, hn⟩ := tells_iff.mp h
  obtain ⟨core', hcore', hn'⟩ := tells_iff.mp h'
  rw [isCore_iff] at hcore hcore'
  obtain rfl := hcore.symm.trans hcore'
  rw [← integer?_eq_some_iff] at hn hn'
  exact Option.some.inj (hn.symm.trans hn')

/-- A number is told by the text that it is written as. -/
theorem tells_toString (n : Int) : Tells (toString n) n := by
  obtain ⟨sign, digits, factor, hsign, hne, hdigits, htext, hn⟩ :
      ∃ sign digits factor, (sign, factor) ∈ Json.signs ∧ digits ≠ [] ∧
        (∀ d ∈ digits, d.isDigit = true) ∧ (toString n).toList = sign ++ digits ∧
        n = factor * Nat.ofDigitChars 10 digits 0 := by
    have hinteger := Json.isInteger_toString n
    generalize (toString n).toList = text at hinteger
    obtain ⟨hsign, hne, hdigits, -⟩ := hinteger
    exact ⟨_, _, _, hsign, hne, hdigits, rfl, rfl⟩
  refine ⟨[], sign, digits, [], by rw [htext, List.append_nil]; rfl, by simp, by simp, hne,
    hdigits, ?_⟩
  rw [hn, ofDigitChars_eq_decimalValue]
  simp only [Json.signs, List.mem_cons, Prod.mk.injEq, List.not_mem_nil, or_false] at hsign
  rcases hsign with ⟨rfl, rfl⟩ | ⟨rfl, rfl⟩ <;> simp

/-! ### Attributes as numbers -/

namespace AttributeMap

variable {m : AttributeMap} {key : String}

theorem saying_eq_text_iff {t : String} :
    m.saying key = .text t ↔ ∃ a, m.get? key = some a ∧ a.value = some t ∧ t ≠ "" := by
  unfold saying
  cases m.get? key with
  | none => simp
  | some a =>
    have htext : a.text? = some t ↔ a.value = some t ∧ t ≠ "" := by
      simp [Attribute.text?, Option.filter_eq_some_iff]
    simp only [Option.some.injEq, exists_eq_left', ← htext]
    cases a.text? <;> simp

theorem number_eq_value_iff_tells {n : Int} :
    m.number key = .value n ↔
      (∃ a t, m.get? key = some a ∧ a.value = some t ∧ Tells t n) ∧
        -2 ^ 31 ≤ n ∧ n ≤ 2 ^ 31 - 1 := by
  rw [number_eq_value_iff]
  constructor
  · rintro ⟨t, core, htext, hcore, hnumeral, hmin, hmax⟩
    obtain ⟨a, ha, hvalue, -⟩ := saying_eq_text_iff.mp htext
    exact ⟨⟨a, t, ha, hvalue, tells_iff.mpr ⟨core, hcore, hnumeral⟩⟩, by omega, by omega⟩
  · rintro ⟨⟨a, t, ha, hvalue, htells⟩, hmin, hmax⟩
    obtain ⟨core, hcore, hnumeral⟩ := tells_iff.mp htells
    exact ⟨t, core, saying_eq_text_iff.mpr ⟨a, ha, hvalue, htells.ne_empty⟩, hcore, hnumeral,
      by omega, by omega⟩

theorem number_eq_absent_iff_keys : m.number key = .absent ↔ key ∉ m.keys := by
  rw [number_eq_absent_iff, ← contains_eq_true_iff, ← saying_ne_nothing_iff, ne_eq, not_not]

/-- An attribute is refused if it is there and tells no number that 32 bits hold. -/
theorem number_eq_invalid_iff : m.number key = .invalid ↔ key ∈ m.keys ∧
    ∀ a t n, m.get? key = some a → a.value = some t → Tells t n → n < -2 ^ 31 ∨ 2 ^ 31 - 1 < n := by
  have habsent := @number_eq_absent_iff_keys m key
  have hvalue (n : Int) := @number_eq_value_iff_tells m key n
  cases h : m.number key with
  | absent =>
    refine iff_of_false (by simp) fun hkeys => ?_
    exact habsent.mp h hkeys.1
  | value n =>
    obtain ⟨⟨a, t, ha, ht, htells⟩, hmin, hmax⟩ := (hvalue n).mp h
    refine iff_of_false (by simp) fun hrefused => ?_
    rcases hrefused.2 a t n ha ht htells with hlow | hhigh
    · omega
    · omega
  | invalid =>
    refine iff_of_true rfl ⟨?_, fun a t n ha ht htells => ?_⟩
    · rw [← not_not (a := key ∈ m.keys), ← habsent, h]
      simp
    · have hnot := mt (hvalue n).mpr (by simp [h])
      by_contra hin
      exact hnot ⟨⟨a, t, ha, ht, htells⟩, by omega, by omega⟩

end AttributeMap

/-! ### Indices of fields -/

/-- Whether a report is about the value of an index, by its message. -/
def isAboutIndex (d : Diagnostic) : Bool :=
  "value of `id` attribute".toList.isPrefixOf d.message.toList

theorem head?_of_isAboutIndex {d : Diagnostic} (h : isAboutIndex d = true) :
    d.message.toList.head? = some 'v' := by
  obtain ⟨more, hmore⟩ := List.isPrefixOf_iff_prefix.mp h
  rw [← hmore]
  rfl

theorem not_isAboutIndex_duplicates (entries : List MetadataEntry) :
    ∀ d ∈ AttributeMap.duplicates entries, isAboutIndex d = false := by
  intro d hd
  obtain ⟨e, a, rfl⟩ := AttributeMap.exists_of_mem_duplicatesFrom hd
  refine Bool.eq_false_iff.mpr fun habout => ?_
  have hhead := head?_of_isAboutIndex habout
  simp [AttributeMap.duplicateWarning, Diagnostic.relatedTo, Diagnostic.warningAt,
    toString] at hhead

namespace FieldDecl

variable {decl : FieldDecl}

theorem head?_invalidValue (key text expected : String) :
    (invalidValue key text expected).toList.head? = some 'i' := by
  unfold invalidValue
  simp [toString]

/-- What is wrong with another concern is said in other words. -/
theorem Defect.head?_message {c : Concern} {message : String} (h : decl.Defect c message)
    (hc : c ≠ .index) : message.toList.head? ≠ some 'v' := by
  cases h with
  | indexNotSet => exact absurd rfl hc
  | negativeIndex => exact absurd rfl hc
  | vectorFormWithoutVector => simp [toString]
  | unknownVectorForm => simp [toString]
  | flag => rw [head?_invalidValue]; decide
  | setter => rw [head?_invalidValue]; decide
  | unsupported => simp [toString]

theorem Defect.isAboutIndex {message : String} (h : decl.Defect .index message) (span : Span) :
    isAboutIndex (.errorAt message span) = true := by
  rw [FlatSchema.isAboutIndex, List.isPrefixOf_iff_prefix]
  cases h with
  | indexNotSet =>
    refine ⟨" should be set if the attribute is present".toList, ?_⟩
    rw [← String.toList_append]
    exact congrArg String.toList
      (show _ = "value of `id` attribute should be set if the attribute is present" by decide)
  | @negativeIndex s n =>
    refine ⟨(s!" {n} of field `{decl.name.text}` is negative").toList, ?_⟩
    simp [Diagnostic.errorAt, toString]

/-- Among the reports on a field those about the value of its index are what the index gives. -/
theorem filter_isAboutIndex_reports (decl : FieldDecl) :
    decl.reports.filter isAboutIndex = decl.idReports := by
  have hother (c : Concern) (hc : c ≠ .index) :
      (decl.reportsOn c).filter isAboutIndex = [] := by
    rw [List.filter_eq_nil_iff]
    intro d hd habout
    obtain ⟨message, hmessage, rfl⟩ := List.mem_map.mp hd
    have hdefect := defect_iff.mpr (Option.mem_toList.mp hmessage)
    exact hdefect.head?_message hc (head?_of_isAboutIndex habout)
  have hindex : (decl.reportsOn .index).filter isAboutIndex = decl.reportsOn .index := by
    rw [List.filter_eq_self]
    intro d hd
    obtain ⟨message, hmessage, rfl⟩ := List.mem_map.mp hd
    exact (defect_iff.mpr (Option.mem_toList.mp hmessage)).isAboutIndex _
  have hduplicates : (AttributeMap.duplicates decl.metadata.entries).filter isAboutIndex = [] := by
    rw [List.filter_eq_nil_iff]
    intro d hd
    simp [not_isAboutIndex_duplicates _ d hd]
  rw [reports_eq, idReports_eq, List.filter_append, hduplicates, List.nil_append]
  simp [Concern.all, hother, hindex]

/-- What there is to report about an index whose text tells a number. -/
theorem idReports_of_tells {e : MetadataEntry} {v : Spelling} {n : Int}
    (hlast : AttributeMap.IsLast decl.metadata.entries "id" e) (hv : e.value = some v)
    (hn : Tells v.text n) :
    decl.index = (if -2 ^ 31 ≤ n ∧ n ≤ 2 ^ 31 - 1 then some n else none) ∧
      decl.idReports =
        if -2 ^ 31 ≤ n ∧ n ≤ 2 ^ 31 - 1 then
          if n < 0 then [.errorAt (FieldProblem.negativeId n decl.name.text).message e.span] else []
        else [.errorAt FieldProblem.idWithoutNumber.message e.span] := by
  have hget : decl.attributes.get? "id" = some (AttributeMap.attributeOf e) :=
    AttributeMap.get?_eq_some_iff.mpr ⟨e, hlast, rfl⟩
  have hvalue : (AttributeMap.attributeOf e).value = some v.text := by
    rw [AttributeMap.attributeOf, hv]
    rfl
  have hproblem (problem : FieldProblem) :
      decl.problemAt "id" problem = .errorAt problem.message e.span := by
    rw [problemAt, AttributeMap.spanOf?, hget]
    rfl
  by_cases hfits : -2 ^ 31 ≤ n ∧ n ≤ 2 ^ 31 - 1
  · have hnumber : decl.attributes.number "id" = .value n :=
      AttributeMap.number_eq_value_iff_tells.mpr ⟨⟨_, _, hget, hvalue, hn⟩, hfits.1, hfits.2⟩
    rw [index, idReports, hnumber, if_pos hfits, if_pos hfits]
    exact ⟨rfl, by simp only [hproblem]⟩
  · have hnumber : decl.attributes.number "id" = .invalid := by
      refine AttributeMap.number_eq_invalid_iff.mpr ⟨?_, fun a t k ha ht hk => ?_⟩
      · rw [← AttributeMap.contains_eq_true_iff, AttributeMap.contains, hget]
        rfl
      · obtain rfl := Option.some.inj (hget.symm.trans ha)
        obtain rfl := Option.some.inj (hvalue.symm.trans ht)
        obtain rfl := hn.unique hk
        omega
    rw [index, idReports, hnumber, if_neg hfits, if_neg hfits, hproblem]
    exact ⟨rfl, rfl⟩

end FieldDecl

/-- Numbers are read exactly. An attribute is read as the number that its text tells, if 32 bits
    hold that number, and refused if its text tells no such number; so an index is the number that
    its text tells or it is none, and it is reported exactly if 32 bits do not hold that number or
    it is negative. A number that is written down is told by its text. -/
theorem AttributeMap.number_exact (m : AttributeMap) (key : String) :
    (∀ n, m.number key = .value n ↔
      (∃ a t, m.get? key = some a ∧ a.value = some t ∧ Tells t n) ∧
        -2 ^ 31 ≤ n ∧ n ≤ 2 ^ 31 - 1) ∧
    (m.number key = .invalid ↔ key ∈ m.keys ∧ ∀ a t n, m.get? key = some a →
      a.value = some t → Tells t n → n < -2 ^ 31 ∨ 2 ^ 31 - 1 < n) ∧
    (m.number key = .absent ↔ key ∉ m.keys) ∧
    (∀ (decl : FieldDecl) (bag : Bag) (e : MetadataEntry) (v : Spelling) (n : Int),
      IsLast decl.metadata.entries "id" e → e.value = some v → Tells v.text n →
      (decl.analyze bag).1.index = (if -2 ^ 31 ≤ n ∧ n ≤ 2 ^ 31 - 1 then some n else none) ∧
      (decl.analyze bag).1.isIndexManual = decide (-2 ^ 31 ≤ n ∧ n ≤ 2 ^ 31 - 1) ∧
      ∃ reports, (decl.analyze bag).2.diagnostics = bag.diagnostics ++ reports ∧
        (reports.filter isAboutIndex).map (fun d => (d.severity, d.message, d.span)) =
          if -2 ^ 31 ≤ n ∧ n ≤ 2 ^ 31 - 1 then
            if n < 0 then
              [(.error, s!"value of `id` attribute {n} of field `{decl.name.text}` is negative",
                some e.span)]
            else []
          else
            [(.error, "value of `id` attribute should be set if the attribute is present",
              some e.span)]) ∧
    ∀ n : Int, Tells (toString n) n := by
  refine ⟨fun n => number_eq_value_iff_tells, number_eq_invalid_iff, number_eq_absent_iff_keys,
    fun decl bag e v n hlast hv hn => ?_, tells_toString⟩
  obtain ⟨hindex, hreports⟩ := decl.idReports_of_tells hlast hv hn
  have hmanual : (decl.analyze bag).1.isIndexManual = decl.index.isSome := rfl
  refine ⟨hindex, ?_, decl.reports.map fun d => { d with scope := bag.scopes ++ [decl.name.text] },
    ?_, ?_⟩
  · rw [hmanual, hindex]
    split <;> simp_all
  · rw [FieldDecl.analyze_bag]
  · have hscoped : (isAboutIndex ∘ fun d : Diagnostic =>
        { d with scope := bag.scopes ++ [decl.name.text] }) = isAboutIndex := rfl
    rw [List.filter_map, hscoped, FieldDecl.filter_isAboutIndex_reports, hreports]
    split
    · split <;> rfl
    · rfl

/-- An index that is given to a field, and the smallest one given to it after that. -/
def smallestIndex : List MetadataEntry :=
  [⟨"id", some ⟨"7", default⟩, default⟩, ⟨"id", some ⟨"-2147483648", default⟩, default⟩]

def smallestIndexField : FieldDecl :=
  ⟨⟨"hp", default⟩, ⟨"int", default⟩, none, ⟨smallestIndex, none⟩, default⟩

theorem AttributeMap.number_exact_smallest :
    IsLast smallestIndexField.metadata.entries "id"
        ⟨"id", some ⟨"-2147483648", default⟩, default⟩ ∧
      Tells "-2147483648" (-2147483648) ∧
      (smallestIndexField.analyze {}).1.index = some (-2147483648) := by
  have hlast : IsLast smallestIndexField.metadata.entries "id"
      ⟨"id", some ⟨"-2147483648", default⟩, default⟩ :=
    ⟨[⟨"id", some ⟨"7", default⟩, default⟩], [], rfl, rfl, by simp⟩
  obtain ⟨-, -, -, hfield, htells⟩ := number_exact (ofEntries smallestIndex) "id"
  have hvalue := htells (-2147483648)
  exact ⟨hlast, hvalue, (hfield smallestIndexField {} _ _ _ hlast rfl hvalue).1.trans (by decide)⟩

end FlatSchema
