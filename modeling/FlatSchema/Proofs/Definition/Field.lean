import FlatSchema.Definition.Field
import FlatSchema.Proofs.Definition.Attributes

/-!
What a field resolves to. Every property of a resolved field is stated by itself, in terms of the
type text, the text of the default, and what the attributes say about one key; together these pin
down the definition, and resolving a field gives exactly it.

        hp: [int8] = 7 (vectortype: " array ", id: 2, key, id: "3")
        ↦   name hp · type int8 · vector Array · default 7 · index 3 · key · setter Public
-/

namespace FlatSchema

/-! ### Choices -/

/-- The options of a choice are all listed, and no two of them have the same word. -/
class DistinctChoice (α : Type) [Choice α] : Prop where
  mem_all : ∀ a : α, a ∈ (Choice.all : List α)
  eq_of_word : ∀ a b : α, sameLetters (Choice.word a) (Choice.word b) = true → a = b

instance : DistinctChoice VectorForm where
  mem_all a := by cases a <;> decide
  eq_of_word a b := by cases a <;> cases b <;> decide

instance : DistinctChoice SetterKind where
  mem_all a := by cases a <;> decide
  eq_of_word a b := by cases a <;> cases b <;> decide

section Choices

variable {α : Type} [Choice α]

/-- What is said about a key chooses the option it names, and a fallback if it names none. -/
inductive Chooses (fallback : α) : Saying → α → Prop where
  | named {t : String} {a : α} : Names t (Choice.word a) → Chooses fallback (.text t) a
  | other {s : Saying} : (∀ t (a : α), s = .text t → ¬ Names t (Choice.word a)) →
      Chooses fallback s fallback

theorem sameLetters_comm (a b : String) : sameLetters a b = sameLetters b a := by
  rw [sameLetters, sameLetters, Bool.beq_comm]

theorem names_of_ofWord? {t : String} {a : α} (h : Choice.ofWord? (trimString t) = some a) :
    Names t (Choice.word a) := by
  rw [names_iff, sameLetters_comm]
  exact List.find?_some (p := fun a => sameLetters (Choice.word a) (trimString t)) h

theorem ofWord?_eq_some_iff [DistinctChoice α] {t : String} {a : α} :
    Choice.ofWord? (trimString t) = some a ↔ Names t (Choice.word a) := by
  refine ⟨names_of_ofWord?, fun h => ?_⟩
  cases hfind : (Choice.ofWord? (trimString t) : Option α) with
  | none =>
    have hnot := List.find?_eq_none.mp hfind a (DistinctChoice.mem_all a)
    rw [names_iff, sameLetters_comm] at h
    exact absurd h hnot
  | some b => rw [DistinctChoice.eq_of_word b a (sameLetters_of_names (names_of_ofWord? hfind) h)]

theorem ofWord?_eq_none_iff [DistinctChoice α] {t : String} :
    (Choice.ofWord? (trimString t) : Option α) = none ↔ ∀ a : α, ¬ Names t (Choice.word a) := by
  simp only [Option.eq_none_iff_forall_ne_some, ne_eq, ofWord?_eq_some_iff]

/-- The option that is chosen. -/
def chosen (fallback : α) : Saying → α
  | .text t => (Choice.ofWord? (trimString t)).getD fallback
  | _ => fallback

theorem chooses_iff [DistinctChoice α] {fallback a : α} {s : Saying} :
    Chooses fallback s a ↔ chosen fallback s = a := by
  constructor
  · intro h
    cases h with
    | named h => rw [chosen, ofWord?_eq_some_iff.mpr h, Option.getD_some]
    | other h =>
      cases s with
      | text t => rw [chosen, ofWord?_eq_none_iff.mpr fun a => h t a rfl, Option.getD_none]
      | _ => rfl
  · rintro rfl
    cases s with
    | text t =>
      cases hword : (Choice.ofWord? (trimString t) : Option α) with
      | some a =>
        rw [chosen, hword, Option.getD_some]
        exact .named (ofWord?_eq_some_iff.mp hword)
      | none =>
        rw [chosen, hword, Option.getD_none]
        refine .other ?_
        intro _ a hs
        rw [← Saying.text.inj hs]
        exact ofWord?_eq_none_iff.mp hword a
    | _ => exact .other (by rintro _ _ ⟨⟩)

end Choices

/-! ### Flags -/

/-- What is said about a key sets a flag: `of b` if it names the truth value `b`, `bare` for the
    bare key, and `absent` otherwise. -/
inductive Sets {α : Type} (absent bare : α) (of : Bool → α) : Saying → α → Prop where
  | nothing : Sets absent bare of .nothing absent
  | bare : Sets absent bare of .bare bare
  | truth {t : String} {b : Bool} : Names t (if b then "true" else "false") →
      Sets absent bare of (.text t) (of b)
  | other {t : String} : ¬ Names t "true" → ¬ Names t "false" → Sets absent bare of (.text t) absent

/-- The value that a flag is set to. -/
def settled {α : Type} (absent bare : α) (of : Bool → α) : Saying → α
  | .nothing => absent
  | .bare => bare
  | .text t => ((truth? t).map of).getD absent

theorem sets_iff {α : Type} {absent bare a : α} {of : Bool → α} {s : Saying} :
    Sets absent bare of s a ↔ settled absent bare of s = a := by
  constructor
  · intro h
    cases h with
    | nothing => rfl
    | bare => rfl
    | truth h => rw [settled, truth?_eq_some_iff.mpr h, Option.map_some, Option.getD_some]
    | other htrue hfalse =>
      rw [settled, truth?_eq_none_iff.mpr ⟨htrue, hfalse⟩, Option.map_none, Option.getD_none]
  · rintro rfl
    cases s with
    | nothing => exact .nothing
    | bare => exact .bare
    | text t =>
      cases htruth : truth? t with
      | some b =>
        rw [settled, htruth, Option.map_some, Option.getD_some]
        exact .truth (truth?_eq_some_iff.mp htruth)
      | none =>
        rw [settled, htruth, Option.map_none, Option.getD_none]
        obtain ⟨htrue, hfalse⟩ := truth?_eq_none_iff.mp htruth
        exact .other htrue hfalse

/-! ### Types -/

/-- The element type in `inner`, the text behind a left bracket: a right bracket at the end is no
    part of it. -/
inductive Element : List Char → List Char → Prop where
  | closed {elem : List Char} : Element (elem ++ [']']) elem
  | unclosed {elem : List Char} : elem.getLast? ≠ some ']' → Element elem elem

/-- A type text resolves to a type and a vector form, given what is said about the form. -/
inductive TypeResolves (form : Saying) : List Char → List Char → Option VectorForm → Prop where
  | plain {text : List Char} : text.head? ≠ some '[' → TypeResolves form text text none
  | vector {inner elem : List Char} {f : VectorForm} : Element inner elem → Chooses .list form f →
      TypeResolves form ('[' :: inner) elem (some f)

theorem element_iff {inner elem : List Char} :
    Element inner elem ↔ (if inner.getLast? = some ']' then inner.dropLast else inner) = elem := by
  constructor
  · rintro (_ | h)
    · simp
    · rw [if_neg h]
  · rintro rfl
    split
    · next h =>
      obtain ⟨elem, rfl⟩ := List.getLast?_eq_some_iff.mp h
      rw [List.dropLast_concat]
      exact .closed
    · next h => exact .unclosed h

theorem elementType?_of_head_ne {text : String} (h : text.toList.head? ≠ some '[') :
    elementType? text = none := by
  unfold elementType?
  split
  · next inner htext => exact absurd (by rw [htext]; rfl) h
  · rfl

theorem elementType?_of_cons {text : String} {inner : List Char} (h : text.toList = '[' :: inner) :
    elementType? text =
      some (String.ofList (if inner.getLast? = some ']' then inner.dropLast else inner)) := by
  rw [elementType?, h]
  rfl

theorem typeResolves_iff {form : Saying} {text : String} {type : List Char}
    {vector : Option VectorForm} :
    TypeResolves form text.toList type vector ↔
      ((elementType? text).getD text).toList = type ∧
        (if (elementType? text).isSome then some (chosen .list form) else none) = vector := by
  by_cases hhead : text.toList.head? = some '['
  · obtain ⟨inner, htext⟩ := List.head?_eq_some_iff.mp hhead
    rw [elementType?_of_cons htext, htext, Option.getD_some, Option.isSome_some, if_pos rfl,
      String.toList_ofList]
    constructor
    · rintro (h | ⟨helem, hform⟩)
      · exact absurd rfl h
      · exact ⟨element_iff.mp helem, congrArg some (chooses_iff.mp hform)⟩
    · rintro ⟨helem, rfl⟩
      exact .vector (element_iff.mpr helem) (chooses_iff.mpr rfl)
  · rw [elementType?_of_head_ne hhead, Option.getD_none, Option.isSome_none, if_neg (by simp)]
    constructor
    · intro h
      generalize text.toList = a at h hhead
      cases h with
      | plain => exact ⟨rfl, rfl⟩
      | vector => exact absurd rfl hhead
    · rintro ⟨rfl, rfl⟩
      exact .plain hhead

/-! ### Fields -/

/-- A field resolves to a definition. -/
structure FieldDecl.Resolves (decl : FieldDecl) (d : FieldDefinition) : Prop where
  name : d.name = decl.name.text
  span : d.span = decl.span
  type : ∃ form, Says decl.metadata.entries "vectortype" form ∧
    TypeResolves form decl.type.text.toList d.type.toList d.vector
  isOptionalScalar : d.isOptionalScalar = true ↔ ∃ v, decl.default = some v ∧ v.text = "null"
  defaultValue : ∀ t, d.defaultValue = some t ↔
    ∃ v, decl.default = some v ∧ v.text = t ∧ t ≠ "" ∧ t ≠ "null"
  deprecated : ∃ s, Says decl.metadata.entries "deprecated" s ∧ Sets false true id s d.deprecated
  isKey : ∃ s, Says decl.metadata.entries "key" s ∧ Sets false true id s d.isKey
  sortedVector : ∃ s, Says decl.metadata.entries "sortedvector" s ∧
    Sets false true id s d.sortedVector
  sharedString : ∃ s, Says decl.metadata.entries "sharedstring" s ∧
    Sets false true id s d.sharedString
  nonVirtual : ∃ s, Says decl.metadata.entries "nonVirtual" s ∧
    Sets none (some true) some s d.nonVirtual
  setter : ∃ s, Says decl.metadata.entries "setter" s ∧ Chooses .publicSetter s d.setter
  index : ∀ n, d.index = some n ↔ ∃ t core, Says decl.metadata.entries "id" (.text t) ∧
    IsCore t.toList core ∧ IsNumeral core n ∧ -0x80000000 ≤ n ∧ n < 0x80000000
  isIndexManual : d.isIndexManual = true ↔ ∃ n, d.index = some n

theorem exists_says_iff {entries : List MetadataEntry} {key : String} {p : Saying → Prop} :
    (∃ s, Says entries key s ∧ p s) ↔ p ((AttributeMap.ofEntries entries).saying key) := by
  simp only [AttributeMap.says_iff, exists_eq_left']

theorem flag_value_eq (m : AttributeMap) (key : String) :
    (AttributeRule.flag key).value m = settled false true id (m.saying key) := by
  rw [AttributeRule.value_eq]
  cases h : m.saying key <;> simp [h, settled, AttributeRule.flag]

theorem optionalFlag_value_eq (m : AttributeMap) (key : String) :
    (AttributeRule.optionalFlag key).value m = settled none (some true) some (m.saying key) := by
  rw [AttributeRule.value_eq]
  cases h : m.saying key <;> simp [h, settled, AttributeRule.optionalFlag]

theorem setterRule_value_eq (m : AttributeMap) :
    setterRule.value m = chosen .publicSetter (m.saying "setter") := by
  rw [AttributeRule.value_eq]
  cases h : m.saying "setter" <;> simp [h, chosen, setterRule]

namespace FieldDecl

variable (decl : FieldDecl)

theorem vector_eq :
    decl.vector = if (elementType? decl.type.text).isSome then
      some (chosen .list (decl.attributes.saying "vectortype")) else none := by
  have hform : (((decl.attributes.get? "vectortype").bind fun a =>
      Choice.ofWord? (trimString (a.text?.getD ""))).getD .list) =
      chosen VectorForm.list (decl.attributes.saying "vectortype") := by
    -- No vector form is named by an empty text.
    have hempty : (Choice.ofWord? (trimString "") : Option VectorForm) = none := by decide
    unfold AttributeMap.saying
    cases decl.attributes.get? "vectortype" with
    | none => rfl
    | some a =>
      cases htext : a.text? with
      | none => simp only [Option.bind_some, htext, Option.getD_none, hempty, chosen]
      | some t => simp only [Option.bind_some, htext, Option.getD_some, chosen]
  rw [vector, isVector, hform]

theorem isOptionalScalar_iff :
    decl.isOptionalScalar = true ↔ ∃ v, decl.default = some v ∧ v.text = "null" := by
  simp [isOptionalScalar]

theorem defaultValue_eq_some_iff (t : String) :
    decl.defaultValue = some t ↔ ∃ v, decl.default = some v ∧ v.text = t ∧ t ≠ "" ∧ t ≠ "null" := by
  rw [defaultValue, Option.filter_eq_some_iff, Option.map_eq_some_iff]
  constructor
  · rintro ⟨⟨v, hv, rfl⟩, hkept⟩
    simp only [Bool.and_eq_true, bne_iff_ne, Bool.not_eq_true', String.isEmpty_eq_false_iff]
      at hkept
    exact ⟨v, hv, rfl, hkept.2, hkept.1⟩
  · rintro ⟨v, hv, rfl, hempty, hnull⟩
    exact ⟨⟨v, hv, rfl⟩, by simp [hempty, hnull]⟩

theorem index_eq_some_iff (n : Int) :
    decl.index = some n ↔ ∃ t core, Says decl.metadata.entries "id" (.text t) ∧
      IsCore t.toList core ∧ IsNumeral core n ∧ -0x80000000 ≤ n ∧ n < 0x80000000 := by
  simp only [AttributeMap.says_iff]
  rw [← attributes, ← AttributeMap.number_eq_value_iff, index]
  split
  · next m h => rw [h, Option.some.injEq, NumberAttribute.value.injEq]
  · next h => exact iff_of_false (by simp) (h n)

theorem exists_typeResolves_iff {type : List Char} {vector : Option VectorForm} :
    (∃ form, Says decl.metadata.entries "vectortype" form ∧
        TypeResolves form decl.type.text.toList type vector) ↔
      ((elementType? decl.type.text).getD decl.type.text).toList = type ∧ decl.vector = vector := by
  rw [exists_says_iff, typeResolves_iff, vector_eq, attributes]

theorem exists_flag_iff (key : String) {b : Bool} :
    (∃ s, Says decl.metadata.entries key s ∧ Sets false true id s b) ↔
      (AttributeRule.flag key).value decl.attributes = b := by
  rw [exists_says_iff, sets_iff, flag_value_eq, attributes]

theorem exists_optionalFlag_iff (key : String) {b : Option Bool} :
    (∃ s, Says decl.metadata.entries key s ∧ Sets none (some true) some s b) ↔
      (AttributeRule.optionalFlag key).value decl.attributes = b := by
  rw [exists_says_iff, sets_iff, optionalFlag_value_eq, attributes]

theorem exists_setter_iff {k : SetterKind} :
    (∃ s, Says decl.metadata.entries "setter" s ∧ Chooses .publicSetter s k) ↔
      setterRule.value decl.attributes = k := by
  rw [exists_says_iff, chooses_iff, setterRule_value_eq, attributes]

/-- The definition that a field resolves to has every property. -/
theorem resolves_definition : decl.Resolves decl.definition where
  name := rfl
  span := rfl
  type := decl.exists_typeResolves_iff.mpr ⟨rfl, rfl⟩
  isOptionalScalar := decl.isOptionalScalar_iff
  defaultValue := decl.defaultValue_eq_some_iff
  deprecated := (decl.exists_flag_iff _).mpr rfl
  isKey := (decl.exists_flag_iff _).mpr rfl
  sortedVector := (decl.exists_flag_iff _).mpr rfl
  sharedString := (decl.exists_flag_iff _).mpr rfl
  nonVirtual := (decl.exists_optionalFlag_iff _).mpr rfl
  setter := decl.exists_setter_iff.mpr rfl
  index := decl.index_eq_some_iff
  isIndexManual := Option.isSome_iff_exists

/-- The properties leave nothing open. -/
theorem Resolves.definition_eq {decl : FieldDecl} {d : FieldDefinition} (h : decl.Resolves d) :
    decl.definition = d := by
  have htype := decl.exists_typeResolves_iff.mp h.type
  have hoptional : decl.isOptionalScalar = d.isOptionalScalar := by
    rw [Bool.eq_iff_iff, decl.isOptionalScalar_iff, h.isOptionalScalar]
  have hdefault : decl.defaultValue = d.defaultValue := by
    refine Option.ext fun t => ?_
    rw [decl.defaultValue_eq_some_iff, h.defaultValue]
  have hindex : decl.index = d.index := by
    refine Option.ext fun n => ?_
    rw [decl.index_eq_some_iff, h.index]
  have hmanual : decl.index.isSome = d.isIndexManual := by
    rw [Bool.eq_iff_iff, h.isIndexManual, hindex, Option.isSome_iff_exists]
  cases d
  rw [definition, FieldDefinition.mk.injEq]
  exact ⟨h.name.symm, String.toList_inj.mp htype.1, htype.2, hoptional, hdefault,
    (decl.exists_flag_iff _).mp h.deprecated, (decl.exists_flag_iff _).mp h.isKey,
    (decl.exists_flag_iff _).mp h.sortedVector, (decl.exists_flag_iff _).mp h.sharedString,
    (decl.exists_optionalFlag_iff _).mp h.nonVirtual, hindex, hmanual,
    decl.exists_setter_iff.mp h.setter, h.span.symm⟩

/-- A field resolves to one definition, and resolving it gives this definition, whatever has been
    reported before. -/
theorem resolves_iff (bag : Bag) (d : FieldDefinition) :
    decl.Resolves d ↔ (decl.analyze bag).1 = d := by
  have hanalyze : (decl.analyze bag).1 = decl.definition := rfl
  rw [hanalyze]
  constructor
  · exact Resolves.definition_eq
  · rintro rfl
    exact decl.resolves_definition

end FieldDecl

end FlatSchema
