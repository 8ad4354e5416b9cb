import FlatSchema.Definition.Handoff
import FlatSchema.Proofs.Definition.Concatenation
import FlatSchema.Proofs.Json.Writing

/-!
What is handed on can be read back. A definition without its places is determined by the value that
is written for it, and the value by each of its two texts.

A missing text and a missing number are `null`, while a field that is no vector and a field without
a setter each have a word, `"None"`: the two are not confused, as each key is read back in its own
way.
-/

namespace FlatSchema

/-! ### Reading values -/

namespace Json

def bool? : Json → Option Bool
  | bool b => some b
  | _ => none

def integer? : Json → Option Int
  | integer n => some n
  | _ => none

def string? : Json → Option String
  | string s => some s
  | _ => none

/-- The items of a list, each read in one way. -/
def list? {α : Type} (read : Json → Option α) : Json → Option (List α)
  | array items => items.mapM read
  | _ => none

/-- What may be missing. -/
def optional? {α : Type} (read : Json → Option α) : Json → Option (Option α)
  | null => some none
  | j => (read j).map some

/-- The option that has the word. -/
def word? {α : Type} (all : List α) (word : α → String) (j : Json) : Option α :=
  j.string?.bind fun text => all.find? fun a => word a == text

/-- The member of a key, read in one way. -/
def member? {α : Type} (key : String) (read : Json → Option α) : Json → Option α
  | object members => (members.lookup key).bind read
  | _ => none

theorem list?_map {α β : Type} {read : Json → Option β} {write : α → Json} {seen : α → β}
    (h : ∀ a, read (write a) = some (seen a)) (items : List α) :
    list? read (array (items.map write)) = some (items.map seen) := by
  induction items with
  | nil => rfl
  | cons a items ih =>
    rw [list?] at ih ⊢
    rw [List.map_cons, List.mapM_cons, h, ih]
    rfl

/-- What is never written as `null` can be told from what is missing. -/
theorem optional?_optional {α : Type} {read : Json → Option α} {write : α → Json}
    (hread : ∀ a, read (write a) = some a) (hnull : ∀ a, write a ≠ null) (o : Option α) :
    optional? read (optional write o) = some o := by
  cases o with
  | none => rfl
  | some a =>
    rw [optional, optional?, hread, Option.map_some]
    exact hnull a

theorem word?_string {α : Type} {all : List α} {word : α → String} {a : α}
    (h : all.find? (fun b => word b == word a) = some a) :
    word? all word (string (word a)) = some a := h

@[simp] theorem string?_string (s : String) : string? (string s) = some s := rfl

@[simp] theorem bool?_bool (b : Bool) : bool? (bool b) = some b := rfl

@[simp] theorem integer?_integer (n : Int) : integer? (integer n) = some n := rfl

@[simp] theorem list?_strings (items : List String) :
    list? string? (strings items) = some items := by
  rw [strings, list?_map string?_string, List.map_id']

@[simp] theorem optional?_string (o : Option String) :
    optional? string? (optional string o) = some o :=
  optional?_optional string?_string (fun _ => Json.noConfusion) o

@[simp] theorem optional?_bool (o : Option Bool) : optional? bool? (optional bool o) = some o :=
  optional?_optional bool?_bool (fun _ => Json.noConfusion) o

@[simp] theorem optional?_integer (o : Option Int) :
    optional? integer? (optional integer o) = some o :=
  optional?_optional integer?_integer (fun _ => Json.noConfusion) o

end Json

/-! ### Reading definitions -/

def VectorForm.ofJson? : Json → Option (Option VectorForm) :=
  Json.word? (none :: (Choice.all : List VectorForm).map some) VectorForm.label

def SetterKind.ofJson? : Json → Option SetterKind := Json.word? Choice.all Choice.word

def TypeKind.ofJson? : Json → Option TypeKind := Json.word? [.table, .struct] TypeKind.word

@[simp] theorem VectorForm.ofJson?_label (v : Option VectorForm) :
    ofJson? (.string (label v)) = some v := by
  refine Json.word?_string ?_
  rcases v with _ | v
  · rfl
  · cases v <;> decide +kernel

@[simp] theorem SetterKind.ofJson?_word (k : SetterKind) :
    ofJson? (.string (Choice.word k)) = some k := by
  refine Json.word?_string ?_
  cases k <;> decide +kernel

@[simp] theorem TypeKind.ofJson?_word (k : TypeKind) : ofJson? (.string k.word) = some k := by
  refine Json.word?_string ?_
  cases k <;> decide +kernel

/-- The field that a value describes. It is nowhere. -/
def FieldDefinition.ofJson? (j : Json) : Option FieldDefinition := do
  let name ← j.member? "name" Json.string?
  let type ← j.member? "fbsFieldType" Json.string?
  let vector ← j.member? "vectorType" VectorForm.ofJson?
  let isOptionalScalar ← j.member? "isOptionalScalar" Json.bool?
  let defaultValue ← j.member? "defaultValue" (Json.optional? Json.string?)
  let deprecated ← j.member? "deprecated" Json.bool?
  let isKey ← j.member? "isKey" Json.bool?
  let sortedVector ← j.member? "sortedVector" Json.bool?
  let sharedString ← j.member? "sharedString" Json.bool?
  let nonVirtual ← j.member? "nonVirtual" (Json.optional? Json.bool?)
  let index ← j.member? "index" (Json.optional? Json.integer?)
  let isIndexManual ← j.member? "isIndexSetManually" Json.bool?
  let setter ← j.member? "setterKind" SetterKind.ofJson?
  return ⟨name, type, vector, isOptionalScalar, defaultValue, deprecated, isKey, sortedVector,
    sharedString, nonVirtual, index, isIndexManual, setter, .empty⟩

def TypeDefinition.ofJson? (j : Json) : Option TypeDefinition := do
  let name ← j.member? "name" Json.string?
  let namespacePath ← j.member? "namespace" (Json.optional? Json.string?)
  let kind ← j.member? "kind" TypeKind.ofJson?
  let fields ← j.member? "fields" (Json.list? FieldDefinition.ofJson?)
  return ⟨name, namespacePath, kind, fields⟩

def EnumDefinition.ofJson? (j : Json) : Option EnumDefinition := do
  let name ← j.member? "name" Json.string?
  let namespacePath ← j.member? "namespace" (Json.optional? Json.string?)
  let isUnion ← j.member? "isUnion" Json.bool?
  let underlyingType ← j.member? "underlyingType" (Json.optional? Json.string?)
  let values ← j.member? "values" (Json.list? Json.string?)
  return ⟨name, namespacePath, if isUnion then .union else .enum, underlyingType, values⟩

def SchemaDefinition.ofJson? (j : Json) : Option SchemaDefinition := do
  let includes ← j.member? "includes" (Json.list? Json.string?)
  let declaredAttributes ← j.member? "declaredAttributes" (Json.list? Json.string?)
  let rootType ← j.member? "rootType" (Json.optional? Json.string?)
  let fileIdentifier ← j.member? "fileIdentifier" (Json.optional? Json.string?)
  let fileExtension ← j.member? "fileExtension" (Json.optional? Json.string?)
  let types ← j.member? "types" (Json.list? TypeDefinition.ofJson?)
  let enums ← j.member? "enums" (Json.list? EnumDefinition.ofJson?)
  return ⟨includes, declaredAttributes, rootType, fileIdentifier, fileExtension, types, enums⟩

/-- A definition without the places of its fields. -/
def SchemaDefinition.unplaced (s : SchemaDefinition) : SchemaDefinition :=
  { s with types := s.types.map (TypeDefinition.mapSpans nowhere) }

theorem FieldDefinition.ofJson?_toJson (f : FieldDefinition) :
    ofJson? f.toJson = some (f.mapSpan nowhere) := by
  simp [ofJson?, toJson, Json.member?, List.lookup_cons, mapSpan, nowhere]

theorem TypeDefinition.ofJson?_toJson (t : TypeDefinition) :
    ofJson? t.toJson = some (t.mapSpans nowhere) := by
  have hfields := Json.list?_map FieldDefinition.ofJson?_toJson t.fields
  simp [ofJson?, toJson, Json.member?, List.lookup_cons, hfields, mapSpans]

theorem EnumDefinition.ofJson?_toJson (e : EnumDefinition) : ofJson? e.toJson = some e := by
  obtain ⟨name, namespacePath, kind, underlyingType, values⟩ := e
  cases kind <;> simp [ofJson?, toJson, Json.member?, List.lookup_cons]

theorem SchemaDefinition.ofJson?_toJson (s : SchemaDefinition) :
    ofJson? s.toJson = some s.unplaced := by
  have htypes := Json.list?_map TypeDefinition.ofJson?_toJson s.types
  have henums := Json.list?_map EnumDefinition.ofJson?_toJson s.enums
  simp [ofJson?, toJson, Json.member?, List.lookup_cons, htypes, henums, unplaced]

/-! ### Texts -/

/-- Both texts of a definition say one and the same value and nothing else. The definition can be
    read back from the value, and definitions that share a text are the same up to places. -/
theorem SchemaDefinition.handoff_faithful (s : SchemaDefinition) :
    ∃ v : Json, (∀ layout w, Json.Says (s.handoff layout) w ↔ w = v) ∧
      ofJson? v = some s.unplaced ∧
      ∀ (s' : SchemaDefinition) (layout layout' : Json.Layout),
        s'.handoff layout' = s.handoff layout → s'.unplaced = s.unplaced := by
  have hvalid (s : SchemaDefinition) (layout : Json.Layout) :
      Json.Says (s.handoff layout) s.toJson := Json.says_render layout s.toJson
  refine ⟨s.toJson, ?_, s.ofJson?_toJson, ?_⟩
  · intro layout w
    constructor
    · exact fun hw => hw.unique (hvalid s layout)
    · rintro rfl
      exact hvalid s layout
  · intro s' layout layout' htext
    have hvalue : s'.toJson = s.toJson := by
      have hs' := hvalid s' layout'
      rw [htext] at hs'
      exact hs'.unique (hvalid s layout)
    have hread := s'.ofJson?_toJson
    rw [hvalue, ofJson?_toJson] at hread
    exact (Option.some.inj hread).symm

end FlatSchema
