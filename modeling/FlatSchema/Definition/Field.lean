import FlatSchema.Definition
import FlatSchema.Definition.Attributes
import FlatSchema.Diagnostic.Bag
import FlatSchema.Log

/-!
Resolving one field. The definition is complete whatever is wrong with the declaration; what is
wrong is found in five steps, and reports come in the order of the steps.

        step         decides                              reports
        type         element type, vector form            vectortype without a vector, unknown form
        default      optional scalar, default value       nothing
        flags        deprecated … nonVirtual, setter      texts that are not accepted
        id           index                                no number, negative number
        unsupported  nothing                              attributes this compiler rejects
-/

namespace FlatSchema

/-- What can be wrong with a field, apart from texts that a rule does not accept. -/
inductive FieldProblem where
  | vectorFormWithoutVector (field : String)
  | unknownVectorForm (text : String)
  | idWithoutNumber
  | negativeId (id : Int) (field : String)
  | unsupported (key : String)
deriving DecidableEq, Inhabited

def FieldProblem.message : FieldProblem → String
  | .vectorFormWithoutVector field =>
    s!"non-vector field `{field}` may not have the `vectortype` attribute"
  | .unknownVectorForm text =>
    s!"unable to parse `{text}` as a vector type; valid choices are: {Choice.listing VectorForm}"
  | .idWithoutNumber => "value of `id` attribute should be set if the attribute is present"
  | .negativeId id field => s!"value of `id` attribute {id} of field `{field}` is negative"
  | .unsupported key => s!"the `{key}` attribute is not supported"

/-- The steps of resolving a field, in their order. -/
inductive FieldStep where
  | type
  | default
  | flags
  | id
  | unsupported
deriving DecidableEq, Inhabited

namespace FieldStep

def all : List FieldStep := [type, default, flags, id, unsupported]

def name : FieldStep → String
  | type => "type"
  | default => "default"
  | flags => "flags"
  | id => "id"
  | unsupported => "unsupported"

end FieldStep

/-- The attributes that this compiler rejects. -/
def unsupportedAttributes : List String :=
  ["required", "force_align", "bit_flags", "flexbuffer", "hash", "original_order"]

/-- Who may set the field; everybody may, unless said otherwise. -/
def setterRule : AttributeRule SetterKind where
  key := "setter"
  absent := .publicSetter
  present := .publicSetter
  expected := s!"one of: {Choice.listing SetterKind}"
  accept text := Choice.ofWord? (trimString text)

/-- The element type of a bracketed type text: the text behind the left bracket, without a right
    bracket at its end. None of a text that does not start with a bracket. -/
def elementType? (typeText : String) : Option String :=
  match typeText.toList with
  | '[' :: inner =>
    some (String.ofList (if inner.getLast? = some ']' then inner.dropLast else inner))
  | _ => none

namespace FieldDecl

def attributes (decl : FieldDecl) : AttributeMap := .ofEntries decl.metadata.entries

def isVector (decl : FieldDecl) : Bool := (elementType? decl.type.text).isSome

/-- The vector form a vector asks for, and a list if it asks for none or for an unknown one. -/
def vector (decl : FieldDecl) : Option VectorForm :=
  if decl.isVector then
    some (((decl.attributes.get? "vectortype").bind fun a =>
      Choice.ofWord? (trimString (a.text?.getD ""))).getD .list)
  else none

/-- The default that marks an optional scalar. -/
def isOptionalScalar (decl : FieldDecl) : Bool := (decl.default.map Spelling.text) == some "null"

/-- A default that is not empty and does not mark an optional scalar. -/
def defaultValue (decl : FieldDecl) : Option String :=
  (decl.default.map Spelling.text).filter fun text => text != "null" && !text.isEmpty

/-- The index given by hand, negative or not. -/
def index (decl : FieldDecl) : Option Int :=
  match decl.attributes.number "id" with
  | .value n => some n
  | _ => none

/-- The resolved field. -/
def definition (decl : FieldDecl) : FieldDefinition where
  name := decl.name.text
  type := (elementType? decl.type.text).getD decl.type.text
  vector := decl.vector
  isOptionalScalar := decl.isOptionalScalar
  defaultValue := decl.defaultValue
  deprecated := (AttributeRule.flag "deprecated").value decl.attributes
  isKey := (AttributeRule.flag "key").value decl.attributes
  sortedVector := (AttributeRule.flag "sortedvector").value decl.attributes
  sharedString := (AttributeRule.flag "sharedstring").value decl.attributes
  nonVirtual := (AttributeRule.optionalFlag "nonVirtual").value decl.attributes
  index := decl.index
  isIndexManual := decl.index.isSome
  setter := setterRule.value decl.attributes
  span := decl.span

/-- An error about a field at one of its attributes. -/
def problemAt (decl : FieldDecl) (key : String) (problem : FieldProblem) : Diagnostic :=
  .errorAt problem.message ((decl.attributes.spanOf? key).getD decl.span)

/-- The reports about the vector form. -/
def typeReports (decl : FieldDecl) : List Diagnostic :=
  match decl.attributes.get? "vectortype" with
  | none => []
  | some a =>
    let text := a.text?.getD ""
    if !decl.isVector then
      [decl.problemAt "vectortype" (.vectorFormWithoutVector decl.name.text)]
    else if (Choice.ofWord? (trimString text) : Option VectorForm).isSome then []
    else [decl.problemAt "vectortype" (.unknownVectorForm text)]

/-- The reports about flags and the setter. -/
def flagReports (decl : FieldDecl) : List Diagnostic :=
  (["deprecated", "key", "sortedvector", "sharedstring"].flatMap fun key =>
    (AttributeRule.flag key).reports decl.attributes)
  ++ (AttributeRule.optionalFlag "nonVirtual").reports decl.attributes
  ++ setterRule.reports decl.attributes

/-- The reports about the index. -/
def idReports (decl : FieldDecl) : List Diagnostic :=
  match decl.attributes.number "id" with
  | .absent => []
  | .invalid => [decl.problemAt "id" .idWithoutNumber]
  | .value n => if n < 0 then [decl.problemAt "id" (.negativeId n decl.name.text)] else []

/-- The reports about attributes this compiler rejects. -/
def unsupportedReports (decl : FieldDecl) : List Diagnostic :=
  (unsupportedAttributes.filter decl.attributes.contains).map fun key =>
    decl.problemAt key (.unsupported key)

/-- What a step has to report. -/
def stepReports (decl : FieldDecl) : FieldStep → List Diagnostic
  | .type => decl.typeReports
  | .default => []
  | .flags => decl.flagReports
  | .id => decl.idReports
  | .unsupported => decl.unsupportedReports

/-- Everything there is to report about a field: keys that come again, then each step. -/
def reports (decl : FieldDecl) : List Diagnostic :=
  AttributeMap.duplicates decl.metadata.entries ++ FieldStep.all.flatMap decl.stepReports

/-- Resolve a field and report to a bag, inside a scope named after the field. -/
def analyze (decl : FieldDecl) (bag : Bag) : FieldDefinition × Bag :=
  bag.inScope decl.name.text fun bag => (decl.definition, bag.reportAll decl.reports)

/-- What resolving the field tells about itself. -/
def events (decl : FieldDecl) : List Event :=
  ⟨.debug, "analyzing field", [("field", decl.name.text), ("type_text", decl.type.text)]⟩
    :: FieldStep.all.map fun step =>
      ⟨.trace, "resolved",
        [("step", s!"\"{step.name}\""), ("diagnostics", toString (decl.stepReports step).length)]⟩

end FieldDecl

end FlatSchema
