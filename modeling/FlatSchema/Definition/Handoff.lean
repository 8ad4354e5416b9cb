import FlatSchema.Definition
import FlatSchema.Json

/-!
Definitions as JSON, the form in which they are handed on. Every component is written except the
places in the source.
-/

namespace FlatSchema

/-- The word for a vector form; a field that is no vector has a word too. -/
def VectorForm.label : Option VectorForm → String
  | some form => Choice.word form
  | none => "None"

namespace FieldDefinition

def toJson (f : FieldDefinition) : Json := .object [
  ("name", .string f.name),
  ("fbsFieldType", .string f.type),
  ("vectorType", .string (VectorForm.label f.vector)),
  ("isOptionalScalar", .bool f.isOptionalScalar),
  ("defaultValue", .optional .string f.defaultValue),
  ("deprecated", .bool f.deprecated),
  ("isKey", .bool f.isKey),
  ("sortedVector", .bool f.sortedVector),
  ("sharedString", .bool f.sharedString),
  ("nonVirtual", .optional .bool f.nonVirtual),
  ("index", .optional .integer f.index),
  ("isIndexSetManually", .bool f.isIndexManual),
  ("setterKind", .string (Choice.word f.setter))]

end FieldDefinition

def TypeDefinition.toJson (t : TypeDefinition) : Json := .object [
  ("name", .string t.name),
  ("namespace", .optional .string t.namespacePath),
  ("kind", .string t.kind.word),
  ("fields", .array (t.fields.map FieldDefinition.toJson))]

def EnumDefinition.toJson (e : EnumDefinition) : Json := .object [
  ("name", .string e.name),
  ("namespace", .optional .string e.namespacePath),
  ("isUnion", .bool (e.kind == .union)),
  ("underlyingType", .optional .string e.underlyingType),
  ("values", .strings e.values)]

namespace SchemaDefinition

def toJson (s : SchemaDefinition) : Json := .object [
  ("includes", .strings s.includes),
  ("declaredAttributes", .strings s.declaredAttributes),
  ("rootType", .optional .string s.rootType),
  ("fileIdentifier", .optional .string s.fileIdentifier),
  ("fileExtension", .optional .string s.fileExtension),
  ("types", .array (s.types.map TypeDefinition.toJson)),
  ("enums", .array (s.enums.map EnumDefinition.toJson))]

/-- The text that is handed on. -/
def handoff (s : SchemaDefinition) (layout : Json.Layout) : String := s.toJson.render layout

end SchemaDefinition

end FlatSchema
