import FlatSchema.Declaration
import FlatSchema.Text.Quoted

/-!
Declarations as an outline for people: everything that was read, with its place, one item a line and
four spaces for every level.

        Include(
            StringDirective {
                value: "x.fbs",
-/

namespace FlatSchema

/-- An outline: a word, a named wrapper around one thing, a list, or a record with named parts. -/
inductive Outline where
  | word (text : String)
  | wrap (name : String) (inner : Outline)
  | list (items : List Outline)
  | record (name : String) (parts : List (String × Outline))

namespace Outline

/-- A line break and the indentation behind it. -/
def line (depth : Nat) : String := "\n" ++ "".pushn ' ' (4 * depth)

mutual

/-- An outline at a depth. -/
def render (depth : Nat) : Outline → String
  | word text => text
  | wrap name inner =>
    name ++ "(" ++ line (depth + 1) ++ render (depth + 1) inner ++ "," ++ line depth ++ ")"
  | list [] => "[]"
  | list items => "[" ++ renderItems (depth + 1) items ++ line depth ++ "]"
  | record name parts =>
    name ++ " \x7b" ++ renderParts (depth + 1) parts ++ line depth ++ "\x7d"

/-- The items of a list, each on a line of its own. -/
def renderItems (depth : Nat) : List Outline → String
  | [] => ""
  | item :: rest => line depth ++ render depth item ++ "," ++ renderItems depth rest

/-- The parts of a record, each on a line of its own. -/
def renderParts (depth : Nat) : List (String × Outline) → String
  | [] => ""
  | (name, part) :: rest =>
    line depth ++ name ++ ": " ++ render depth part ++ "," ++ renderParts depth rest

end

/-! ### Parts of declarations -/

def number (n : Nat) : Outline := .word (toString n)

def text (s : String) : Outline := .word (quoted s)

/-- Something that may be missing. -/
def optional {α : Type} (f : α → Outline) : Option α → Outline
  | some a => .wrap "Some" (f a)
  | none => .word "None"

def ofPosition (p : Position) : Outline :=
  .record "Position" [("line", number p.line), ("column", number p.column),
    ("offset", number p.offset)]

def ofSpan (s : Span) : Outline :=
  .record "Span" [("file", text s.file), ("start", ofPosition s.start), ("end", ofPosition s.stop)]

/-- A text with its place, under a name that tells what it is. -/
def ofSpelling (name : String) (s : Spelling) : Outline :=
  .record name [("text", text s.text), ("span", ofSpan s.span)]

def ofEntry (e : MetadataEntry) : Outline :=
  .record "MetadataEntry" [("key", text e.key),
    ("value", optional (ofSpelling "MetadataValue") e.value), ("span", ofSpan e.span)]

def ofMetadata (m : Metadata) : Outline :=
  .record "Metadata" [("entries", .list (m.entries.map ofEntry)), ("span", optional ofSpan m.span)]

def ofField (f : FieldDecl) : Outline :=
  .record "FieldDecl" [("name", text f.name.text), ("name_span", ofSpan f.name.span),
    ("type_text", text f.type.text), ("type_span", ofSpan f.type.span),
    ("default", optional (ofSpelling "DefaultValue") f.default),
    ("metadata", ofMetadata f.metadata), ("span", ofSpan f.span)]

def ofEnumValue (v : EnumValue) : Outline :=
  .record "EnumValue" [("name", text v.name), ("value", optional text v.value),
    ("span", ofSpan v.span)]

/-- The name of a kind of type. -/
def typeName : TypeKind → String
  | .table => "Table"
  | .struct => "Struct"

def ofType (t : TypeDecl) : Outline :=
  .record "TypeDecl" [("kind", .word (typeName t.kind)), ("name", text t.name),
    ("metadata", ofMetadata t.metadata), ("fields", .list (t.fields.map ofField)),
    ("span", ofSpan t.span)]

def ofEnum (e : EnumDecl) : Outline :=
  .record "EnumDecl" [("name", text e.name), ("underlying_type", optional text e.underlyingType),
    ("metadata", ofMetadata e.metadata), ("values", .list (e.values.map ofEnumValue)),
    ("span", ofSpan e.span)]

/-- What a directive is called, what its record is called, and what its text is called there. -/
def directiveNames : Directive → String × String × String
  | .namespacePath => ("Namespace", "NamespaceDecl", "path")
  | .includedFile => ("Include", "StringDirective", "value")
  | .attributeName => ("Attribute", "AttributeDecl", "name")
  | .rootType => ("RootType", "RootTypeDecl", "name")
  | .fileIdentifier => ("FileIdentifier", "StringDirective", "value")
  | .fileExtension => ("FileExtension", "StringDirective", "value")

def ofDeclaration : Declaration → Outline
  | .directive kind value span =>
    let (name, recordName, part) := directiveNames kind
    .wrap name (.record recordName [(part, text value), ("span", ofSpan span)])
  | .type t => .wrap (typeName t.kind) (ofType t)
  | .enum e =>
    .wrap (match e.kind with | .enum => "Enum" | .union => "Union") (ofEnum e)
  | .service name span =>
    .wrap "RpcService" (.record "RpcServiceDecl" [("name", text name), ("span", ofSpan span)])

def ofSchema (s : Schema) : Outline :=
  .record "Schema" [("declarations", .list (s.declarations.map ofDeclaration)),
    ("span", ofSpan s.span)]

end Outline

end FlatSchema
