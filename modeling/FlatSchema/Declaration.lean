import FlatSchema.Source.Position

/-!
Declarations of a schema as they are written: directives, tables and structs with their fields,
enums and unions, and services. Texts keep their spelling; nothing is resolved yet.
-/

namespace FlatSchema

/-- A text together with where it is written. -/
structure Spelling where
  text : String
  span : Span
deriving DecidableEq, Inhabited

/-- An attribute as written: a bare key, or a key with a value. String values are unquoted. -/
structure MetadataEntry where
  key : String
  value : Option Spelling
  span : Span
deriving DecidableEq, Inhabited

/-- The attributes in parentheses behind a declaration. The span is there exactly if the
    parentheses are. -/
structure Metadata where
  entries : List MetadataEntry := []
  span : Option Span := none
deriving DecidableEq, Inhabited

/-- A field, `name: type = default (metadata);`. The type text has no white space in it, and the
    text of a default keeps its sign and its quotes. -/
structure FieldDecl where
  name : Spelling
  type : Spelling
  default : Option Spelling
  metadata : Metadata
  span : Span
deriving DecidableEq, Inhabited

/-- Tables can change their fields over time, structs cannot. -/
inductive TypeKind where
  | table
  | struct
deriving DecidableEq, Inhabited

/-- The word that opens a declaration of the kind. -/
def TypeKind.word : TypeKind → String
  | .table => "table"
  | .struct => "struct"

/-- A table or a struct. -/
structure TypeDecl where
  kind : TypeKind
  name : String
  metadata : Metadata
  fields : List FieldDecl
  span : Span
deriving DecidableEq, Inhabited

/-- Values of an enum are numbers, those of a union are types. -/
inductive EnumKind where
  | enum
  | union
deriving DecidableEq, Inhabited

/-- A value of an enum or a union, with the number given to it, if any. -/
structure EnumValue where
  name : String
  value : Option String
  span : Span
deriving DecidableEq, Inhabited

/-- An enum or a union. -/
structure EnumDecl where
  kind : EnumKind
  name : String
  underlyingType : Option String
  metadata : Metadata
  values : List EnumValue
  span : Span
deriving DecidableEq, Inhabited

/-- The declarations that are a keyword, one text and a semicolon. -/
inductive Directive where
  | namespacePath
  | includedFile
  | attributeName
  | rootType
  | fileIdentifier
  | fileExtension
deriving DecidableEq, Inhabited

/-- A declaration. Of a service only the name is kept. -/
inductive Declaration where
  | directive (kind : Directive) (value : String) (span : Span)
  | type (decl : TypeDecl)
  | enum (decl : EnumDecl)
  | service (name : String) (span : Span)
deriving DecidableEq, Inhabited

/-- The whole declaration, from its keyword to its last mark. -/
def Declaration.span : Declaration → Span
  | directive _ _ span => span
  | type decl => decl.span
  | enum decl => decl.span
  | service _ span => span

/-- All declarations of a file in source order. -/
structure Schema where
  declarations : List Declaration
  span : Span
deriving DecidableEq, Inhabited

end FlatSchema
