import FlatSchema.Declaration.Production
import FlatSchema.Definition.Field

/-!
Resolving a whole schema. Declarations are visited in source order; a namespace holds for what
follows it, the last of two root types counts, and each table or struct is resolved inside a scope
of its name.

Across the fields of a type two things are checked: no two fields share a name, and no two fields
of a table share an index given by hand. A field that repeats another is reported once, against the
first field it repeats.
-/

namespace FlatSchema

/-- The items whose key occurred before, each with the first item of that key. Items without a key
    repeat nothing. The items before the row are `earlier`. -/
def repeatsFrom {α κ : Type} [BEq κ] (key : α → Option κ) : List α → List α → List (α × α)
  | _, [] => []
  | earlier, a :: rest =>
    let first := (key a).bind fun k => earlier.find? fun b => key b == some k
    (first.map fun b => (a, b)).toList ++ repeatsFrom key (earlier ++ [a]) rest

/-- The items whose key occurred before, each with the first item of that key. -/
def repeatsBy {α κ : Type} [BEq κ] (key : α → Option κ) (items : List α) : List (α × α) :=
  repeatsFrom key [] items

namespace TypeDecl

/-- The fields whose name another field had before. -/
def nameReports (decl : TypeDecl) : List Diagnostic :=
  (repeatsBy (fun f : FieldDecl => some f.name.text) decl.fields).map fun (field, first) =>
    (Diagnostic.errorAt
      s!"duplicate field `{field.name.text}` in {decl.kind.word} `{decl.name}`" field.name.span
    ).relatedTo first.name.span "first declared here"

/-- The fields of a table whose index another field had before. -/
def indexReports (decl : TypeDecl) : List Diagnostic :=
  match decl.kind with
  | .struct => []
  | .table =>
    (repeatsBy FieldDecl.index decl.fields).map fun (field, first) =>
      let id := field.index.getD 0
      let owner := first.name.text
      (Diagnostic.errorAt
        s!"field `{field.name.text}` reuses id {id} already assigned to `{owner}`" field.span
      ).relatedTo first.span "id first assigned here"

/-- The resolved type. -/
def definition (decl : TypeDecl) (namespacePath : Option String) : TypeDefinition :=
  ⟨decl.name, namespacePath, decl.kind, decl.fields.map FieldDecl.definition⟩

/-- Report on a type inside a scope of its name: on each field, then on names, then on indices. -/
def report (decl : TypeDecl) (bag : Bag) : Bag :=
  let bag := decl.fields.foldl (fun bag f => (f.analyze bag).2) (bag.enter decl.name)
  ((bag.reportAll decl.nameReports).reportAll decl.indexReports).leave

/-- What resolving the type tells about itself. -/
def events (decl : TypeDecl) : List Event :=
  let kind := match decl.kind with
    | .table => "Table"
    | .struct => "Struct"
  ⟨.debug, s!"analyzing {kind}", [("name", decl.name), ("fields", toString decl.fields.length)]⟩
    :: decl.fields.flatMap FieldDecl.events

end TypeDecl

/-- The resolved enum or union. -/
def EnumDecl.definition (decl : EnumDecl) (namespacePath : Option String) : EnumDefinition :=
  ⟨decl.name, namespacePath, decl.kind, decl.underlyingType, decl.values.map EnumValue.name⟩

/-- A file identifier has four characters. -/
def fileIdentifierReports (value : String) (span : Span) : List Diagnostic :=
  if value.length = 4 then []
  else [.errorAt s!"file_identifier must be exactly 4 characters, found \"{value}\"" span]

/-- A schema as far as it is resolved: the namespace that holds, the definition, the reports. -/
structure Analysis where
  namespacePath : Option String := none
  definition : SchemaDefinition := {}
  bag : Bag := {}

namespace Analysis

/-- Take in a directive. -/
def visitDirective (a : Analysis) (value : String) (span : Span) : Directive → Analysis
  | .namespacePath => { a with namespacePath := some value }
  | .includedFile =>
    { a with definition.includes := a.definition.includes ++ [value] }
  | .attributeName =>
    { a with definition.declaredAttributes := a.definition.declaredAttributes ++ [value] }
  | .rootType => { a with definition.rootType := some value }
  | .fileIdentifier =>
    { a with
      definition.fileIdentifier := some value
      bag := a.bag.reportAll (fileIdentifierReports value span) }
  | .fileExtension => { a with definition.fileExtension := some value }

/-- Take in the next declaration. -/
def visit (a : Analysis) : Declaration → Analysis
  | .directive kind value span => a.visitDirective value span kind
  | .type decl =>
    { a with
      definition.types := a.definition.types ++ [decl.definition a.namespacePath]
      bag := decl.report a.bag }
  | .enum decl =>
    { a with definition.enums := a.definition.enums ++ [decl.definition a.namespacePath] }
  | .service _ _ => a

/-- Resolve a schema. The definition is complete whatever is reported. -/
def ofSchema (schema : Schema) : Analysis := schema.declarations.foldl visit {}

/-- What resolving a schema tells about itself. -/
def events (schema : Schema) : List Event :=
  schema.declarations.flatMap fun
    | .type decl => decl.events
    | _ => []

end Analysis

end FlatSchema
