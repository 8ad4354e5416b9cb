import FlatSchema.Declaration
import FlatSchema.Text.Numeral

/-!
Definitions: declarations with everything about them resolved. This is what the compiler hands on
to layout and code generation.

Two properties of a field are chosen by a word: how a vector is represented, and who may set the
field. The words are compared without regard to ASCII case.
-/

namespace FlatSchema

/-! ### Choices -/

/-- A closed list of options, each selected by a word. -/
class Choice (α : Type) where
  /-- The options in the order in which users are told of them. -/
  all : List α
  word : α → String

namespace Choice

variable {α : Type} [Choice α]

/-- The option a word selects. -/
def ofWord? (text : String) : Option α := (all : List α).find? fun a => sameLetters (word a) text

variable (α)

/-- The words of all options. -/
def listing : String := ", ".intercalate ((all : List α).map word)

end Choice

/-- How a vector is represented, on the wire and in memory. -/
inductive VectorForm where
  | list
  | readOnlyList
  | array
  | memory
  | readOnlyMemory
  | indexedVector
deriving DecidableEq, Inhabited

instance : Choice VectorForm where
  all := [.list, .readOnlyList, .array, .memory, .readOnlyMemory, .indexedVector]
  word
    | .list => "IList"
    | .readOnlyList => "IReadOnlyList"
    | .array => "Array"
    | .memory => "Memory"
    | .readOnlyMemory => "ReadOnlyMemory"
    | .indexedVector => "IIndexedVector"

/-- Who may set a field, and when. -/
inductive SetterKind where
  | publicSetter
  | publicInit
  | protectedSetter
  | protectedInit
  | protectedInternal
  | protectedInternalInit
  | noSetter
deriving DecidableEq, Inhabited

instance : Choice SetterKind where
  all := [.publicSetter, .publicInit, .protectedSetter, .protectedInit, .protectedInternal,
    .protectedInternalInit, .noSetter]
  word
    | .publicSetter => "Public"
    | .publicInit => "PublicInit"
    | .protectedSetter => "Protected"
    | .protectedInit => "ProtectedInit"
    | .protectedInternal => "ProtectedInternal"
    | .protectedInternalInit => "ProtectedInternalInit"
    | .noSetter => "None"

example : Choice.listing VectorForm =
    "IList, IReadOnlyList, Array, Memory, ReadOnlyMemory, IIndexedVector" := by decide +kernel

/-! ### Definitions -/

/-- A resolved field. A field without a vector form is no vector. An index is the number the field
    was given by hand, and whether there was one is kept beside it. -/
structure FieldDefinition where
  name : String
  type : String
  vector : Option VectorForm
  isOptionalScalar : Bool
  defaultValue : Option String
  deprecated : Bool
  isKey : Bool
  sortedVector : Bool
  sharedString : Bool
  nonVirtual : Option Bool
  index : Option Int
  isIndexManual : Bool
  setter : SetterKind
  span : Span
deriving DecidableEq, Inhabited

namespace FieldDefinition

def isVector (f : FieldDefinition) : Bool := f.vector.isSome

end FieldDefinition

/-- A table or a struct with its resolved fields in the order of their declarations. -/
structure TypeDefinition where
  name : String
  namespacePath : Option String
  kind : TypeKind
  fields : List FieldDefinition
deriving DecidableEq, Inhabited

/-- The first field of a name. -/
def TypeDefinition.field? (t : TypeDefinition) (name : String) : Option FieldDefinition :=
  t.fields.find? (·.name == name)

/-- An enum or a union; of its values only the names are kept. -/
structure EnumDefinition where
  name : String
  namespacePath : Option String
  kind : EnumKind
  underlyingType : Option String
  values : List String
deriving DecidableEq, Inhabited

/-- All that one file defines. -/
structure SchemaDefinition where
  includes : List String := []
  declaredAttributes : List String := []
  rootType : Option String := none
  fileIdentifier : Option String := none
  fileExtension : Option String := none
  types : List TypeDefinition := []
  enums : List EnumDefinition := []
deriving DecidableEq, Inhabited

/-- The first table or struct of a name. -/
def SchemaDefinition.type? (s : SchemaDefinition) (name : String) : Option TypeDefinition :=
  s.types.find? (·.name == name)

end FlatSchema
