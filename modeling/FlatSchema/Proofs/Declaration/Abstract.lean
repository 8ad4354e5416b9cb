import FlatSchema.Proofs.Declaration.Grammar
import FlatSchema.Proofs.Token.Writing

/-!
Abstract declarations. An abstract declaration is a declaration as one means it, before it is
written down: it has lexemes, but neither places nor layout. It stands for a declaration without
places.

        table "T", no attributes, one field "hp" of type [int]
        lexemes    table T { hp : [ int ] ; }
        stands for the table T with the field hp, whose type text is "[int]"
-/

namespace FlatSchema

/-! ### Places -/

def Spelling.mapSpans (f : Span → Span) (s : Spelling) : Spelling := ⟨s.text, f s.span⟩

def MetadataEntry.mapSpans (f : Span → Span) (e : MetadataEntry) : MetadataEntry :=
  ⟨e.key, e.value.map (Spelling.mapSpans f), f e.span⟩

def Metadata.mapSpans (f : Span → Span) (m : Metadata) : Metadata :=
  ⟨m.entries.map (MetadataEntry.mapSpans f), m.span.map f⟩

def FieldDecl.mapSpans (f : Span → Span) (d : FieldDecl) : FieldDecl :=
  ⟨d.name.mapSpans f, d.type.mapSpans f, d.default.map (Spelling.mapSpans f),
    d.metadata.mapSpans f, f d.span⟩

def EnumValue.mapSpans (f : Span → Span) (v : EnumValue) : EnumValue := ⟨v.name, v.value, f v.span⟩

/-- A declaration with every span changed. -/
def Declaration.mapSpans (f : Span → Span) : Declaration → Declaration
  | directive kind value span => directive kind value (f span)
  | type d => type ⟨d.kind, d.name, d.metadata.mapSpans f, d.fields.map (FieldDecl.mapSpans f),
      f d.span⟩
  | enum d => enum ⟨d.kind, d.name, d.underlyingType, d.metadata.mapSpans f,
      d.values.map (EnumValue.mapSpans f), f d.span⟩
  | service name span => service name (f span)

/-- The span that all spans are changed to in order to forget them. -/
def nowhere (_ : Span) : Span := .empty

/-- A declaration without its places. Of a span that may be missing it is kept whether it is. -/
def Declaration.unplaced (d : Declaration) : Declaration := d.mapSpans nowhere

namespace Abstract

/-! ### Abstract declarations -/

/-- A dotted name. -/
structure Path where
  first : Word
  more : List Word

/-- A type: a path, a vector, or an array with its length. -/
inductive TypeExpr where
  | path (p : Path)
  | vector (element : TypeExpr)
  | array (element : TypeExpr) (length : Numeral) (isInt : length.kind = .intLiteral)

inductive Sign where
  | plus
  | minus

/-- A scalar. Not every word takes a sign. -/
inductive Scalar where
  | string (value : List Char)
  | number (n : Numeral)
  | word (w : Word)
  | signedNumber (sign : Sign) (n : Numeral)
  | signedWord (sign : Sign) (w : Word) (takesSign : Grammar.TakesSign w.kind)

/-- An attribute, bare or with a value. -/
structure Entry where
  key : Word
  value : Option Scalar

/-- Attributes in parentheses, which may be empty, or no parentheses. -/
abbrev Attributes := Option (List Entry)

structure Field where
  name : Word
  type : TypeExpr
  default : Option Scalar
  attributes : Attributes

/-- A value of an enum or a union. -/
structure Value where
  path : Path
  number : Option Scalar

/-- What stands between the braces of a service: lexemes with balanced braces. -/
inductive Body where
  | nil
  | other (x : Lexeme) (notLeft : x.kind ≠ .mark .leftBrace) (notRight : x.kind ≠ .mark .rightBrace)
      (rest : Body)
  | block (inner rest : Body)

/-- What a directive sets. -/
inductive Content : Directive → Type where
  | namespacePath (p : Path) : Content .namespacePath
  | includedFile (value : List Char) : Content .includedFile
  | attributeString (value : List Char) : Content .attributeName
  | attributeWord (w : Word) : Content .attributeName
  | rootType (p : Path) : Content .rootType
  | fileIdentifier (value : List Char) : Content .fileIdentifier
  | fileExtension (value : List Char) : Content .fileExtension

/-- A declaration. A comma may stand behind the last value of an enum. -/
inductive Decl where
  | directive {kind : Directive} (content : Content kind)
  | type (kind : TypeKind) (name : Word) (attributes : Attributes) (fields : List Field)
  | enum (kind : EnumKind) (name : Word) (underlying : Option TypeExpr) (attributes : Attributes)
      (values : List Value) (trailingComma : Bool)
  | service (name : Word) (body : Body)

/-! ### Lexemes -/

def Path.lexemes (p : Path) : List Lexeme :=
  [.mark .dot].intercalate ((p.first :: p.more).map fun w => [.word w])

def TypeExpr.lexemes : TypeExpr → List Lexeme
  | path p => p.lexemes
  | vector t => .mark .leftBracket :: t.lexemes ++ [.mark .rightBracket]
  | array t n _ => .mark .leftBracket :: t.lexemes ++ [.mark .colon, .number n, .mark .rightBracket]

def Sign.mark : Sign → Mark
  | plus => .plus
  | minus => .minus

def Scalar.lexemes : Scalar → List Lexeme
  | string value => [.string value]
  | number n => [.number n]
  | word w => [.word w]
  | signedNumber sign n => [.mark sign.mark, .number n]
  | signedWord sign w _ => [.mark sign.mark, .word w]

/-- A mark and what stands behind it, or nothing. -/
def behindMark {α : Type} (m : Mark) (lexemes : α → List Lexeme) : Option α → List Lexeme
  | none => []
  | some a => .mark m :: lexemes a

def Entry.lexemes (e : Entry) : List Lexeme :=
  .word e.key :: behindMark .colon Scalar.lexemes e.value

def Attributes.lexemes : Attributes → List Lexeme
  | none => []
  | some entries =>
    .mark .leftParen :: [.mark .comma].intercalate (entries.map Entry.lexemes) ++
      [.mark .rightParen]

def Field.lexemes (f : Field) : List Lexeme :=
  .word f.name :: .mark .colon :: (f.type.lexemes ++ behindMark .equal Scalar.lexemes f.default ++
    Attributes.lexemes f.attributes ++ [.mark .semicolon])

def Value.lexemes (v : Value) : List Lexeme :=
  v.path.lexemes ++ behindMark .equal Scalar.lexemes v.number

/-- The values of an enum. A comma behind the last one needs a last one. -/
def valueLexemes (values : List Value) (trailingComma : Bool) : List Lexeme :=
  [.mark .comma].intercalate (values.map Value.lexemes) ++
    if trailingComma && !values.isEmpty then [.mark .comma] else []

def Body.lexemes : Body → List Lexeme
  | nil => []
  | other x _ _ rest => x :: rest.lexemes
  | block inner rest =>
    .mark .leftBrace :: inner.lexemes ++ .mark .rightBrace :: rest.lexemes

def Content.lexemes {kind : Directive} : Content kind → List Lexeme
  | namespacePath p => p.lexemes
  | includedFile value => [.string value]
  | attributeString value => [.string value]
  | attributeWord w => [.word w]
  | rootType p => p.lexemes
  | fileIdentifier value => [.string value]
  | fileExtension value => [.string value]

/-- A keyword as a word. -/
def keyword (k : Keyword) : Word where
  text := k.text.toList
  isWord := k.isWord_text

def Decl.lexemes : Decl → List Lexeme
  | @directive kind content =>
    .word (keyword (Grammar.directiveWord kind)) :: (content.lexemes ++ [.mark .semicolon])
  | type kind name attributes fields =>
    .word (keyword (Grammar.typeWord kind)) :: .word name :: (attributes.lexemes ++
      .mark .leftBrace :: (fields.flatMap Field.lexemes ++ [.mark .rightBrace]))
  | enum kind name underlying attributes values trailingComma =>
    .word (keyword (Grammar.enumWord kind)) :: .word name ::
      (behindMark .colon TypeExpr.lexemes underlying ++ attributes.lexemes ++
        .mark .leftBrace :: (valueLexemes values trailingComma ++ [.mark .rightBrace]))
  | service name body =>
    .word (keyword .rpcServiceWord) :: .word name :: .mark .leftBrace ::
      (body.lexemes ++ [.mark .rightBrace])

/-! ### What is meant -/

def Path.text (p : Path) : String :=
  ".".intercalate ((p.first :: p.more).map fun w => String.ofList w.text)

/-- A type without white space. -/
def TypeExpr.text : TypeExpr → String
  | path p => p.text
  | vector t => s!"[{t.text}]"
  | array t n _ => s!"[{t.text}:{String.ofList n.text}]"

def Sign.text (s : Sign) : String := String.singleton s.mark.char

/-- A scalar as text. A string is put back between quotes if `quoting`. -/
def Scalar.text (quoting : Bool) : Scalar → String
  | string value => if quoting then s!"\"{String.ofList value}\"" else String.ofList value
  | number n => String.ofList n.text
  | word w => String.ofList w.text
  | signedNumber sign n => sign.text ++ String.ofList n.text
  | signedWord sign w _ => sign.text ++ String.ofList w.text

/-- A text without a place. -/
def spelled (text : String) : Spelling := ⟨text, .empty⟩

def Entry.meant (e : Entry) : MetadataEntry :=
  ⟨String.ofList e.key.text, e.value.map fun v => spelled (v.text false), .empty⟩

/-- There is a span exactly if there are parentheses. -/
def Attributes.meant : Attributes → Metadata
  | none => {}
  | some entries => ⟨entries.map Entry.meant, some .empty⟩

def Field.meant (f : Field) : FieldDecl :=
  ⟨spelled (String.ofList f.name.text), spelled f.type.text,
    f.default.map fun v => spelled (v.text true), Attributes.meant f.attributes, .empty⟩

def Value.meant (v : Value) : EnumValue := ⟨v.path.text, v.number.map (Scalar.text false), .empty⟩

def Content.text {kind : Directive} : Content kind → String
  | namespacePath p => p.text
  | includedFile value => String.ofList value
  | attributeString value => String.ofList value
  | attributeWord w => String.ofList w.text
  | rootType p => p.text
  | fileIdentifier value => String.ofList value
  | fileExtension value => String.ofList value

/-- The declaration that is meant, without places. -/
def Decl.meant : Decl → Declaration
  | @directive kind content => .directive kind content.text .empty
  | type kind name attributes fields =>
    .type ⟨kind, String.ofList name.text, attributes.meant, fields.map Field.meant, .empty⟩
  | enum kind name underlying attributes values _ =>
    .enum ⟨kind, String.ofList name.text, underlying.map TypeExpr.text, attributes.meant,
      values.map Value.meant, .empty⟩
  | service name _ => .service (String.ofList name.text) .empty

end Abstract

end FlatSchema
