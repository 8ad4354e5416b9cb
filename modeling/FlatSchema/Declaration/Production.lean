import FlatSchema.Declaration
import FlatSchema.Declaration.Reader
import FlatSchema.Token.Lexed

/-!
The grammar of declarations. One production per keyword:

        namespace dotted ;      include "…" ;      attribute "…" | name ;      root_type dotted ;
        file_identifier "…" ;   file_extension "…" ;
        table | struct  name metadata? { field* }
        enum | union    name (: type)? metadata? { (value (, value)* ,?)? }
        rpc_service     name { … }

        field     name : type (= scalar)? metadata? ;
        type      dotted | [ type (: int)? ]
        value     dotted (= scalar)?
        metadata  ( (entry (, entry)*)? )          entry   name (: scalar)?
        scalar    (+ | -)? (number | name) | "…"   dotted  name (. name)*

A production is read behind its keyword; its span reaches back to the keyword and forward to the
token read last.
-/

namespace FlatSchema

namespace Reader

/-! ### Texts -/

/-- A dotted name. -/
def dotted (expected : String) : Reader Spelling := do
  let start ← current
  let parts ← row₁ (name expected) .dot
  return ⟨".".intercalate (parts.map Token.lexeme), ← spanFrom start.span⟩

/-- The brackets that close a type of the given depth around the text of its element type, each
    with an array length or without. -/
def closings : Nat → String → Reader String
  | 0, text => return text
  | depth + 1, text => do
    let length ← behind .colon (expect .intLiteral "array length")
    let _ ← mark .rightBracket
    match length with
    | some n => closings depth s!"[{text}:{n.lexeme}]"
    | none => closings depth s!"[{text}]"

/-- How many left brackets come next. -/
def openings (tokens : List Token) : Nat :=
  (tokens.takeWhile (·.kind == .mark .leftBracket)).length

/-- A type, whose text is its spelling without white space: `int`, `Game.Weapon`, `[float:3]`. -/
def type : Reader Spelling := do
  let start ← current
  let depth := openings (← upcoming)
  skip depth
  let element ← dotted "type"
  if depth = 0 then return element
  else
    let text ← closings depth element.text
    return ⟨text, ← spanFrom start.span⟩

/-- Whether a token may stand in a scalar behind a sign, which is empty if there is none: a sign
    goes with numbers, identifiers and truth values only. -/
def isScalar (sign : String) : TokenKind → Bool
  | .intLiteral | .floatLiteral | .identifier | .keyword .trueWord | .keyword .falseWord => true
  | .stringLiteral | .keyword _ => sign.isEmpty
  | _ => false

/-- A scalar. Its text keeps the sign; a string is put back between quotes if `quoting`. -/
def scalar (expected : String) (quoting : Bool) : Reader Spelling := do
  let start ← current
  let sign ← optionalSign
  let t ← accept (isScalar sign) expected
  let text := if t.kind = .stringLiteral && quoting then s!"\"{t.lexeme}\"" else sign ++ t.lexeme
  return ⟨text, ← spanFrom start.span⟩
where
  /-- The lexeme of a sign if one comes next. -/
  optionalSign : Reader String := do
    let k ← kind
    if k = .mark .plus || k = .mark .minus then
      let t ← next
      return t.lexeme
    else return ""

/-! ### Metadata -/

/-- One attribute. -/
def metadataEntry : Reader MetadataEntry := do
  let key ← name "attribute name"
  let value ← behind .colon (scalar "attribute value" false)
  return ⟨key.lexeme, value, ← spanFrom key.span⟩

/-- The attributes in parentheses, if a parenthesis comes next. -/
def metadata : Reader Metadata := do
  let start ← current
  if ← eat .leftParen then
    let entries ← if (← kind) = .mark .rightParen then pure [] else row₁ metadataEntry .comma
    let _ ← mark .rightParen
    return ⟨entries, some (← spanFrom start.span)⟩
  else return {}

/-! ### Fields and values -/

/-- What a row of fields or values ends with. -/
def endsBlock (k : TokenKind) : Bool := k == .mark .rightBrace || k == .eof

/-- The rest of a field behind its name. -/
def fieldBehind (fieldName : Token) : Reader FieldDecl := do
  let _ ← mark .colon
  let type ← type
  let default ← behind .equal (scalar "default value" true)
  let metadata ← metadata
  let _ ← mark .semicolon
  return ⟨⟨fieldName.lexeme, fieldName.span⟩, type, default, metadata, ← spanFrom fieldName.span⟩

/-- A field, if a token can be its name. -/
def field? (t : Token) : Option (Reader FieldDecl) :=
  if t.kind.isName then some (fieldBehind t) else none

/-- Behind a bad field reading goes on after the next semicolon, but not beyond a right brace. -/
def fieldResumption : Resumption endsBlock where
  resume := Stream.pastSemicolon
  ahead := Stream.ahead_pastSemicolon
  progress s hpos hc := Stream.size_pastSemicolon_lt hpos (by
    intro hk
    simp [endsBlock, hk] at hc)

/-- The fields of a table or a struct. -/
def fields : Reader (List FieldDecl) := items field? "field name" fieldResumption

/-- A value of an enum or a union. -/
def enumValue : Reader EnumValue := do
  let valueName ← dotted "enum value"
  let value ← behind .equal (scalar "enum value" false)
  return ⟨valueName.text, value.map Spelling.text, ← spanFrom valueName.span⟩

/-! ### Declarations -/

/-- A text, the semicolon behind it, and the directive they make. -/
def directive (kind : Directive) (start : Span) (value : Reader String) : Reader Declaration := do
  let value ← value
  let _ ← mark .semicolon
  return .directive kind value (← spanFrom start)

/-- The content of a string literal. -/
def string (expected : String) : Reader String :=
  Token.lexeme <$> expect .stringLiteral expected

/-- The name of a user attribute, as a string or bare. -/
def attributeName : Reader String := do
  if (← kind) = .stringLiteral then Token.lexeme <$> next
  else Token.lexeme <$> name "attribute name"

/-- A table or a struct. -/
def typeDecl (kind : TypeKind) (start : Span) : Reader Declaration := do
  let typeName ← name "type name"
  let metadata ← metadata
  let _ ← mark .leftBrace
  let fields ← fields
  let _ ← mark .rightBrace
  return .type ⟨kind, typeName.lexeme, metadata, fields, ← spanFrom start⟩

/-- An enum or a union. -/
def enumDecl (kind : EnumKind) (start : Span) : Reader Declaration := do
  let enumName ← name "enum name"
  let underlying ← behind .colon type
  let metadata ← metadata
  let _ ← mark .leftBrace
  let values ← row enumValue .comma endsBlock
  let _ ← mark .rightBrace
  return .enum ⟨kind, enumName.lexeme, underlying.map Spelling.text, metadata, values,
    ← spanFrom start⟩

/-- Everything up to the right brace that closes a left brace already taken. -/
def block : Reader Unit := do
  let tokens ← upcoming
  match Stream.untilClosed 1 tokens with
  | some n => skip n
  | none =>
    skip tokens.length
    fail Mark.rightBrace.quoted

/-- A service. All but its name is left out, and a warning says so. -/
def service (start : Span) : Reader Declaration := do
  let serviceName ← name "service name"
  let _ ← mark .leftBrace
  block
  let span ← spanFrom start
  report (.warningAt s!"rpc_service `{serviceName.lexeme}` is ignored" span)
  return .service serviceName.lexeme span

/-- The production of a keyword that is written at `start`. -/
def production? (k : Keyword) (start : Span) : Option (Reader Declaration) :=
  match k with
  | .namespaceWord =>
    some (directive .namespacePath start (Spelling.text <$> dotted "namespace name"))
  | .includeWord => some (directive .includedFile start (string "include path"))
  | .attributeWord => some (directive .attributeName start attributeName)
  | .tableWord => some (typeDecl .table start)
  | .structWord => some (typeDecl .struct start)
  | .enumWord => some (enumDecl .enum start)
  | .unionWord => some (enumDecl .union start)
  | .rootTypeWord => some (directive .rootType start (Spelling.text <$> dotted "root type name"))
  | .fileIdentifierWord => some (directive .fileIdentifier start (string "file identifier"))
  | .fileExtensionWord => some (directive .fileExtension start (string "file extension"))
  | .rpcServiceWord => some (service start)
  | .trueWord | .falseWord => none

/-- A declaration, if a token can open one. -/
def declaration? (t : Token) : Option (Reader Declaration) :=
  match t.kind with
  | .keyword k => production? k t.span
  | _ => none

/-- Behind a bad declaration reading goes on at the next token that opens one, or after the next
    semicolon. -/
def declarationResumption : Resumption fun _ => false where
  resume := Stream.atDeclaration
  ahead := Stream.ahead_atDeclaration
  progress _ hpos _ := Stream.size_atDeclaration_lt hpos

/-- The declarations of a file. -/
def declarations (s : Stream) : Items Declaration :=
  itemsFrom declaration? "declaration" declarationResumption s

end Reader

/-! ### Files -/

/-- A schema that was read, and what there was to report. A schema is there whatever is reported. -/
structure Parsed where
  schema : Schema
  diagnostics : List Diagnostic

namespace Parsed

/-- Read tokens up to the first end of file. -/
def ofTokens (tokens : List Token) : Parsed :=
  let start := Stream.ofTokens tokens
  let read := Reader.declarations start
  ⟨⟨read.items, start.current.span.merge read.rest.current.span⟩, read.reports⟩

/-- Read a source text. What the tokens have wrong with them comes first. -/
def ofSource (source file : String) : Parsed :=
  let lexed := Lexed.ofSource source file
  let parsed := ofTokens lexed.tokens
  { parsed with diagnostics := lexed.diagnostics ++ parsed.diagnostics }

end Parsed

end FlatSchema
