import FlatSchema.Declaration
import FlatSchema.Token
import Mathlib.Data.List.Forall2

/-!
The grammar of declarations as derivations. A derivation relates a row of tokens to what the row
spells; names, texts and values are read off the lexemes of the row, and the span of a phrase
reaches from its first token to its last.

        declaration  namespace | root_type dotted ;       attribute ("…" | name) ;
                     include | file_identifier | file_extension "…" ;
                     table | struct  name metadata? { field* }
                     enum | union    name (: type)? metadata? { (value (, value)* ,?)? }
                     rpc_service     name { balanced }
        field        name : type (= scalar)? metadata? ;
        type         dotted | [ type (: int)? ]
        value        dotted (= scalar)?
        metadata     ( (entry (, entry)*)? )              entry    name (: scalar)?
        scalar       (+ | -) (number | identifier | true | false) | number | name | "…"
        dotted       name (. name)*                       name     identifier | keyword

Nothing here reads: a row either has a derivation or it has none.
-/

namespace FlatSchema

namespace Grammar

/-- The span of a row of tokens, from its first token to its last. -/
def covering (ts : List Token) : Span := (ts.headD default).span.merge (ts.getLastD default).span

/-! ### Building blocks -/

section Blocks

variable {α : Type}

/-- One or more items with a mark between them. -/
inductive Row (Item : List Token → α → Prop) (separator : Mark) : List Token → List α → Prop where
  | one {ts : List Token} {a : α} : Item ts a → Row Item separator ts [a]
  | more {ts rest : List Token} {t : Token} {a : α} {as : List α} :
      Item ts a → t.kind = .mark separator → Row Item separator rest as →
      Row Item separator (ts ++ t :: rest) (a :: as)

/-- Items with a mark between them, if there are any; the mark may stand behind the last too. -/
inductive Listed (Item : List Token → α → Prop) (separator : Mark) :
    List Token → List α → Prop where
  | none : Listed Item separator [] []
  | row {ts : List Token} {as : List α} : Row Item separator ts as → Listed Item separator ts as
  | trailing {ts : List Token} {t : Token} {as : List α} : Row Item separator ts as →
      t.kind = .mark separator → Listed Item separator (ts ++ [t]) as

/-- An item behind a mark, or neither. -/
inductive Behind (m : Mark) (Item : List Token → α → Prop) : List Token → Option α → Prop where
  | absent : Behind m Item [] none
  | present {t : Token} {ts : List Token} {a : α} :
      t.kind = .mark m → Item ts a → Behind m Item (t :: ts) (some a)

/-- A text together with the span of the row that spells it. -/
def Spelled (Text : List Token → String → Prop) (ts : List Token) (s : Spelling) : Prop :=
  Text ts s.text ∧ s.span = covering ts

end Blocks

/-! ### Texts -/

/-- Identifiers and keywords are names. -/
def IsName (k : TokenKind) : Prop := k = .identifier ∨ ∃ w, k = .keyword w

/-- A name alone. -/
inductive Name : List Token → String → Prop where
  | mk {t : Token} : IsName t.kind → Name [t] t.lexeme

/-- Names with dots between them. -/
def Dotted (ts : List Token) (text : String) : Prop :=
  ∃ parts, Row Name .dot ts parts ∧ text = ".".intercalate parts

/-- A type, spelled without white space. -/
inductive TypeText : List Token → String → Prop where
  | dotted {ts : List Token} {text : String} : Dotted ts text → TypeText ts text
  | vector {l r : Token} {ts : List Token} {text : String} :
      l.kind = .mark .leftBracket → TypeText ts text → r.kind = .mark .rightBracket →
      TypeText (l :: ts ++ [r]) s!"[{text}]"
  | array {l colon n r : Token} {ts : List Token} {text : String} :
      l.kind = .mark .leftBracket → TypeText ts text → colon.kind = .mark .colon →
      n.kind = .intLiteral → r.kind = .mark .rightBracket →
      TypeText (l :: ts ++ [colon, n, r]) s!"[{text}:{n.lexeme}]"

/-- A sign is a plus or a minus. -/
def IsSign (k : TokenKind) : Prop := k = .mark .plus ∨ k = .mark .minus

instance (k : TokenKind) : Decidable (IsSign k) := inferInstanceAs (Decidable (_ ∨ _))

/-- What a sign may stand before. -/
def TakesSign (k : TokenKind) : Prop :=
  k = .intLiteral ∨ k = .floatLiteral ∨ k = .identifier ∨ k = .keyword .trueWord ∨
    k = .keyword .falseWord

/-- A scalar. A sign goes to the front of the text, and a string is put back between quotes if
    `quoting`. -/
inductive ScalarText (quoting : Bool) : List Token → String → Prop where
  | string {t : Token} : t.kind = .stringLiteral →
      ScalarText quoting [t] (if quoting then s!"\"{t.lexeme}\"" else t.lexeme)
  | plain {t : Token} : t.kind = .intLiteral ∨ t.kind = .floatLiteral ∨ IsName t.kind →
      ScalarText quoting [t] t.lexeme
  | signed {sign t : Token} : IsSign sign.kind → TakesSign t.kind →
      ScalarText quoting [sign, t] (sign.lexeme ++ t.lexeme)

/-! ### Parts of declarations -/

/-- One attribute. -/
inductive Entry : List Token → MetadataEntry → Prop where
  | mk {key : Token} {ts : List Token} {value : Option Spelling} :
      IsName key.kind → Behind .colon (Spelled (ScalarText false)) ts value →
      Entry (key :: ts) ⟨key.lexeme, value, covering (key :: ts)⟩

/-- Attributes in parentheses, or no parentheses. -/
inductive Attributes : List Token → Metadata → Prop where
  | absent : Attributes [] {}
  | empty {l r : Token} : l.kind = .mark .leftParen → r.kind = .mark .rightParen →
      Attributes [l, r] ⟨[], some (covering [l, r])⟩
  | entries {l r : Token} {ts : List Token} {es : List MetadataEntry} :
      l.kind = .mark .leftParen → Row Entry .comma ts es → r.kind = .mark .rightParen →
      Attributes (l :: ts ++ [r]) ⟨es, some (covering (l :: ts ++ [r]))⟩

/-- A field of a table or a struct. -/
inductive Field : List Token → FieldDecl → Prop where
  | mk {name colon semicolon : Token} {typeTokens defaultTokens metadataTokens : List Token}
      {type : Spelling} {default : Option Spelling} {metadata : Metadata} {ts : List Token} :
      IsName name.kind → colon.kind = .mark .colon → Spelled TypeText typeTokens type →
      Behind .equal (Spelled (ScalarText true)) defaultTokens default →
      Attributes metadataTokens metadata → semicolon.kind = .mark .semicolon →
      ts = name :: colon :: (typeTokens ++ defaultTokens ++ metadataTokens ++ [semicolon]) →
      Field ts ⟨⟨name.lexeme, name.span⟩, type, default, metadata, covering ts⟩

/-- A value of an enum or a union. Its span is that of its name, widened to its last token. -/
inductive Value : List Token → EnumValue → Prop where
  | mk {nameTokens scalarTokens : List Token} {name : String} {scalar : Option String} :
      Dotted nameTokens name → Behind .equal (ScalarText false) scalarTokens scalar →
      Value (nameTokens ++ scalarTokens) ⟨name, scalar,
        (covering nameTokens).merge ((nameTokens ++ scalarTokens).getLastD default).span⟩

/-- Tokens in which every left brace has its right brace. -/
inductive Balanced : List Token → Prop where
  | nil : Balanced []
  | other {t : Token} {ts : List Token} : t.kind ≠ .mark .leftBrace → t.kind ≠ .mark .rightBrace →
      Balanced ts → Balanced (t :: ts)
  | block {l r : Token} {inner ts : List Token} : l.kind = .mark .leftBrace → Balanced inner →
      r.kind = .mark .rightBrace → Balanced ts → Balanced (l :: inner ++ r :: ts)

/-! ### Declarations -/

/-- The keyword of a directive. -/
def directiveWord : Directive → Keyword
  | .namespacePath => .namespaceWord
  | .includedFile => .includeWord
  | .attributeName => .attributeWord
  | .rootType => .rootTypeWord
  | .fileIdentifier => .fileIdentifierWord
  | .fileExtension => .fileExtensionWord

/-- The keyword of a table or a struct. -/
def typeWord : TypeKind → Keyword
  | .table => .tableWord
  | .struct => .structWord

/-- The keyword of an enum or a union. -/
def enumWord : EnumKind → Keyword
  | .enum => .enumWord
  | .union => .unionWord

/-- The text that a directive sets. -/
inductive DirectiveText : Directive → List Token → String → Prop where
  | path {ts : List Token} {text : String} : Dotted ts text → DirectiveText .namespacePath ts text
  | root {ts : List Token} {text : String} : Dotted ts text → DirectiveText .rootType ts text
  | file {t : Token} : t.kind = .stringLiteral → DirectiveText .includedFile [t] t.lexeme
  | identifier {t : Token} : t.kind = .stringLiteral → DirectiveText .fileIdentifier [t] t.lexeme
  | extension {t : Token} : t.kind = .stringLiteral → DirectiveText .fileExtension [t] t.lexeme
  | attribute {t : Token} : t.kind = .stringLiteral ∨ IsName t.kind →
      DirectiveText .attributeName [t] t.lexeme

/-- A whole declaration. Fields follow each other with nothing between them. -/
inductive Declared : List Token → Declaration → Prop where
  | directive {kind : Directive} {word semicolon : Token} {valueTokens ts : List Token}
      {value : String} :
      word.kind = .keyword (directiveWord kind) → DirectiveText kind valueTokens value →
      semicolon.kind = .mark .semicolon → ts = word :: (valueTokens ++ [semicolon]) →
      Declared ts (.directive kind value (covering ts))
  | type {kind : TypeKind} {word name l r : Token} {metadataTokens ts : List Token}
      {rows : List (List Token)} {metadata : Metadata} {fields : List FieldDecl} :
      word.kind = .keyword (typeWord kind) → IsName name.kind →
      Attributes metadataTokens metadata → l.kind = .mark .leftBrace →
      List.Forall₂ Field rows fields → r.kind = .mark .rightBrace →
      ts = word :: name :: (metadataTokens ++ l :: (rows.flatten ++ [r])) →
      Declared ts (.type ⟨kind, name.lexeme, metadata, fields, covering ts⟩)
  | enum {kind : EnumKind} {word name l r : Token}
      {typeTokens metadataTokens valueTokens ts : List Token} {type : Option String}
      {metadata : Metadata} {values : List EnumValue} :
      word.kind = .keyword (enumWord kind) → IsName name.kind →
      Behind .colon TypeText typeTokens type → Attributes metadataTokens metadata →
      l.kind = .mark .leftBrace → Listed Value .comma valueTokens values →
      r.kind = .mark .rightBrace →
      ts = word :: name :: (typeTokens ++ metadataTokens ++ l :: (valueTokens ++ [r])) →
      Declared ts (.enum ⟨kind, name.lexeme, type, metadata, values, covering ts⟩)
  | service {word name l r : Token} {body ts : List Token} :
      word.kind = .keyword .rpcServiceWord → IsName name.kind → l.kind = .mark .leftBrace →
      Balanced body → r.kind = .mark .rightBrace → ts = word :: name :: l :: (body ++ [r]) →
      Declared ts (.service name.lexeme (covering ts))

end Grammar

end FlatSchema
