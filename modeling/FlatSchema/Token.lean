import FlatSchema.Source.Position

/-!
Tokens of the schema language: literals, names, keywords, marks, and the end of the file.
-/

namespace FlatSchema

/-- The words the language gives a meaning to. -/
inductive Keyword where
  | namespaceWord
  | includeWord
  | attributeWord
  | tableWord
  | structWord
  | enumWord
  | unionWord
  | rootTypeWord
  | fileIdentifierWord
  | fileExtensionWord
  | rpcServiceWord
  | trueWord
  | falseWord
deriving DecidableEq, Inhabited

namespace Keyword

/-- Every keyword. -/
def all : List Keyword :=
  [namespaceWord, includeWord, attributeWord, tableWord, structWord, enumWord, unionWord,
    rootTypeWord, fileIdentifierWord, fileExtensionWord, rpcServiceWord, trueWord, falseWord]

/-- A keyword as it is written. -/
def text : Keyword → String
  | namespaceWord => "namespace"
  | includeWord => "include"
  | attributeWord => "attribute"
  | tableWord => "table"
  | structWord => "struct"
  | enumWord => "enum"
  | unionWord => "union"
  | rootTypeWord => "root_type"
  | fileIdentifierWord => "file_identifier"
  | fileExtensionWord => "file_extension"
  | rpcServiceWord => "rpc_service"
  | trueWord => "true"
  | falseWord => "false"

/-- The name of its token kind in listings. -/
def name : Keyword → String
  | namespaceWord => "Namespace"
  | includeWord => "Include"
  | attributeWord => "Attribute"
  | tableWord => "Table"
  | structWord => "Struct"
  | enumWord => "Enum"
  | unionWord => "Union"
  | rootTypeWord => "RootType"
  | fileIdentifierWord => "FileIdentifier"
  | fileExtensionWord => "FileExtension"
  | rpcServiceWord => "RpcService"
  | trueWord => "True"
  | falseWord => "False"

/-- The keyword a word spells. -/
def ofText? (word : String) : Option Keyword := all.find? (·.text == word)

theorem mem_all (k : Keyword) : k ∈ all := by cases k <;> decide

/-- The keywords that open a declaration: all but the two truth values. -/
def opensDeclaration : Keyword → Bool
  | trueWord | falseWord => false
  | _ => true

end Keyword

/-- Punctuation. -/
inductive Mark where
  | leftParen
  | rightParen
  | leftBrace
  | rightBrace
  | leftBracket
  | rightBracket
  | comma
  | semicolon
  | colon
  | equal
  | dot
  | plus
  | minus
deriving DecidableEq, Inhabited

namespace Mark

/-- Every mark. -/
def all : List Mark :=
  [leftParen, rightParen, leftBrace, rightBrace, leftBracket, rightBracket, comma, semicolon,
    colon, equal, dot, plus, minus]

/-- A mark as it is written. -/
def char : Mark → Char
  | leftParen => '('
  | rightParen => ')'
  | leftBrace => '\x7b'
  | rightBrace => '\x7d'
  | leftBracket => '['
  | rightBracket => ']'
  | comma => ','
  | semicolon => ';'
  | colon => ':'
  | equal => '='
  | dot => '.'
  | plus => '+'
  | minus => '-'

/-- The name of its token kind in listings. -/
def name : Mark → String
  | leftParen => "LeftParen"
  | rightParen => "RightParen"
  | leftBrace => "LeftBrace"
  | rightBrace => "RightBrace"
  | leftBracket => "LeftBracket"
  | rightBracket => "RightBracket"
  | comma => "Comma"
  | semicolon => "Semicolon"
  | colon => "Colon"
  | equal => "Equal"
  | dot => "Dot"
  | plus => "Plus"
  | minus => "Minus"

/-- The mark a character is. -/
def ofChar? (c : Char) : Option Mark := all.find? (·.char == c)

theorem mem_all (m : Mark) : m ∈ all := by cases m <;> decide

/-- A mark between quotes, as messages show it. -/
def quoted (m : Mark) : String := s!"'{m.char}'"

end Mark

/-- What a token is. -/
inductive TokenKind where
  | intLiteral
  | floatLiteral
  | stringLiteral
  | identifier
  | keyword (k : Keyword)
  | mark (m : Mark)
  | eof
deriving DecidableEq, Inhabited

namespace TokenKind

/-- Every kind. -/
def all : List TokenKind :=
  [intLiteral, floatLiteral, stringLiteral, identifier] ++ Keyword.all.map keyword
    ++ Mark.all.map mark ++ [eof]

/-- The name of a kind in listings. -/
def name : TokenKind → String
  | intLiteral => "IntLiteral"
  | floatLiteral => "FloatLiteral"
  | stringLiteral => "StringLiteral"
  | identifier => "Identifier"
  | keyword k => k.name
  | mark m => m.name
  | eof => "Eof"

/-- The kind of a name. -/
def ofName? (name : String) : Option TokenKind := all.find? (·.name == name)

def isKeyword : TokenKind → Bool
  | keyword _ => true
  | _ => false

/-- Names are identifiers, and keywords too: a keyword is reserved only where a declaration
    starts. -/
def isName : TokenKind → Bool
  | identifier => true
  | k => k.isKeyword

theorem mem_all (k : TokenKind) : k ∈ all := by
  cases k <;> simp [all, Keyword.mem_all, Mark.mem_all]

end TokenKind

/-- A token. The lexeme of a string literal is its unescaped content without the quotes; that of
    any other kind is the text as written. -/
structure Token where
  kind : TokenKind
  lexeme : String
  span : Span
deriving DecidableEq, Inhabited

namespace Token

/-- The end of the file. -/
def eof (span : Span) : Token := ⟨.eof, "", span⟩

/-- Kind and lexeme, `Identifier(hp)`. -/
def render (t : Token) : String := s!"{t.kind.name}({t.lexeme})"

end Token

end FlatSchema
