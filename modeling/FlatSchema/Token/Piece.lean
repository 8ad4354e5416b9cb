import FlatSchema.Text.Blank
import FlatSchema.Token

/-!
A schema text is a row of pieces: white space, comments, tokens and stray characters. Each piece
takes as many characters as it can, and nothing of the text is lost between two pieces.

        hp:/*!*/ 0x;
        ↦  token hp · token : · comment /*!*/ · blank · token 0x (flaw: no digits) · token ;

A piece knows nothing of places. What is wrong with it is a list of flaws, each with the number of
characters from the start of the piece up to where it shows.
-/

namespace FlatSchema

/-- What can be wrong with a piece of text. -/
inductive Flaw where
  | unexpectedCharacter (c : Char)
  | openBlockComment
  | openString
  | unknownEscape (c : Char)
  | missingHexDigits
deriving DecidableEq, Inhabited

/-- What is said about a flaw. -/
def Flaw.message : Flaw → String
  | .unexpectedCharacter c => s!"unexpected character '{c}'"
  | .openBlockComment => "unterminated block comment"
  | .openString => "unterminated string literal"
  | .unknownEscape c => s!"unknown escape sequence '\\{c}'"
  | .missingHexDigits => "expected hex digits after '0x'"

/-- What a piece is. -/
inductive Role where
  | blank
  | lineComment
  | blockComment
  | stray
  | token (kind : TokenKind) (lexeme : String)
deriving DecidableEq, Inhabited

/-- A piece of text. Each flaw comes with the number of characters up to where it shows. -/
structure Piece where
  role : Role
  text : List Char
  flaws : List (Flaw × Nat) := []
deriving DecidableEq, Inhabited

namespace Piece

/-! ### Character classes -/

/-- Letters and the underscore start an identifier. Only ASCII letters count. -/
def startsIdentifier (c : Char) : Bool := c.isAlpha || c == '_'

/-- Letters, digits and the underscore continue an identifier. -/
def continuesIdentifier (c : Char) : Bool := c.isAlphanum || c == '_'

def isHexDigit (c : Char) : Bool :=
  c.isDigit || ('a' ≤ c && c ≤ 'f') || ('A' ≤ c && c ≤ 'F')

def isSign (c : Char) : Bool := c == '+' || c == '-'

def isExponentLetter (c : Char) : Bool := c == 'e' || c == 'E'

/-! ### Numbers -/

/-- A point and the digits behind it, if there is at least one. -/
def fraction : List Char → List Char
  | '.' :: d :: rest => if d.isDigit then '.' :: d :: rest.takeWhile Char.isDigit else []
  | _ => []

/-- An exponent letter behind which a digit or a sign stands, the sign, and all digits that
    follow. -/
def exponent : List Char → List Char
  | e :: c :: rest =>
    if isExponentLetter e && (c.isDigit || isSign c) then e :: c :: rest.takeWhile Char.isDigit
    else []
  | _ => []

/-- A decimal number: digits, a fraction and an exponent, of which the last two may be missing.
    It is a float as soon as one of them is there. -/
def decimal (input : List Char) : Piece :=
  let whole := input.takeWhile Char.isDigit
  let fractional := fraction (input.drop whole.length)
  let exponential := exponent (input.drop (whole.length + fractional.length))
  let text := whole ++ fractional ++ exponential
  let kind := if fractional.isEmpty && exponential.isEmpty then .intLiteral else .floatLiteral
  ⟨.token kind (String.ofList text), text, []⟩

/-- A hexadecimal number: `x` is the letter behind the zero, `rest` what follows. -/
def hexadecimal (x : Char) (rest : List Char) : Piece :=
  let digits := rest.takeWhile isHexDigit
  let text := '0' :: x :: digits
  let flaws := if digits.isEmpty then [(.missingHexDigits, 2)] else []
  ⟨.token .intLiteral (String.ofList text), text, flaws⟩

/-- A number. -/
def number : List Char → Piece
  | '0' :: 'x' :: rest => hexadecimal 'x' rest
  | '0' :: 'X' :: rest => hexadecimal 'X' rest
  | input => decimal input

/-! ### Strings -/

/-- The character that a backslash and the given one stand for. -/
def unescape? : Char → Option Char
  | 'n' => some '\n'
  | 't' => some '\t'
  | 'r' => some '\r'
  | '0' => some '\x00'
  | '\\' => some '\\'
  | '"' => some '"'
  | _ => none

/-- The rest of a string literal behind its opening quote: the text up to the closing quote, the
    characters it stands for, and its flaws. -/
structure StringBody where
  text : List Char
  value : List Char
  flaws : List (Flaw × Nat)

/-- Read a string literal of which `n` characters have been read. It ends at its closing quote, or,
    unfinished, behind a line feed or at the end of the text. An unknown escape stands for its own
    character. -/
def stringBody : Nat → List Char → StringBody
  | n, [] => ⟨[], [], [(.openString, n)]⟩
  | _, '"' :: _ => ⟨['"'], [], []⟩
  | n, '\n' :: _ => ⟨['\n'], [], [(.openString, n + 1)]⟩
  | n, ['\\'] => ⟨['\\'], [], [(.openString, n + 1)]⟩
  | n, '\\' :: c :: rest =>
    let body := stringBody (n + 2) rest
    match unescape? c with
    | some v => { body with text := '\\' :: c :: body.text, value := v :: body.value }
    | none =>
      ⟨'\\' :: c :: body.text, c :: body.value, (.unknownEscape c, n + 2) :: body.flaws⟩
  | n, c :: rest =>
    let body := stringBody (n + 1) rest
    { body with text := c :: body.text, value := c :: body.value }

/-- A string literal; `rest` follows its opening quote. -/
def stringLiteral (rest : List Char) : Piece :=
  let body := stringBody 1 rest
  ⟨.token .stringLiteral (String.ofList body.value), '"' :: body.text, body.flaws⟩

/-! ### Comments -/

/-- The text of a block comment behind its opening, and whether it is closed. -/
def blockBody : List Char → List Char × Bool
  | [] => ([], false)
  | '*' :: '/' :: _ => (['*', '/'], true)
  | c :: rest => (c :: (blockBody rest).1, (blockBody rest).2)

/-- A block comment; `rest` follows its opening. One that is never closed takes the whole rest. -/
def blockComment (rest : List Char) : Piece :=
  let text := '/' :: '*' :: (blockBody rest).1
  ⟨.blockComment, text, if (blockBody rest).2 then [] else [(.openBlockComment, text.length)]⟩

/-! ### All pieces -/

/-- An identifier, or the keyword that it spells. -/
def word (text : List Char) : Piece :=
  let lexeme := String.ofList text
  let kind := match Keyword.ofText? lexeme with
    | some k => .keyword k
    | none => .identifier
  ⟨.token kind lexeme, text, []⟩

/-- A mark, or else a stray character. -/
def plain (c : Char) : Piece :=
  match Mark.ofChar? c with
  | some m => ⟨.token (.mark m) (String.singleton c), [c], []⟩
  | none => ⟨.stray, [c], [(.unexpectedCharacter c, 1)]⟩

/-- The first piece of the text `c :: rest`. -/
def first (c : Char) (rest : List Char) : Piece :=
  if isBlank c then ⟨.blank, c :: rest.takeWhile isBlank, []⟩
  else if c.isDigit then number (c :: rest)
  else if startsIdentifier c then word (c :: rest.takeWhile continuesIdentifier)
  else match c, rest with
    | '/', '/' :: _ => ⟨.lineComment, c :: rest.takeWhile (· != '\n'), []⟩
    | '/', '*' :: rest => blockComment rest
    | '"', _ => stringLiteral rest
    | '.', d :: _ => if d.isDigit then decimal (c :: rest) else plain c
    | _, _ => plain c

/-- All pieces of a text. -/
def split : List Char → List Piece
  | [] => []
  | c :: rest => first c rest :: split (rest.drop ((first c rest).text.length - 1))
termination_by text => text.length
decreasing_by simp only [List.length_drop, List.length_cons]; omega

end Piece

end FlatSchema
