import FlatSchema.Toml.Scan

/-!
Strings, keys and comments of TOML.

A basic string stands in quotes and has escapes, a literal one stands in apostrophes and has none.
Three quotes or apostrophes open a string of many lines: a line break directly behind them does not
count, line breaks inside count as line feeds however they are written, one or two of the quotes may
stand anywhere inside and at the end, and in a basic string a backslash at the end of a line takes
away all white space that follows.
-/

namespace FlatSchema.Toml

/-! ### Characters -/

/-- Blanks inside a line. -/
def isSpace (c : Char) : Bool := c == ' ' || c == '\t'

/-- What may stand in comments and strings: tabs and everything that is no ASCII control
    character. -/
def isPlain (c : Char) : Bool := c == '\t' || (' ' ≤ c && c != '\x7f')

/-- What a key without quotes is made of. -/
def isBare (c : Char) : Bool := c.isAlphanum || c == '_' || c == '-'

def isHexDigit (c : Char) : Bool := c.isDigit || ('a' ≤ c && c ≤ 'f') || ('A' ≤ c && c ≤ 'F')

/-- The value of a hexadecimal digit. -/
def hexValue (c : Char) : Nat :=
  if c.isDigit then c.toNat - '0'.toNat
  else if 'a' ≤ c then c.toNat - 'a'.toNat + 10
  else c.toNat - 'A'.toNat + 10

/-- The number that hexadecimal digits write. -/
def hexNumber (digits : List Char) : Nat := digits.foldl (fun n c => 16 * n + hexValue c) 0

/-! ### Layout -/

/-- White space inside a line. -/
def space : Scan Unit := do let _ ← Scan.many isSpace

/-- A line break. -/
def newline : Scan Unit := Scan.text "\n" <|> Scan.text "\r\n"

/-- A comment, without the line break behind it. -/
def comment : Scan Unit := do
  Scan.char '#'
  let _ ← Scan.many isPlain

/-- The end of a line or of the text. -/
def lineEnd : Scan Unit := newline <|> Scan.atEnd

/-- What may follow on the line of a header or an entry. -/
def trailing : Scan Unit := do
  space
  let _ ← Scan.optional comment
  lineEnd

/-- How many characters of white space, line breaks and comments come next; none if a comment is
    broken. -/
def gapLength (inComment : Bool) : List Char → Option Nat
  | [] => if inComment then none else some 0
  | '\n' :: rest => (gapLength false rest).map (· + 1)
  | '\r' :: '\n' :: rest => (gapLength false rest).map (· + 2)
  | c :: rest =>
    if inComment then if isPlain c then (gapLength true rest).map (· + 1) else none
    else if isSpace c then (gapLength false rest).map (· + 1)
    else if c = '#' then (gapLength true rest).map (· + 1)
    else some 0

/-- What may stand between the items of an array. -/
def gap : Scan Unit := Scan.measured fun s => (gapLength false s).map fun n => ((), n)

/-! ### Strings -/

/-- The character with a code, if there is one. -/
def charOf? (code : Nat) : Option Char :=
  if code.isValidChar then some (Char.ofNat code) else none

/-- A character written by its code in `n` hexadecimal digits, and how many digits that takes. -/
def coded (n : Nat) (s : List Char) : Option (Char × Nat) :=
  let digits := s.take n
  if digits.length = n && digits.all isHexDigit then
    (charOf? (hexNumber digits)).map fun c => (c, n)
  else none

/-- The character that an escape stands for, and how many characters it takes behind its
    backslash. -/
def escape : List Char → Option (Char × Nat)
  | 'b' :: _ => some ('\x08', 1)
  | 'f' :: _ => some ('\x0c', 1)
  | 'n' :: _ => some ('\n', 1)
  | 'r' :: _ => some ('\r', 1)
  | 't' :: _ => some ('\t', 1)
  | '"' :: _ => some ('"', 1)
  | '\\' :: _ => some ('\\', 1)
  | 'u' :: rest => (coded 4 rest).map fun p => (p.1, p.2 + 1)
  | 'U' :: rest => (coded 8 rest).map fun p => (p.1, p.2 + 1)
  | _ => none

/-- Put characters before a text that is read, of which they take `n`. -/
def before (cs : List Char) (n : Nat) (r : Option (List Char × Nat)) : Option (List Char × Nat) :=
  r.map fun p => (cs ++ p.1, n + p.2)

/-- A basic string behind its opening quote. -/
def basicBody : List Char → Option (List Char × Nat)
  | [] => none
  | '"' :: _ => some ([], 1)
  | '\\' :: rest =>
    match escape rest with
    | some (c, n) => before [c] (n + 1) (basicBody (rest.drop n))
    | none => none
  | c :: rest => if isPlain c then before [c] 1 (basicBody rest) else none
termination_by s => s.length
decreasing_by all_goals simp only [List.length_drop, List.length_cons]; omega

/-- A literal string behind its opening apostrophe. -/
def literalBody : List Char → Option (List Char × Nat)
  | [] => none
  | '\'' :: _ => some ([], 1)
  | c :: rest => if isPlain c then before [c] 1 (literalBody rest) else none

/-- The end of a string of many lines, where three of its quotes `q` are behind us: up to two more
    of them belong to the string. -/
def closing (q : Char) (rest : List Char) : List Char × Nat :=
  let extra := ((rest.take 2).takeWhile (· == q)).length
  (List.replicate extra q, 3 + extra)

/-- How many white space characters and line breaks come next. -/
def breakLength : List Char → Nat
  | '\r' :: '\n' :: rest => breakLength rest + 2
  | c :: rest => if isSpace c || c == '\n' then breakLength rest + 1 else 0
  | [] => 0

/-- How much a backslash at the end of a line takes away behind it; none if it does not stand at the
    end of a line. -/
def continuation (s : List Char) : Option Nat :=
  let spaces := (s.takeWhile isSpace).length
  match s.drop spaces with
  | '\n' :: rest => some (spaces + 1 + breakLength rest)
  | '\r' :: '\n' :: rest => some (spaces + 2 + breakLength rest)
  | _ => none

/-- A basic string of many lines behind its opening. -/
def basicLines : List Char → Option (List Char × Nat)
  | [] => none
  | '"' :: '"' :: '"' :: rest => some (closing '"' rest)
  | '\r' :: '\n' :: rest => before ['\n'] 2 (basicLines rest)
  | '\\' :: rest =>
    match continuation rest with
    | some n => before [] (n + 1) (basicLines (rest.drop n))
    | none =>
      match escape rest with
      | some (c, n) => before [c] (n + 1) (basicLines (rest.drop n))
      | none => none
  | c :: rest => if isPlain c || c == '\n' then before [c] 1 (basicLines rest) else none
termination_by s => s.length
decreasing_by all_goals simp only [List.length_drop, List.length_cons]; omega

/-- A literal string of many lines behind its opening. -/
def literalLines : List Char → Option (List Char × Nat)
  | [] => none
  | '\'' :: '\'' :: '\'' :: rest => some (closing '\'' rest)
  | '\r' :: '\n' :: rest => before ['\n'] 2 (literalLines rest)
  | c :: rest => if isPlain c || c == '\n' then before [c] 1 (literalLines rest) else none

/-- A string whose opening is followed by what `body` reads. -/
def delimited (opening : String) (body : List Char → Option (List Char × Nat)) : Scan String := do
  Scan.text opening
  String.ofList <$> Scan.measured body

/-- A string of many lines; a line break directly behind its opening does not count. -/
def delimitedLines (opening : String) (body : List Char → Option (List Char × Nat)) :
    Scan String := do
  Scan.text opening
  let _ ← Scan.optional newline
  String.ofList <$> Scan.measured body

/-- A string on one line. -/
def lineString : Scan String := delimited "\"" basicBody <|> delimited "'" literalBody

/-- A string of any kind. -/
def string : Scan String :=
  delimitedLines "\"\"\"" basicLines <|> delimitedLines "'''" literalLines <|> lineString

/-! ### Keys -/

/-- A single key, bare or as a string on one line. -/
def simpleKey : Scan String := lineString <|> String.ofList <$> Scan.many₁ isBare

/-- The names of a key with dots. -/
def keyNames : Scan (List String) := Scan.row₁ (do space; let k ← simpleKey; space; return k) '.'

end FlatSchema.Toml
