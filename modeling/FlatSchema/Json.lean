/-!
JSON values and their two written forms. The compact form has no white space; the other one puts
each member on a line of its own, indented by two spaces a level, and writes empty lists and
objects without a line break.

A string is written between quotes. Quotes, backslashes and the control characters below the space
are escaped, by a letter where JSON has one and by four hexadecimal digits otherwise; everything
else stands for itself.
-/

namespace FlatSchema

/-- A JSON value without fractions. Members of an object keep their order. -/
inductive Json where
  | null
  | bool (b : Bool)
  | integer (n : Int)
  | string (s : String)
  | array (items : List Json)
  | object (members : List (String × Json))

namespace Json

/-! ### Strings -/

/-- The letter that stands for a character behind a backslash. -/
def escapeLetter? : Char → Option Char
  | '"' => some '"'
  | '\\' => some '\\'
  | '\x08' => some 'b'
  | '\x0c' => some 'f'
  | '\n' => some 'n'
  | '\r' => some 'r'
  | '\t' => some 't'
  | _ => none

/-- Two hexadecimal digits of a number below 256. -/
def twoHexDigits (n : Nat) : List Char := [Nat.digitChar (n / 16), Nat.digitChar (n % 16)]

/-- A character inside a string. -/
def escape (c : Char) : List Char :=
  match escapeLetter? c with
  | some letter => ['\\', letter]
  | none => if c.toNat < 32 then ['\\', 'u', '0', '0'] ++ twoHexDigits c.toNat else [c]

/-- A string between quotes. -/
def quote (s : String) : List Char := '"' :: (s.toList.flatMap escape ++ ['"'])

/-! ### Layouts -/

/-- The two ways to write a value. -/
inductive Layout where
  | compact
  | pretty
deriving DecidableEq, Inhabited

/-- What stands before a member at a depth. -/
def Layout.line (depth : Nat) : Layout → List Char
  | .compact => []
  | .pretty => '\n' :: List.replicate (2 * depth) ' '

/-- What stands between the key of a member and its value. -/
def Layout.colon : Layout → List Char
  | .compact => [':']
  | .pretty => [':', ' ']

/-- Written members between brackets. -/
def enclose (layout : Layout) (depth : Nat) (left right : Char) : List (List Char) → List Char
  | [] => [left, right]
  | first :: rest =>
    left :: (layout.line (depth + 1) ++ first
      ++ rest.flatMap (fun m => ',' :: (layout.line (depth + 1) ++ m))
      ++ layout.line depth ++ [right])

mutual

/-- A value at a depth. -/
def write (layout : Layout) (depth : Nat) : Json → List Char
  | null => "null".toList
  | bool b => (if b then "true" else "false").toList
  | integer n => (toString n).toList
  | string s => quote s
  | array items => enclose layout depth '[' ']' (writeItems layout (depth + 1) items)
  | object members => enclose layout depth '\x7b' '\x7d' (writeMembers layout (depth + 1) members)

/-- The items of a list. -/
def writeItems (layout : Layout) (depth : Nat) : List Json → List (List Char)
  | [] => []
  | item :: rest => write layout depth item :: writeItems layout depth rest

/-- The members of an object. -/
def writeMembers (layout : Layout) (depth : Nat) : List (String × Json) → List (List Char)
  | [] => []
  | (key, value) :: rest =>
    (quote key ++ layout.colon ++ write layout depth value) :: writeMembers layout depth rest

end

/-- A value as text. -/
def render (layout : Layout) (j : Json) : String := String.ofList (write layout 0 j)

/-! ### Values -/

/-- A value that may be missing. -/
def optional {α : Type} (f : α → Json) : Option α → Json
  | some a => f a
  | none => null

/-- A list of strings. -/
def strings (items : List String) : Json := array (items.map string)

end Json

end FlatSchema
