/-!
White space, as Unicode's property `White_Space` defines it, and trimming by it.

The property holds of 25 characters, of which core's own test knows four.
-/

namespace FlatSchema

/-- The characters with the property `White_Space`, in order. -/
def blanks : List Char :=
  ['\u0009', '\u000a', '\u000b', '\u000c', '\u000d', '\u0020', '\u0085', '\u00a0', '\u1680',
    '\u2000', '\u2001', '\u2002', '\u2003', '\u2004', '\u2005', '\u2006', '\u2007', '\u2008',
    '\u2009', '\u200a', '\u2028', '\u2029', '\u202f', '\u205f', '\u3000']

/-- White space of any kind. -/
def isBlank (c : Char) : Bool := blanks.contains c

example : blanks.length = 25 ∧ blanks.Pairwise (· < ·) := by decide

/-- A text without the white space at its start. -/
def trimStart (text : List Char) : List Char := text.dropWhile isBlank

/-- A text without the white space at its end. -/
def trimEnd (text : List Char) : List Char := (text.reverse.dropWhile isBlank).reverse

/-- A text without the white space around it. -/
def trim (text : List Char) : List Char := trimEnd (trimStart text)

/-- A string without the white space around it. -/
def trimString (s : String) : String := String.ofList (trim s.toList)

end FlatSchema
