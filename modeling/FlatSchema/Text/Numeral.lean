import FlatSchema.Text.Blank

/-!
Decimal numerals with a sign, and ASCII comparison that ignores case.

A numeral is an optional sign and at least one digit, with as many leading zeros as one likes. A
32-bit numeral is one whose value fits; a value that does not fit is no value at all.

        "007" ↦ 7      "+5" ↦ 5      "-2147483648" ↦ -2³¹      "2147483648", "0x1", "-" ↦ nothing
-/

namespace FlatSchema

/-- The value of a row of digits; none if there is no digit or something else among them. -/
def natural? (digits : List Char) : Option Nat :=
  if digits.isEmpty || !digits.all Char.isDigit then none
  else some (Nat.ofDigitChars 10 digits 0)

/-- The value of a numeral, with a sign or without. -/
def integer? : List Char → Option Int
  | '-' :: digits => (natural? digits).map fun n => -(n : Int)
  | '+' :: digits => (natural? digits).map fun n => (n : Int)
  | digits => (natural? digits).map fun n => (n : Int)

/-- The values that 32 bits with a sign hold. -/
def fitsInt32 (n : Int) : Bool := -0x80000000 ≤ n && n < 0x80000000

/-- The value of a numeral that fits 32 bits. -/
def int32? (text : List Char) : Option Int := (integer? text).filter fitsInt32

/-- Equal up to the case of ASCII letters. -/
def sameLetters (a b : String) : Bool := a.toList.map Char.toLower == b.toList.map Char.toLower

/-- A truth value, in any case and with white space around it. -/
def truth? (text : String) : Option Bool :=
  let word := trimString text
  if sameLetters word "true" then some true
  else if sameLetters word "false" then some false
  else none

end FlatSchema
