import FlatSchema.Toml.Text

/-!
Numbers of TOML. Digits may be set off by single underscores between them. A decimal number has no
leading zeros and may have a sign; a hexadecimal, octal or binary one may have leading zeros but no
sign. An integer must fit 64 bits, and a float must not be so great that it rounds to infinity.
-/

namespace FlatSchema.Toml

/-- How many characters continue a row of digits. -/
def moreDigits (isDigit : Char → Bool) : List Char → Nat
  | '_' :: d :: rest => if isDigit d then moreDigits isDigit rest + 2 else 0
  | d :: rest => if isDigit d then moreDigits isDigit rest + 1 else 0
  | [] => 0

/-- A row of digits that follow another one, without the underscores. -/
def digitsBehind (isDigit : Char → Bool) : Scan (List Char) :=
  Scan.measured fun s =>
    let n := moreDigits isDigit s
    some ((s.take n).filter (· != '_'), n)

/-- A row of digits, without the underscores. -/
def digits (isDigit : Char → Bool) : Scan (List Char) := do
  let first ← Scan.one isDigit
  return first :: (← digitsBehind isDigit)

/-- A sign, if there is one; and whether it is a minus. -/
def sign : Scan Bool := do
  return (← Scan.optional (Scan.one fun c => c == '+' || c == '-')) == some '-'

/-- Decimal digits without a leading zero. -/
def wholeDigits : Scan (List Char) :=
  (do
    let first ← Scan.one fun c => c.isDigit && c != '0'
    return first :: (← digitsBehind Char.isDigit))
  <|> (fun c => [c]) <$> Scan.one Char.isDigit

/-- An integer that fits 64 bits. -/
def fitsInt64 (n : Int) : Bool := -0x8000000000000000 ≤ n && n < 0x8000000000000000

/-- Take an integer if it fits. -/
def checked (n : Int) : Scan Int := if fitsInt64 n then return n else Scan.fail

/-- A decimal integer. -/
def decimal : Scan Int := do
  let negative ← sign
  let n : Int := Nat.ofDigitChars 10 (← wholeDigits) 0
  checked (if negative then -n else n)

/-- An integer of another base behind its mark. -/
def based (mark : String) (base : Nat) (isDigit : Char → Bool) : Scan Int := do
  Scan.text mark
  let ds ← digits isDigit
  checked (ds.foldl (fun n c => base * n + hexValue c) 0 : Nat)

/-- An integer. -/
def integer : Scan Int :=
  based "0x" 16 isHexDigit
  <|> based "0o" 8 (fun c => '0' ≤ c && c ≤ '7')
  <|> based "0b" 2 (fun c => c == '0' || c == '1')
  <|> decimal

/-! ### Floats -/

/-- The least number that rounds to infinity: half a step above the greatest double. -/
def infiniteFrom : Nat := Nat.pow 2 1024 - Nat.pow 2 970

/-- Whether `m` times ten to the power `e` rounds to infinity. Far away from the bound the number of
    digits decides. -/
def roundsToInfinity (m : Nat) (e : Int) : Bool :=
  let magnitude := (Nat.toDigits 10 m).length + e
  if m = 0 || magnitude < 300 then false
  else if magnitude > 320 then true
  else if 0 ≤ e then infiniteFrom ≤ m * Nat.pow 10 e.toNat
  else infiniteFrom * Nat.pow 10 (-e).toNat ≤ m

/-- The digits behind a point. -/
def fraction : Scan (List Char) := do
  Scan.char '.'
  digits Char.isDigit

/-- An exponent. -/
def exponent : Scan Int := do
  let _ ← Scan.one fun c => c == 'e' || c == 'E'
  let negative ← sign
  let n : Int := Nat.ofDigitChars 10 (← digits Char.isDigit) 0
  return if negative then -n else n

/-- A float with digits: a fraction, an exponent or both follow the whole digits. -/
def finiteFloat : Scan Unit := do
  let negative ← sign
  let whole ← wholeDigits
  let behind ← Scan.optional fraction
  let power ← Scan.optional exponent
  if behind.isNone && power.isNone then Scan.fail
  else
    let places := behind.getD []
    let m := Nat.ofDigitChars 10 (whole ++ places) 0
    if !negative && roundsToInfinity m (power.getD 0 - places.length) then Scan.fail
    else return ()

/-- A float that has a word instead of digits. -/
def wordFloat : Scan Unit := do
  let _ ← sign
  Scan.text "inf" <|> Scan.text "nan"

/-- A float. -/
def float : Scan Unit := finiteFloat <|> wordFloat

end FlatSchema.Toml
