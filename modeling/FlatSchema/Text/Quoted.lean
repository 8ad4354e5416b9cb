import FlatSchema.Text.Visible

/-!
Texts as listings show them: between quotes, on one line, with everything that cannot be seen
spelled out.

        a"b⏎é   ↦   "a\"b\né"            U+001B   ↦   "\u{1b}"
-/

namespace FlatSchema

/-- The letter that stands for a character behind a backslash. -/
def escapeLetter? : Char → Option Char
  | '\x00' => some '0'
  | '\t' => some 't'
  | '\n' => some 'n'
  | '\r' => some 'r'
  | '"' => some '"'
  | '\\' => some '\\'
  | _ => none

/-- A character inside quotes. One that cannot be seen is shown by its code. -/
def showChar (c : Char) : List Char :=
  match escapeLetter? c with
  | some letter => ['\\', letter]
  | none =>
    if isVisible c then [c]
    else ['\\', 'u', '\x7b'] ++ Nat.toDigits 16 c.toNat ++ ['\x7d']

/-- A text between quotes. -/
def quoted (s : String) : String := String.ofList ('"' :: (s.toList.flatMap showChar ++ ['"']))

end FlatSchema
