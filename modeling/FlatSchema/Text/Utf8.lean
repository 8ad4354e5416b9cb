/-!
Bytes and the text that they show. The names of files are bytes, and bytes need not be UTF-8. Where
they are not, a text shows U+FFFD for them: one for every byte with which no character begins, and
one for every character that begins and breaks off.

        bytes    61   e2 82 ac   ff        e2 82    62   f0 9f 92
        text     a    €          U+FFFD    U+FFFD   b    U+FFFD
-/

namespace FlatSchema

/-- What the name of a file is made of. -/
abbrev Bytes := List UInt8

namespace Utf8

/-- The bytes of a text. -/
def encode (text : List Char) : Bytes := text.flatMap String.utf8EncodeChar

/-- The character that bytes begin with. -/
def first? (bytes : Bytes) : Option Char := (bytes.take 4).toByteArray.utf8DecodeChar? 0

/-- A byte inside a character. -/
def isInner (b : UInt8) : Bool := 0x80 ≤ b && b ≤ 0xbf

/-- A character of three or four bytes can begin with these two. -/
def opens (b c : UInt8) : Bool :=
  (b = 0xe0 && 0xa0 ≤ c && c ≤ 0xbf) || (b = 0xed && 0x80 ≤ c && c ≤ 0x9f) ||
  (b = 0xf0 && 0x90 ≤ c && c ≤ 0xbf) || (b = 0xf4 && 0x80 ≤ c && c ≤ 0x8f) ||
  (0xe1 ≤ b && b ≤ 0xf3 && b != 0xed && b != 0xf0 && isInner c)

/-- How many bytes break off together, where no character begins. -/
def brokenLength : Bytes → Nat
  | b :: c :: rest => if opens b c then 2 + (rest.takeWhile isInner).length else 1
  | _ => 1

/-- The text that bytes show. -/
def decode : Bytes → List Char
  | [] => []
  | b :: rest =>
    match first? (b :: rest) with
    | some c => c :: decode (rest.drop (c.utf8Size - 1))
    | none => '\ufffd' :: decode (rest.drop (brokenLength (b :: rest) - 1))
termination_by bytes => bytes.length
decreasing_by all_goals simp only [List.length_drop, List.length_cons]; omega

end Utf8

/-- The bytes of a string. -/
def bytesOf (s : String) : Bytes := Utf8.encode s.toList

/-- The string that bytes show. -/
def shownOf (bytes : Bytes) : String := String.ofList (Utf8.decode bytes)

end FlatSchema
