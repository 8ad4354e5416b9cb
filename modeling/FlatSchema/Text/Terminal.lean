/-!
Texts that reach a terminal. A terminal takes some characters as commands, so a text that comes from
elsewhere is changed before it is shown: in one place its commands are spelled out, in another they
are taken out.

A command is a single control character, or a sequence that U+001B starts.

        what follows U+001B       the sequence ends at
        [                         a character from @ to ~
        ]                         U+0007
        X  ^  _                   a character with the byte 0x9c
        P, up to @ … ~            a character with the byte 0x9c
        a space … /               a character from 0 to ~
        any other visible one     that character

A new U+001B starts over, and U+0018 and U+001A end every sequence.
-/

namespace FlatSchema

namespace Terminal

/-! ### Spelling commands out -/

/-- A character, or its code if a terminal acts on it. -/
def spellChar (c : Char) : List Char :=
  if "\x07\x08\x0c\x1b\x7f".toList.contains c then
    ['\\', 'x', Nat.digitChar (c.toNat / 16), Nat.digitChar (c.toNat % 16)]
  else if '\u0080' ≤ c ∧ c ≤ '\u009f' then
    ['\\', 'u', '\x7b'] ++ Nat.toDigits 16 c.toNat ++ ['\x7d']
  else [c]

/-- A text with the codes of what a terminal acts on. -/
def spell (s : String) : String := String.ofList (s.toList.flatMap spellChar)

/-! ### Taking commands out -/

/-- What part of a sequence comes next. -/
inductive Mode where
  /-- No sequence: what comes is text. -/
  | text
  | escape
  | escapeIntermediate
  | control
  | command
  | string
  | device
  | deviceParameter
  | deviceIntermediate
deriving DecidableEq, Inhabited

/-- A character is in a range. -/
def between (low high c : Char) : Bool := low ≤ c && c ≤ high

/-- White space that a terminal obeys in the middle of a sequence. -/
def isSpacing (c : Char) : Bool := "\t\n\x0c\r".toList.contains c

/-- A character beyond ASCII. -/
def isWide (c : Char) : Bool := '\u0080' ≤ c

/-- A string ends where a byte of it is 0x9c. -/
def endsString (c : Char) : Bool := (String.utf8EncodeChar c).contains 0x9c

namespace Mode

/-- The mode behind a character. -/
def next (m : Mode) (c : Char) : Mode :=
  if c = '\x1b' then escape
  else if c = '\x18' ∨ c = '\x1a' then text
  else
    match m with
    | text => text
    | escape =>
      if between ' ' '/' c then escapeIntermediate
      else if c = '[' then control
      else if c = ']' then command
      else if c = 'P' then device
      else if c = 'X' ∨ c = '^' ∨ c = '_' then string
      else if between '0' '~' c then text
      else escape
    | escapeIntermediate => if between '0' '~' c then text else escapeIntermediate
    | control => if between '@' '~' c then text else control
    | command => if c = '\x07' then text else command
    | string => if endsString c then text else string
    | device =>
      if between '@' '~' c then string
      else if between '0' '?' c then deviceParameter
      else if between ' ' '/' c then deviceIntermediate
      else device
    | deviceParameter =>
      if between '<' '~' c then string
      else if between ' ' '/' c then deviceIntermediate
      else deviceParameter
    | deviceIntermediate => if between '0' '~' c then string else deviceIntermediate

/-- A character shows in a mode. -/
def shows (m : Mode) (c : Char) : Bool :=
  match m with
  | text => isSpacing c || between ' ' '~' c || isWide c
  | escape | escapeIntermediate | control => isSpacing c
  | _ => false

end Mode

/-- How far a text is read. White space in a sequence interrupts it: what follows shows, up to the
    next control character, where the sequence goes on, or for good once it goes beyond ASCII. -/
structure State where
  mode : Mode := .text
  interrupted : Bool := false
deriving DecidableEq, Inhabited

namespace State

/-- A character shows. -/
def shows (s : State) (c : Char) : Bool :=
  (s.interrupted && Mode.text.shows c) || s.mode.shows c

/-- The state behind a character. -/
def next (s : State) (c : Char) : State :=
  if s.interrupted ∧ Mode.text.shows c then
    if isWide c then {} else s
  else ⟨s.mode.next c, s.mode != .text && s.mode.shows c⟩

/-- What shows of a text. -/
def shown (s : State) : List Char → List Char
  | [] => []
  | c :: cs => if s.shows c then c :: (s.next c).shown cs else (s.next c).shown cs

end State

/-- What a terminal shows of a text, where a sequence that is not finished ends with the text. -/
def shown (s : String) : String := String.ofList (State.shown {} s.toList)

end Terminal

end FlatSchema
