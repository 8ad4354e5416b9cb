import FlatSchema.Text.Blank
import FlatSchema.Source.Position

/-!
A cursor is a reading point in a schema text: the characters still to be read and the place where
they start. Every movement is a `skip` over some number of characters, so that places are always
right and two movements in a row are one.

An earlier cursor serves as a mark: the text since a mark is what the mark had still to read and
the cursor no longer has.
-/

namespace FlatSchema

/-- A reading point in the text of a file. -/
structure Cursor where
  file : String
  position : Position
  rest : List Char
deriving DecidableEq, Inhabited

namespace Cursor

/-- The cursor before the first character of a text. -/
def ofSource (source file : String) : Cursor := ⟨file, .first, source.toList⟩

/-- Move over the next `n` characters, or over all of them if there are fewer. -/
def skip (n : Nat) (c : Cursor) : Cursor :=
  { c with position := c.position.after (c.rest.take n), rest := c.rest.drop n }

/-- The next character. -/
def peek? (c : Cursor) : Option Char := c.rest.head?

/-- The character behind the next one. -/
def peekSecond? (c : Cursor) : Option Char := c.rest[1]?

/-- Move over the next character. -/
def advance (c : Cursor) : Cursor := c.skip 1

/-- Move over the characters of a kind. -/
def skipWhile (p : Char → Bool) (c : Cursor) : Cursor := c.skip (c.rest.takeWhile p).length

/-- Nothing is left to read. -/
def isAtEnd (c : Cursor) : Bool := c.rest.isEmpty

/-- The text between an earlier cursor and this one. -/
def textSince (mark c : Cursor) : List Char := mark.rest.take (mark.rest.length - c.rest.length)

/-- The span between an earlier cursor and this one. -/
def spanSince (mark c : Cursor) : Span := ⟨c.file, mark.position, c.position⟩

@[simp] theorem skip_zero (c : Cursor) : c.skip 0 = c := by simp [skip]

theorem skip_skip (m n : Nat) (c : Cursor) : (c.skip m).skip n = c.skip (m + n) := by
  simp [skip, List.take_add, Position.after_append]

@[simp] theorem file_skip (n : Nat) (c : Cursor) : (c.skip n).file = c.file := rfl

/-! ### Walks -/

/-- One thing that can be asked of a cursor. Marks are numbered, and number zero is the start. -/
inductive Step where
  | peek
  | peekSecond
  | advance
  /-- Move over the next character if it is the given one. -/
  | eat (c : Char)
  | eatWhile (p : Char → Bool)
  | isAtEnd
  /-- Remember this reading point. -/
  | mark
  | textSince (mark : Nat)
  | spanSince (mark : Nat)

/-- What a step answers. -/
inductive Answer where
  | char (c : Option Char)
  | flag (b : Bool)
  | nothing
  | number (n : Nat)
  | text (t : String)
  | span (s : Span)

/-- A cursor on its way, with the reading points remembered so far. -/
structure Walk where
  cursor : Cursor
  marks : List Cursor

/-- A walk that has not begun: the start is mark zero. -/
def Walk.begin (c : Cursor) : Walk := ⟨c, [c]⟩

/-- The mark of a number; a number that was never given out means the newest mark. -/
def Walk.marked (w : Walk) (n : Nat) : Cursor :=
  (w.marks[n]? <|> w.marks.getLast?).getD w.cursor

/-- One step of a walk. -/
def Walk.step (w : Walk) : Step → Answer × Walk
  | .peek => (.char w.cursor.peek?, w)
  | .peekSecond => (.char w.cursor.peekSecond?, w)
  | .advance => (.char w.cursor.peek?, { w with cursor := w.cursor.advance })
  | .eat c =>
    if w.cursor.peek? = some c then (.flag true, { w with cursor := w.cursor.advance })
    else (.flag false, w)
  | .eatWhile p => (.nothing, { w with cursor := w.cursor.skipWhile p })
  | .isAtEnd => (.flag w.cursor.isAtEnd, w)
  | .mark => (.number w.marks.length, { w with marks := w.marks ++ [w.cursor] })
  | .textSince n => (.text (String.ofList ((w.marked n).textSince w.cursor)), w)
  | .spanSince n => (.span ((w.marked n).spanSince w.cursor), w)

/-- The answers of a walk, each with the place where the cursor then stands. -/
def Walk.answers (w : Walk) : List Step → List (Answer × Position)
  | [] => []
  | s :: rest => ((w.step s).1, (w.step s).2.cursor.position) :: (w.step s).2.answers rest

end Cursor

end FlatSchema
