/-!
Places in a schema text and the stretches between them.

A position moves over one character at a time, so the position behind a text is a fold over its
characters. A span runs from its start up to, but not including, its stop. Two spans merge into
one that starts where the earlier one starts and stops where the later one stops; offsets decide,
and on a tie the left span's position is kept.

        text    t a b l e ⏎ x
        line    1 1 1 1 1 1 2
        column  1 2 3 4 5 6 1
        offset  0 1 2 3 4 5 6
-/

namespace FlatSchema

/-- A place in a schema text. Lines and columns count characters from one, offsets count UTF-8
    bytes from zero. -/
structure Position where
  line : Nat
  column : Nat
  offset : Nat
deriving DecidableEq, Inhabited

namespace Position

/-- The place of no text at all. -/
def zero : Position := ⟨0, 0, 0⟩

/-- The place before the first character. -/
def first : Position := ⟨1, 1, 0⟩

/-- The place behind one more character: a line feed opens a line, all else widens the column. -/
def next (p : Position) (c : Char) : Position :=
  if c = '\n' then ⟨p.line + 1, 1, p.offset + c.utf8Size⟩
  else ⟨p.line, p.column + 1, p.offset + c.utf8Size⟩

/-- The place behind a whole text that starts at `p`. -/
def after (p : Position) (text : List Char) : Position := text.foldl next p

@[simp] theorem after_nil (p : Position) : p.after [] = p := rfl

@[simp] theorem after_cons (p : Position) (c : Char) (text : List Char) :
    p.after (c :: text) = (p.next c).after text := rfl

theorem after_append (p : Position) (a b : List Char) : p.after (a ++ b) = (p.after a).after b := by
  simp [after]

/-- Line and column, `line:column`. -/
def render (p : Position) : String := s!"{p.line}:{p.column}"

end Position

/-- A stretch of the text of one file, from `start` up to but not including `stop`. -/
structure Span where
  file : String
  start : Position
  stop : Position
deriving DecidableEq, Inhabited

namespace Span

/-- The span of what has no text. -/
def empty : Span := ⟨"", .zero, .zero⟩

/-- The stretch that covers both spans; it carries the left span's file. -/
def merge (a b : Span) : Span where
  file := a.file
  start := if a.start.offset ≤ b.start.offset then a.start else b.start
  stop := if b.stop.offset ≤ a.stop.offset then a.stop else b.stop

/-- The merge of all spans from the left; none of no spans. -/
def mergeAll : List Span → Option Span
  | [] => none
  | s :: rest => some (rest.foldl merge s)

/-- The bytes to point at: at least one, so that an empty span can be shown too. -/
def byteRange (s : Span) : Nat × Nat := (s.start.offset, max s.stop.offset (s.start.offset + 1))

/-- File and start, `file:line:column`. -/
def render (s : Span) : String := s!"{s.file}:{s.start.render}"

end Span

end FlatSchema
