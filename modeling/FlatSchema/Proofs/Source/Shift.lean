import FlatSchema.Diagnostic
import FlatSchema.Proofs.Source.Position
import FlatSchema.Token

/-!
Places in a text that is put behind whole lines. Lines and offsets grow by what stands before the
text, columns stay as they are, and so moving goes along with everything that makes places: reading
on over characters, and merging spans.

        alone      table T      1:1–1:8   offset 0
        behind ⏎   table T      2:1–2:8   offset 1
-/

namespace FlatSchema

/-- How far a text is moved. -/
structure Shift where
  lines : Nat
  bytes : Nat

namespace Shift

/-- The way of a text that is put behind another one and a line feed. -/
def behind (source : String) : Shift := ⟨source.toList.count '\n' + 1, source.utf8ByteSize + 1⟩

def position (m : Shift) (p : Position) : Position :=
  ⟨p.line + m.lines, p.column, p.offset + m.bytes⟩

def span (m : Shift) (s : Span) : Span := ⟨s.file, m.position s.start, m.position s.stop⟩

variable (m : Shift)

theorem position_next (p : Position) (c : Char) :
    (m.position p).next c = m.position (p.next c) := by
  unfold Position.next
  split
  · simp only [position, Position.mk.injEq, true_and]
    omega
  · simp only [position, Position.mk.injEq, true_and]
    omega

theorem position_after (p : Position) (text : List Char) :
    (m.position p).after text = m.position (p.after text) := by
  induction text generalizing p with
  | nil => rfl
  | cons c text ih => rw [Position.after_cons, position_next, ih, Position.after_cons]

theorem span_merge (a b : Span) : m.span (a.merge b) = (m.span a).merge (m.span b) := by
  have hle (p q : Position) : (m.position p).offset ≤ (m.position q).offset ↔
      p.offset ≤ q.offset := Nat.add_le_add_iff_right
  simp only [Span.merge, span, hle, apply_ite m.position]

end Shift

namespace Position

theorem line_after (p : Position) (text : List Char) :
    (p.after text).line = p.line + text.count '\n' := by
  induction text generalizing p with
  | nil => rfl
  | cons c text ih =>
    rw [after_cons, ih, List.count_cons, next]
    split
    · next h => simp only [h, beq_self_eq_true, if_true]; omega
    · next h => simp [h]

/-- Behind a text and a line feed a new text begins. -/
theorem first_after_line (source : String) :
    (first.after source.toList).next '\n' = (Shift.behind source).position first := by
  have hline : (first.after source.toList).line = 1 + source.toList.count '\n' :=
    line_after first source.toList
  have hoffset : (first.after source.toList).offset = 0 + source.utf8ByteSize := by
    rw [offset_after, String.utf8Len_toList]
    rfl
  have hsize : '\n'.utf8Size = 1 := rfl
  rw [next, if_pos rfl, hline, hoffset, hsize]
  simp only [Shift.behind, Shift.position, first, Position.mk.injEq, true_and]
  omega

end Position

/-! ### Whatever has places -/

def Token.mapSpan (f : Span → Span) (t : Token) : Token := ⟨t.kind, t.lexeme, f t.span⟩

def RelatedNote.mapSpan (f : Span → Span) (n : RelatedNote) : RelatedNote := ⟨f n.span, n.message⟩

/-- A diagnostic with every span changed. -/
def Diagnostic.mapSpans (f : Span → Span) (d : Diagnostic) : Diagnostic :=
  { d with span := d.span.map f, related := d.related.map (RelatedNote.mapSpan f) }

end FlatSchema
