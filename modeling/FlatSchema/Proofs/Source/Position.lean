import FlatSchema.Source.Position
import Mathlib.Data.String.Basic

/-!
Places behind a text. The offset grows by the bytes of the text, so that it never falls; line and
column grow by at most one for each character. In a text of less than 2³² - 1 bytes no count of any
place goes beyond 32 bits.
-/

namespace FlatSchema

namespace Position

theorem offset_next (p : Position) (c : Char) : (p.next c).offset = p.offset + c.utf8Size := by
  unfold next
  split <;> rfl

theorem offset_after (p : Position) (text : List Char) :
    (p.after text).offset = p.offset + String.utf8Len text := by
  induction text generalizing p with
  | nil => rfl
  | cons c text ih => rw [after_cons, ih, offset_next, String.utf8Len_cons]; omega

theorem offset_le_after (p : Position) (text : List Char) : p.offset ≤ (p.after text).offset := by
  rw [offset_after]
  exact Nat.le_add_right _ _

theorem line_column_next_le (p : Position) (c : Char) :
    (p.next c).line ≤ p.line + 1 ∧ (p.next c).column ≤ max 1 (p.column + 1) := by
  unfold next
  split <;> simp

/-- A character widens line and column by at most one, and has at least one byte. -/
theorem line_column_after_le (p : Position) (text : List Char) (hp : 1 ≤ p.column) :
    (p.after text).line ≤ p.line + String.utf8Len text ∧
      (p.after text).column ≤ p.column + String.utf8Len text := by
  induction text generalizing p with
  | nil => exact ⟨le_refl _, le_refl _⟩
  | cons c text ih =>
    have hpos : 1 ≤ c.utf8Size := c.utf8Size_pos
    have hcolumn : 1 ≤ (p.next c).column := by
      unfold next
      split <;> simp
    obtain ⟨hline, hcol⟩ := line_column_next_le p c
    obtain ⟨ihl, ihc⟩ := ih (p.next c) hcolumn
    rw [after_cons, String.utf8Len_cons]
    omega

/-- Line, column and offset are 32-bit numbers. -/
def Fits32 (p : Position) : Prop := p.line < 2 ^ 32 ∧ p.column < 2 ^ 32 ∧ p.offset < 2 ^ 32

theorem fits32_after_first {text : List Char} (h : String.utf8Len text < 2 ^ 32 - 1) :
    (first.after text).Fits32 := by
  obtain ⟨hline, hcolumn⟩ := line_column_after_le first text (le_refl _)
  have hoffset := offset_after first text
  simp only [first] at hline hcolumn hoffset
  refine ⟨?_, ?_, ?_⟩ <;> simp only [first] <;> omega

end Position

end FlatSchema
