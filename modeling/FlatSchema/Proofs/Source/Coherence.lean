import FlatSchema.Proofs.Source.Hull
import FlatSchema.Proofs.Source.Position
import Mathlib.Data.List.Induction

/-!
Spans that fit a text. A position fits a text if it stands behind some front of it: its offset is
the length of the front in bytes, its line counts the line feeds of the front, and its column the
characters behind the last of them. A span fits if both its ends do and they are in order, and
merging keeps it so: each end of a merge is an end of one of the two spans.

        text    a b ⏎ é c
        front   a b ⏎ é         line 2, column 2, offset 5
-/

namespace FlatSchema

namespace Position

/-- A position stands behind a front of a text, and its counts are 32-bit numbers. -/
structure Behind (before : List Char) (p : Position) : Prop where
  offset : p.offset = String.utf8Len before
  line : p.line = 1 + before.count '\n'
  column : p.column = 1 + (before.reverse.takeWhile (· ≠ '\n')).length
  fits : p.Fits32

theorem line_column_after_first (before : List Char) :
    (first.after before).line = 1 + before.count '\n' ∧
      (first.after before).column = 1 + (before.reverse.takeWhile (· ≠ '\n')).length := by
  induction before using List.reverseRecOn with
  | nil => exact ⟨rfl, rfl⟩
  | append_singleton before c ih =>
    obtain ⟨hline, hcolumn⟩ := ih
    rw [after_append, after_cons, after_nil, List.count_append, List.reverse_append,
      List.reverse_singleton, List.singleton_append, next]
    by_cases hc : c = '\n'
    · rw [if_pos hc, hline, hc]
      exact ⟨rfl, rfl⟩
    · rw [if_neg hc, List.count_singleton, if_neg (by simpa using hc), hline, hcolumn,
        List.takeWhile_cons_of_pos (by simpa using hc), List.length_cons]
      exact ⟨rfl, rfl⟩

/-- The place behind a front of less than 2³² - 1 bytes. -/
theorem behind_after_first {before : List Char} (h : String.utf8Len before < 2 ^ 32 - 1) :
    Behind before (first.after before) where
  offset := by rw [offset_after, first, Nat.zero_add]
  line := (line_column_after_first before).1
  column := (line_column_after_first before).2
  fits := fits32_after_first h

end Position

namespace Span

/-- A span fits a source text of a file: its ends are in order and stand behind fronts of the
    text, so that both lie between two characters of it. -/
structure Coherent (source file : String) (s : Span) : Prop where
  file : s.file = file
  ordered : s.start.offset ≤ s.stop.offset
  bounded : s.stop.offset ≤ source.utf8ByteSize
  start : ∃ before, before <+: source.toList ∧ s.start.Behind before
  stop : ∃ before, before <+: source.toList ∧ s.stop.Behind before

variable {source file : String}

theorem Coherent.merge {a b : Span} (ha : a.Coherent source file) (hb : b.Coherent source file) :
    (a.merge b).Coherent source file := by
  have hleast : (a.merge b).start.offset ≤ a.start.offset :=
    (offset_start_merge a b).trans_le (min_le_left _ _)
  have hgreatest : a.stop.offset ≤ (a.merge b).stop.offset :=
    (le_max_right _ _).trans_eq (offset_stop_merge a b).symm
  refine ⟨ha.file, hleast.trans (ha.ordered.trans hgreatest), ?_, ?_, ?_⟩
  · rcases stop_merge a b with h | h
    · exact h ▸ ha.bounded
    · exact h ▸ hb.bounded
  · rcases start_merge a b with h | h
    · exact h ▸ ha.start
    · exact h ▸ hb.start
  · rcases stop_merge a b with h | h
    · exact h ▸ ha.stop
    · exact h ▸ hb.stop

/-- The span of a run of characters inside a text. -/
theorem coherent_of_run (hsize : source.utf8ByteSize < 2 ^ 32 - 1) {before run behind : List Char}
    (h : source.toList = before ++ run ++ behind) :
    Coherent source file
      ⟨file, Position.first.after before, Position.first.after (before ++ run)⟩ := by
  have hlength : String.utf8Len before ≤ String.utf8Len (before ++ run) ∧
      String.utf8Len (before ++ run) ≤ source.utf8ByteSize := by
    rw [← String.utf8Len_toList, h, String.utf8Len_append (before ++ run), String.utf8Len_append]
    omega
  have hbefore : Position.Behind before (Position.first.after before) :=
    Position.behind_after_first (by omega)
  have hrun : Position.Behind (before ++ run) (Position.first.after (before ++ run)) :=
    Position.behind_after_first (by omega)
  refine ⟨rfl, ?_, ?_, ⟨before, ?_, hbefore⟩, ⟨before ++ run, ⟨behind, h.symm⟩, hrun⟩⟩
  · rw [hbefore.offset, hrun.offset]
    exact hlength.1
  · rw [hrun.offset]
    exact hlength.2
  · exact ⟨run ++ behind, by rw [h, List.append_assoc]⟩

end Span

end FlatSchema
