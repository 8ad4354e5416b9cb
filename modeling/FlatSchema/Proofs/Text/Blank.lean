import FlatSchema.Text.Blank
import Mathlib.Data.List.TakeWhile

/-!
What trimming leaves. A text falls apart into white space, its core, and white space again, where
the core neither starts nor ends with white space; there is only one core, and trimming finds it. A
text of white space alone has the empty core.

        ␠⇥ [T : 3] ␠
           └──core─┘
-/

namespace FlatSchema

/-- `core` is `text` without the white space around it. -/
structure IsCore (text core : List Char) : Prop where
  cut : ∃ before behind, text = before ++ core ++ behind ∧
    (∀ c ∈ before, isBlank c = true) ∧ ∀ c ∈ behind, isBlank c = true
  start : ∀ c ∈ core.head?, isBlank c = false
  stop : ∀ c ∈ core.getLast?, isBlank c = false

theorem head?_dropWhile_isBlank (text : List Char) :
    ∀ c ∈ (text.dropWhile isBlank).head?, isBlank c = false := by
  intro c hc
  have hnot := List.head?_dropWhile_not isBlank text
  rw [Option.mem_def.mp hc] at hnot
  exact hnot

/-- The end of a text without the white space at its end, and that white space. -/
theorem trimEnd_append_takeWhile (text : List Char) :
    trimEnd text ++ (text.reverse.takeWhile isBlank).reverse = text := by
  rw [trimEnd, ← List.reverse_append, List.takeWhile_append_dropWhile, List.reverse_reverse]

theorem isCore_trim (text : List Char) : IsCore text (trim text) where
  cut := by
    refine ⟨text.takeWhile isBlank, ((trimStart text).reverse.takeWhile isBlank).reverse,
      ?_, ?_, ?_⟩
    · rw [trim, List.append_assoc, trimEnd_append_takeWhile, trimStart,
        List.takeWhile_append_dropWhile]
    · exact fun c hc => List.mem_takeWhile_imp hc
    · exact fun c hc => List.mem_takeWhile_imp (List.mem_reverse.mp hc)
  start := by
    intro c hc
    have happend := trimEnd_append_takeWhile (trimStart text)
    refine head?_dropWhile_isBlank text c ?_
    rw [trim] at hc
    rw [← trimStart, ← happend, List.head?_append, Option.mem_def.mp hc]
    rfl
  stop := by
    intro c hc
    rw [trim, trimEnd, List.getLast?_reverse] at hc
    exact head?_dropWhile_isBlank _ c hc

/-- A text that does not start with white space stays as it is. -/
theorem trimStart_append {before text : List Char} (hbefore : ∀ c ∈ before, isBlank c = true)
    (htext : ∀ c ∈ text.head?, isBlank c = false) : trimStart (before ++ text) = text := by
  rw [trimStart, List.dropWhile_append_of_pos hbefore]
  cases text with
  | nil => rfl
  | cons c text => exact List.dropWhile_cons_of_neg (by simp [htext c rfl])

theorem trimEnd_append_of_blank {text behind : List Char} (hbehind : ∀ c ∈ behind, isBlank c = true)
    (htext : ∀ c ∈ text.getLast?, isBlank c = false) : trimEnd (text ++ behind) = text := by
  have hreverse : trimStart (behind.reverse ++ text.reverse) = text.reverse := by
    refine trimStart_append ?_ ?_
    · exact fun c hc => hbehind c (List.mem_reverse.mp hc)
    · rw [List.head?_reverse]
      exact htext
  rw [trimEnd, List.reverse_append, ← trimStart, hreverse, List.reverse_reverse]

/-- A text has one core, and trimming leaves it. -/
theorem isCore_iff {text core : List Char} : IsCore text core ↔ trim text = core := by
  constructor
  · rintro ⟨⟨before, behind, rfl, hbefore, hbehind⟩, hstart, hstop⟩
    cases core with
    | nil =>
      -- Without a core the front white space runs up to the end of the text.
      have hall : ∀ c ∈ before ++ [] ++ behind, isBlank c = true := by
        intro c hc
        rw [List.append_nil] at hc
        exact (List.mem_append.mp hc).elim (hbefore c) (hbehind c)
      rw [trim, trimStart, List.dropWhile_eq_nil_iff.mpr hall]
      rfl
    | cons c core =>
      have hcore : ∀ d ∈ ((c :: core) ++ behind).head?, isBlank d = false := hstart
      rw [trim, List.append_assoc, trimStart_append hbefore hcore,
        trimEnd_append_of_blank hbehind hstop]
  · rintro rfl
    exact isCore_trim text

/-- Trimming leaves nothing of white space alone. -/
theorem trim_eq_nil_iff {text : List Char} : trim text = [] ↔ ∀ c ∈ text, isBlank c = true := by
  rw [← isCore_iff]
  constructor
  · rintro ⟨⟨before, behind, rfl, hbefore, hbehind⟩, -, -⟩ c hc
    rw [List.append_nil] at hc
    exact (List.mem_append.mp hc).elim (hbefore c) (hbehind c)
  · intro h
    exact ⟨⟨text, [], by simp, h, by simp⟩, by simp, by simp⟩

end FlatSchema
