import FlatSchema.Token.Piece
import Mathlib.Data.List.Infix

/-!
Cutting a text into pieces. The first piece of a text is a piece of its front that is never empty,
and the other pieces are those of what is left, so that the pieces put together are the text again.

        c :: rest   =   (first c rest).text ++ tail
        split (c :: rest)   =   first c rest :: split tail
-/

namespace FlatSchema

namespace Piece

/-! ### Numbers -/

theorem fraction_front (text : List Char) : fraction text <+: text := by
  unfold fraction
  split
  · split
    · exact (List.prefix_cons_inj _).mpr ((List.prefix_cons_inj _).mpr (List.takeWhile_prefix _))
    · exact List.nil_prefix
  · exact List.nil_prefix

theorem exponent_front (text : List Char) : exponent text <+: text := by
  unfold exponent
  split
  · split
    · exact (List.prefix_cons_inj _).mpr ((List.prefix_cons_inj _).mpr (List.takeWhile_prefix _))
    · exact List.nil_prefix
  · exact List.nil_prefix

/-- A decimal number is its digits, its fraction and its exponent, one behind the other. -/
theorem decimal_eq {whole fractional rest : List Char}
    (hw : (whole ++ (fractional ++ rest)).takeWhile Char.isDigit = whole)
    (hf : fraction (fractional ++ rest) = fractional) :
    decimal (whole ++ (fractional ++ rest)) =
      ⟨.token (if fractional.isEmpty && (exponent rest).isEmpty then .intLiteral else .floatLiteral)
        (String.ofList (whole ++ fractional ++ exponent rest)),
        whole ++ fractional ++ exponent rest, []⟩ := by
  have hdrop : (whole ++ (fractional ++ rest)).drop (whole.length + fractional.length) = rest := by
    rw [← List.append_assoc, ← List.length_append, List.drop_left]
  simp only [decimal, hw, List.drop_left, hf, hdrop]

theorem decimal_front (text : List Char) : (decimal text).text <+: text := by
  obtain ⟨a, ha⟩ := List.takeWhile_prefix (l := text) Char.isDigit
  obtain ⟨b, hb⟩ := fraction_front a
  obtain ⟨tail, ht⟩ := exponent_front b
  generalize hw : text.takeWhile Char.isDigit = whole at ha
  generalize hf : fraction a = fractional at hb
  subst hb ha
  rw [decimal_eq hw hf]
  exact ⟨tail, by rw [List.append_assoc, ht, List.append_assoc]⟩

theorem decimal_ne_nil {c : Char} {rest : List Char}
    (h : c.isDigit = true ∨ (c = '.' ∧ ∃ d r, rest = d :: r ∧ d.isDigit = true)) :
    (decimal (c :: rest)).text ≠ [] := by
  rcases h with h | ⟨rfl, d, r, rfl, hd⟩
  · simp [decimal, List.takeWhile_cons_of_pos h]
  · have hdot : ¬ Char.isDigit '.' = true := by decide
    simp [decimal, List.takeWhile_cons_of_neg hdot, fraction, hd]

theorem number_front (text : List Char) : (number text).text <+: text := by
  unfold number
  split
  · exact (List.prefix_cons_inj _).mpr ((List.prefix_cons_inj _).mpr (List.takeWhile_prefix _))
  · exact (List.prefix_cons_inj _).mpr ((List.prefix_cons_inj _).mpr (List.takeWhile_prefix _))
  · exact decimal_front _

theorem number_ne_nil {c : Char} {rest : List Char} (h : c.isDigit = true) :
    (number (c :: rest)).text ≠ [] := by
  unfold number
  split
  · simp [hexadecimal]
  · simp [hexadecimal]
  · exact decimal_ne_nil (.inl h)

/-! ### Strings and comments -/

theorem stringBody_front (n : Nat) (text : List Char) : (stringBody n text).text <+: text := by
  fun_induction stringBody n text with
  | case1 => exact List.nil_prefix
  | case2 => exact (List.prefix_cons_inj _).mpr List.nil_prefix
  | case3 => exact (List.prefix_cons_inj _).mpr List.nil_prefix
  | case4 => exact List.prefix_rfl
  | case5 n c rest _ body v ih =>
    exact (List.prefix_cons_inj _).mpr ((List.prefix_cons_inj _).mpr ih)
  | case6 n c rest _ body ih =>
    exact (List.prefix_cons_inj _).mpr ((List.prefix_cons_inj _).mpr ih)
  | case7 n c rest _ _ _ _ body ih => exact (List.prefix_cons_inj _).mpr ih

theorem blockBody_front (text : List Char) : (blockBody text).1 <+: text := by
  fun_induction blockBody text with
  | case1 => exact List.prefix_rfl
  | case2 => exact ⟨_, rfl⟩
  | case3 c rest _ ih => exact (List.prefix_cons_inj _).mpr ih

/-! ### All pieces -/

theorem text_plain (c : Char) : (plain c).text = [c] := by
  unfold plain
  split <;> rfl

theorem first_front (c : Char) (rest : List Char) : (first c rest).text <+: c :: rest := by
  unfold first
  split
  · exact (List.prefix_cons_inj _).mpr (List.takeWhile_prefix _)
  split
  · exact number_front _
  split
  · exact (List.prefix_cons_inj _).mpr (List.takeWhile_prefix _)
  split
  · exact (List.prefix_cons_inj _).mpr (List.takeWhile_prefix _)
  · exact (List.prefix_cons_inj _).mpr ((List.prefix_cons_inj _).mpr (blockBody_front _))
  · exact (List.prefix_cons_inj _).mpr (stringBody_front _ _)
  · split
    · exact decimal_front _
    · rw [text_plain]
      exact (List.prefix_cons_inj _).mpr List.nil_prefix
  · rw [text_plain]
    exact (List.prefix_cons_inj _).mpr List.nil_prefix

theorem first_ne_nil (c : Char) (rest : List Char) : (first c rest).text ≠ [] := by
  unfold first
  split
  · simp
  split
  · next h => exact number_ne_nil h
  split
  · simp [word]
  split
  · simp
  · simp [blockComment]
  · simp [stringLiteral]
  · next d r _ _ _ =>
    split
    · next hd => exact decimal_ne_nil (.inr ⟨rfl, d, r, rfl, hd⟩)
    · simp [text_plain]
  · simp [text_plain]

/-- Behind the first piece the pieces are those of what is left. -/
theorem split_cons {c : Char} {rest tail : List Char}
    (h : c :: rest = (first c rest).text ++ tail) :
    split (c :: rest) = first c rest :: split tail := by
  obtain ⟨x, text, hx⟩ := List.exists_cons_of_ne_nil (first_ne_nil c rest)
  have hrest : rest = text ++ tail := by
    rw [hx, List.cons_append] at h
    exact (List.cons.inj h).2
  have hdrop : rest.drop ((first c rest).text.length - 1) = tail := by
    rw [hx, List.length_cons, Nat.add_sub_cancel, hrest, List.drop_left]
  rw [split, hdrop]

/-- Induction along the pieces of a text. -/
theorem split_induction {motive : List Char → Prop} (nil : motive [])
    (cons : ∀ c rest tail, c :: rest = (first c rest).text ++ tail →
      split (c :: rest) = first c rest :: split tail → motive tail → motive (c :: rest))
    (text : List Char) : motive text := by
  induction hlen : text.length using Nat.strongRecOn generalizing text with
  | _ length ih =>
  subst hlen
  cases text with
  | nil => exact nil
  | cons c rest =>
    obtain ⟨tail, ht⟩ := first_front c rest
    refine cons c rest tail ht.symm (split_cons ht.symm) (ih tail.length ?_ tail rfl)
    have hpos := List.length_pos_of_ne_nil (first_ne_nil c rest)
    rw [← ht, List.length_append]
    omega

end Piece

end FlatSchema
