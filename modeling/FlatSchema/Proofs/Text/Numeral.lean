import FlatSchema.Text.Numeral

/-!
What a numeral says. A numeral is at most one sign and a row of at least one digit, and its value is
that of the row in base ten; a 32-bit numeral is one whose value lies in the range.
-/

namespace FlatSchema

/-- The rows of signs in front of a numeral, and what they multiply its digits by. -/
def numeralSigns : List (List Char × Int) := [([], 1), (['+'], 1), (['-'], -1)]

/-- `text` is a numeral of the value `n`. -/
inductive IsNumeral : List Char → Int → Prop where
  | mk {sign digits : List Char} {factor : Int} : (sign, factor) ∈ numeralSigns → digits ≠ [] →
      (∀ d ∈ digits, d.isDigit = true) →
      IsNumeral (sign ++ digits) (factor * Nat.ofDigitChars 10 digits 0)

theorem natural?_eq_some_iff {digits : List Char} {n : Nat} :
    natural? digits = some n ↔
      digits ≠ [] ∧ (∀ d ∈ digits, d.isDigit = true) ∧ Nat.ofDigitChars 10 digits 0 = n := by
  unfold natural?
  split
  · next h =>
    refine iff_of_false (by simp) ?_
    rintro ⟨hne, hdigits, -⟩
    simp [hne, List.all_eq_true.mpr hdigits] at h
  · next h =>
    simp only [Bool.or_eq_true, Bool.not_eq_true', not_or, List.isEmpty_iff, Bool.not_eq_false,
      List.all_eq_true] at h
    rw [Option.some.injEq]
    exact ⟨fun hn => ⟨h.1, h.2, hn⟩, fun hn => hn.2.2⟩

theorem isNumeral_of_natural? (sign : List Char) {digits : List Char} {factor : Int} {n : Nat}
    (hsign : (sign, factor) ∈ numeralSigns) (hn : natural? digits = some n) :
    IsNumeral (sign ++ digits) (factor * n) := by
  obtain ⟨hne, hdigits, rfl⟩ := natural?_eq_some_iff.mp hn
  exact .mk hsign hne hdigits

theorem integer?_minus {digits : List Char} {n : Int} :
    integer? ('-' :: digits) = some n ↔ ∃ m, natural? digits = some m ∧ -1 * (m : Int) = n := by
  rw [integer?]
  cases natural? digits <;> simp

theorem integer?_plus {digits : List Char} {n : Int} :
    integer? ('+' :: digits) = some n ↔ ∃ m, natural? digits = some m ∧ 1 * (m : Int) = n := by
  rw [integer?]
  cases natural? digits <;> simp

theorem integer?_unsigned {digits : List Char} {n : Int}
    (h : ∀ c ∈ digits.head?, c ≠ '-' ∧ c ≠ '+') :
    integer? digits = some n ↔ ∃ m, natural? digits = some m ∧ 1 * (m : Int) = n := by
  rw [integer?]
  · cases natural? digits <;> simp
  · rintro rest rfl
    exact (h '-' rfl).1 rfl
  · rintro rest rfl
    exact (h '+' rfl).2 rfl

theorem integer?_eq_some_iff {text : List Char} {n : Int} :
    integer? text = some n ↔ IsNumeral text n := by
  constructor
  · intro h
    by_cases hminus : text.head? = some '-'
    · obtain ⟨digits, rfl⟩ := List.head?_eq_some_iff.mp hminus
      obtain ⟨m, hm, rfl⟩ := integer?_minus.mp h
      exact isNumeral_of_natural? ['-'] (by decide) hm
    by_cases hplus : text.head? = some '+'
    · obtain ⟨digits, rfl⟩ := List.head?_eq_some_iff.mp hplus
      obtain ⟨m, hm, rfl⟩ := integer?_plus.mp h
      exact isNumeral_of_natural? ['+'] (by decide) hm
    have hhead : ∀ c ∈ text.head?, c ≠ '-' ∧ c ≠ '+' := by
      intro c hc
      refine ⟨?_, ?_⟩
      · rintro rfl
        exact hminus hc
      · rintro rfl
        exact hplus hc
    obtain ⟨m, hm, rfl⟩ := (integer?_unsigned hhead).mp h
    exact isNumeral_of_natural? [] (by decide) hm
  · rintro ⟨hsign, hne, hdigits⟩
    next sign digits factor =>
    have hn := natural?_eq_some_iff.mpr ⟨hne, hdigits, rfl⟩
    simp only [numeralSigns, List.mem_cons, Prod.mk.injEq, List.not_mem_nil, or_false] at hsign
    rcases hsign with ⟨rfl, rfl⟩ | ⟨rfl, rfl⟩ | ⟨rfl, rfl⟩
    · have hhead : ∀ c ∈ digits.head?, c ≠ '-' ∧ c ≠ '+' := by
        intro c hc
        have hdigit := hdigits c (List.mem_of_mem_head? hc)
        refine ⟨?_, ?_⟩ <;> rintro rfl <;> exact absurd hdigit (by decide)
      exact (integer?_unsigned hhead).mpr ⟨_, hn, rfl⟩
    · exact integer?_plus.mpr ⟨_, hn, rfl⟩
    · exact integer?_minus.mpr ⟨_, hn, rfl⟩

theorem int32?_eq_some_iff {text : List Char} {n : Int} :
    int32? text = some n ↔ IsNumeral text n ∧ -0x80000000 ≤ n ∧ n < 0x80000000 := by
  rw [int32?, Option.filter_eq_some_iff, integer?_eq_some_iff]
  simp [fitsInt32]

end FlatSchema
