import FlatSchema.Proofs.Token.Rereading

/-!
Numbers of a text. A number is a row of digits, a fraction or both, with an exponent or without, or
it is a row of hexadecimal digits behind `0x`. Missing digits behind `0x` are reported. Missing
digits behind the sign of an exponent are not, so in a text about which there is nothing to report a
number may break off there; every other number is a proper one.

        1.5e-9      a number
        1.5e        a number and the word e
        1.5e-       breaks off, and nothing is reported
        0x          reported
-/

namespace FlatSchema

/-- A number that breaks off behind the sign of its exponent. -/
inductive BreaksOff : List Char → Prop where
  | mk {whole fractional : List Char} {e sign : Char} : (∀ d ∈ whole, d.isDigit = true) →
      Piece.IsFraction fractional → whole ++ fractional ≠ [] → e = 'e' ∨ e = 'E' →
      sign = '+' ∨ sign = '-' → BreaksOff (whole ++ fractional ++ [e, sign])

/-- A number, or a float that breaks off. -/
def IsNumberOrBreaksOff (kind : TokenKind) (text : List Char) : Prop :=
  IsNumber kind text ∨ kind = .floatLiteral ∧ BreaksOff text

/-! ### Last characters -/

theorem isHexDigit_of_isDigit {c : Char} (h : c.isDigit = true) : Piece.isHexDigit c = true := by
  rw [Piece.isHexDigit, h]
  rfl

theorem not_isSign_of_isHexDigit {c : Char} (h : Piece.isHexDigit c = true) :
    Piece.isSign c = false := by
  rw [Piece.isSign, Bool.or_eq_false_iff, beq_eq_false_iff_ne, beq_eq_false_iff_ne]
  constructor <;> rintro rfl <;> exact absurd h (by decide)

/-- A text that ends in digits does not end in a sign. -/
theorem not_isSign_getLast?_append (front : List Char) {digits : List Char} (hne : digits ≠ [])
    (hdigits : ∀ d ∈ digits, Piece.isHexDigit d = true) :
    ∀ c ∈ (front ++ digits).getLast?, Piece.isSign c = false := by
  intro c hc
  rw [List.getLast?_append_of_ne_nil _ hne] at hc
  exact not_isSign_of_isHexDigit (hdigits c (List.mem_of_getLast? hc))

/-- A number does not end in a sign. -/
theorem IsNumber.not_isSign_getLast? {kind : TokenKind} {text : List Char}
    (h : IsNumber kind text) :
    ∀ c ∈ text.getLast?, Piece.isSign c = false := by
  have hexponent {front e : List Char} (he : IsExponent e) (hne : e ≠ []) :
      ∀ c ∈ (front ++ e).getLast?, Piece.isSign c = false := by
    cases he with
    | none => exact absurd rfl hne
    | @some letter sign digits _ _ hdigits hall =>
      have hfront : front ++ letter :: (sign ++ digits) = (front ++ letter :: sign) ++ digits := by
        simp
      rw [hfront]
      exact not_isSign_getLast?_append _ hdigits fun d hd => isHexDigit_of_isDigit (hall d hd)
  cases h with
  | decimal hne hdigits =>
    exact not_isSign_getLast?_append [] hne fun d hd => isHexDigit_of_isDigit (hdigits d hd)
  | @hexadecimal x _ _ hne hdigits =>
    exact not_isSign_getLast?_append ['0', x] hne hdigits
  | @fraction whole digits e _ hne hdigits he =>
    cases e with
    | nil =>
      have hfront : whole ++ '.' :: digits ++ [] = (whole ++ ['.']) ++ digits := by simp
      rw [hfront]
      exact not_isSign_getLast?_append _ hne fun d hd => isHexDigit_of_isDigit (hdigits d hd)
    | cons letter e => exact hexponent he (List.cons_ne_nil _ _)
  | exponent _ _ hne he => exact hexponent he hne

/-- A number that breaks off ends in a sign. -/
theorem BreaksOff.isSign_getLast? {text : List Char} (h : BreaksOff text) :
    ∃ c ∈ text.getLast?, Piece.isSign c = true := by
  obtain ⟨-, -, -, -, hsign⟩ := h
  next whole fractional e sign =>
  refine ⟨sign, by simp, ?_⟩
  rcases hsign with rfl | rfl <;> rfl

namespace Piece

/-! ### Pieces -/

/-- If the piece is a number without flaws, it is a proper one or breaks off. -/
def NumberOrBreaksOff (q : Piece) : Prop :=
  ∀ kind lexeme, q.role = .token kind lexeme → kind = .intLiteral ∨ kind = .floatLiteral →
    q.flaws = [] → IsNumberOrBreaksOff kind lexeme.toList

/-- An exponent that was found has its digits, or it is its letter and its sign alone. -/
theorem exponent_cases (text : List Char) : IsExponent (exponent text) ∨
    ∃ e sign, (e = 'e' ∨ e = 'E') ∧ (sign = '+' ∨ sign = '-') ∧ exponent text = [e, sign] := by
  unfold exponent
  split
  · next e c rest =>
    split
    · next h =>
      obtain ⟨hletter, hc⟩ := Bool.and_eq_true_iff.mp h
      have hletter : e = 'e' ∨ e = 'E' := by simpa [isExponentLetter] using hletter
      have htake : ∀ d ∈ rest.takeWhile Char.isDigit, d.isDigit = true :=
        fun _ => List.mem_takeWhile_imp
      rcases Bool.or_eq_true_iff.mp hc with hdigit | hsign
      -- Without a sign there is a digit, as it was looked at; behind a sign there may be none.
      · have hexponent : IsExponent (e :: ([] ++ c :: rest.takeWhile Char.isDigit)) :=
          .some hletter (by simp) (List.cons_ne_nil _ _) (List.forall_mem_cons.mpr ⟨hdigit, htake⟩)
        exact .inl hexponent
      · have hsign : c = '+' ∨ c = '-' := by simpa [isSign] using hsign
        by_cases hne : rest.takeWhile Char.isDigit = []
        · exact .inr ⟨e, c, hletter, hsign, by rw [hne]⟩
        · have hexponent : IsExponent (e :: ([c] ++ rest.takeWhile Char.isDigit)) :=
            .some hletter (by rcases hsign with rfl | rfl <;> simp) hne htake
          exact .inl hexponent
    · exact .inl .none
  · exact .inl .none

/-- A decimal number that begins with digits or with a fraction. -/
theorem numberOrBreaksOff_decimal {text : List Char}
    (hstart : text.takeWhile Char.isDigit ≠ [] ∨ fraction text ≠ []) :
    (decimal text).NumberOrBreaksOff := by
  obtain ⟨a, ha⟩ := List.takeWhile_prefix (l := text) Char.isDigit
  obtain ⟨b, hb⟩ := fraction_front a
  have hwhole : ∀ c ∈ text.takeWhile Char.isDigit, c.isDigit = true :=
    fun _ => List.mem_takeWhile_imp
  have hfraction := isFraction_fraction a
  have hne : text.takeWhile Char.isDigit ++ fraction a ≠ [] := by
    intro hnil
    obtain ⟨hw, hf⟩ := List.append_eq_nil_iff.mp hnil
    rw [hw, List.nil_append] at ha
    subst ha
    exact hstart.elim (fun h => h hw) fun h => h hf
  generalize hw : text.takeWhile Char.isDigit = whole at ha hwhole hne
  generalize hf : fraction a = fractional at hb hfraction hne
  subst hb ha
  rw [decimal_eq hw hf]
  intro kind lexeme hrole _ _
  cases hrole
  rw [String.toList_ofList]
  rcases exponent_cases b with he | ⟨e, sign, hletter, hsign, he⟩
  · left
    cases hfraction with
    | some hdigits hall => exact .fraction hwhole hdigits hall he
    | none =>
      rw [List.append_nil] at hne ⊢
      cases hexponent : exponent b with
      | nil =>
        rw [List.append_nil]
        exact .decimal hne hwhole
      | cons letter e => exact .exponent hne hwhole (List.cons_ne_nil _ _) (hexponent ▸ he)
  · rw [he]
    exact .inr ⟨by simp, .mk hwhole hfraction hne hletter hsign⟩

theorem numberOrBreaksOff_hexadecimal {x : Char} (hx : x = 'x' ∨ x = 'X') (rest : List Char) :
    (hexadecimal x rest).NumberOrBreaksOff := by
  intro kind lexeme hrole _ hflaws
  cases hrole
  rw [String.toList_ofList]
  have hne : rest.takeWhile isHexDigit ≠ [] := by
    intro hnil
    simp [hexadecimal, hnil] at hflaws
  exact .inl (.hexadecimal hx hne fun _ => List.mem_takeWhile_imp)

theorem numberOrBreaksOff_number {c : Char} (hc : c.isDigit = true) (rest : List Char) :
    (number (c :: rest)).NumberOrBreaksOff := by
  unfold number
  split
  · exact numberOrBreaksOff_hexadecimal (.inl rfl) _
  · exact numberOrBreaksOff_hexadecimal (.inr rfl) _
  · exact numberOrBreaksOff_decimal (.inl (by simp [List.takeWhile_cons_of_pos hc]))

theorem numberOrBreaksOff_plain (c : Char) : (plain c).NumberOrBreaksOff := by
  intro kind lexeme hrole hk
  unfold plain at hrole
  split at hrole
  · cases hrole
    rcases hk with hk | hk <;> cases hk
  · cases hrole

theorem numberOrBreaksOff_first (c : Char) (rest : List Char) :
    (first c rest).NumberOrBreaksOff := by
  unfold first
  split
  · exact fun _ _ h => by cases h
  split
  · next hdigit => exact numberOrBreaksOff_number hdigit rest
  split
  · intro kind lexeme hrole hk
    cases hrole
    split at hk <;> rcases hk with hk | hk <;> cases hk
  split
  · exact fun _ _ h => by cases h
  · exact fun _ _ h => by cases h
  · intro kind lexeme hrole hk
    cases hrole
    rcases hk with hk | hk <;> cases hk
  · next d more _ _ _ =>
    split
    · next hd => exact numberOrBreaksOff_decimal (.inr (by simp [fraction, hd]))
    · exact numberOrBreaksOff_plain _
  · exact numberOrBreaksOff_plain _

end Piece

/-! ### Tokens -/

namespace Lexed

/-- In a text without errors a number is a proper one exactly if it does not end in a sign, and one
    that does is a float that breaks off behind the sign of its exponent. -/
theorem isNumber_iff {source file : String}
    (hsource : ∀ d ∈ (ofSource source file).diagnostics, d.isError = false) {t : Token}
    (ht : t ∈ (ofSource source file).tokens) (hk : t.kind = .intLiteral ∨ t.kind = .floatLiteral) :
    (IsNumber t.kind t.lexeme.toList ↔
        ∀ c ∈ t.lexeme.toList.getLast?, Piece.isSign c = false) ∧
      (¬ IsNumber t.kind t.lexeme.toList → t.kind = .floatLiteral ∧ BreaksOff t.lexeme.toList) := by
  have heof : t.kind ≠ .eof := by rcases hk with hk | hk <;> simp [hk]
  obtain ⟨q, hq, hrole⟩ := exists_piece ht heof
  have hflaws := flawless_of_ofPieces (diagnostics_eq_nil hsource) q hq
  obtain ⟨c, rest, rfl⟩ := Piece.exists_first_of_mem_split hq
  have hnumber := Piece.numberOrBreaksOff_first c rest _ _ hrole hk hflaws
  refine ⟨⟨fun h => h.not_isSign_getLast?, fun hlast => ?_⟩, fun hnot => hnumber.resolve_left hnot⟩
  refine hnumber.resolve_right fun ⟨_, hbreaks⟩ => ?_
  obtain ⟨c, hc, hsign⟩ := hbreaks.isSign_getLast?
  rw [hlast c hc] at hsign
  cases hsign

/-- A number in each of its forms. -/
def numbersSource : String := "0x1F 12 .5 7e3 1.5e-9"

/-- The float with a fraction and an exponent among them. -/
def longNumber : Token := (ofSource numbersSource "t.fbs").tokens.getD 4 default

theorem isNumber_longNumber :
    (∀ d ∈ (ofSource numbersSource "t.fbs").diagnostics, d.isError = false) ∧
      longNumber ∈ (ofSource numbersSource "t.fbs").tokens ∧ longNumber.kind = .floatLiteral ∧
      longNumber.lexeme = "1.5e-9" ∧ IsNumber longNumber.kind longNumber.lexeme.toList := by
  have hsource : ∀ d ∈ (ofSource numbersSource "t.fbs").diagnostics, d.isError = false := by
    decide +kernel
  have hmem : longNumber ∈ (ofSource numbersSource "t.fbs").tokens := by decide +kernel
  have hkind : longNumber.kind = .floatLiteral := by decide +kernel
  have hlexeme : longNumber.lexeme = "1.5e-9" := by decide +kernel
  refine ⟨hsource, hmem, hkind, hlexeme, (isNumber_iff hsource hmem (.inr hkind)).1.mpr ?_⟩
  intro c hc
  obtain rfl : '9' = c := by simpa [hlexeme] using hc
  rfl

/-- Nothing is reported about a number that breaks off. -/
theorem not_isNumber_breaking_off :
    (ofSource "1e+" "t.fbs").diagnostics = [] ∧
      (ofSource "1e+" "t.fbs").tokens.map Token.glyph = [(.floatLiteral, "1e+"), (.eof, "")] ∧
      ¬ IsNumber .floatLiteral "1e+".toList := by
  refine ⟨by decide +kernel, by decide +kernel, fun h => ?_⟩
  have hlast := h.not_isSign_getLast? '+' (by decide)
  exact absurd hlast (by decide)

end Lexed

end FlatSchema
