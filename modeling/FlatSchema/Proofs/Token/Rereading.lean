import FlatSchema.Proofs.Token.Concatenation
import FlatSchema.Proofs.Token.Standing

/-!
Reading a piece alone. The text of a number or a word is that piece again if nothing stands around
it, and a sign in front of it is a mark. A string is kept by its value, and its value between quotes
is that string again only if there is nothing in it that a string has to escape.

        -5      ↦   - 5
        a⏎b     ↦   "a⏎b"     which is a string that lacks its end, and a word b
-/

namespace FlatSchema

namespace Piece

variable {c : Char} {rest text : List Char} {q : Piece}

/-! ### Numbers and words -/

theorem isFraction_fraction (text : List Char) : IsFraction (fraction text) := by
  unfold fraction
  split
  · split
    · next d rest hd =>
      refine .some (List.cons_ne_nil _ _) (List.forall_mem_cons.mpr ⟨hd, fun _ => ?_⟩)
      exact List.mem_takeWhile_imp
    · exact .none
  · exact .none

theorem exponent_exponent (text : List Char) : exponent (exponent text) = exponent text := by
  match text with
  | [] => rfl
  | [_] => rfl
  | e :: c :: rest =>
    by_cases h : isExponentLetter e && (c.isDigit || isSign c)
    · simp [exponent, h, List.takeWhile_takeWhile]
    · simp [exponent, h]

/-- An exponent does not begin as a fraction goes on. -/
theorem head_of_exponent_eq {text : List Char} :
    ∀ c ∈ (exponent text).head?, c.isDigit = false ∧ c ≠ '.' := by
  intro c hc
  unfold exponent at hc
  split at hc
  · split at hc
    · next e d rest h =>
      obtain rfl : e = c := Option.some.inj hc
      have hletter : e = 'e' ∨ e = 'E' := by
        simpa [isExponentLetter] using (Bool.and_eq_true_iff.mp h).1
      rcases hletter with rfl | rfl <;> decide
    · cases hc
  · cases hc

theorem decimal_text (text : List Char) : decimal (decimal text).text = decimal text := by
  obtain ⟨a, ha⟩ := List.takeWhile_prefix (l := text) Char.isDigit
  obtain ⟨b, hb⟩ := fraction_front a
  generalize hw : text.takeWhile Char.isDigit = whole at ha
  have hfraction := isFraction_fraction a
  generalize hf : fraction a = fractional at hb hfraction
  subst hb ha
  have hhead : ∀ c ∈ (exponent b).head?, c.isDigit = false ∧ c ≠ '.' := head_of_exponent_eq
  have hnot : ∀ c ∈ (fractional ++ exponent b).head?, c.isDigit = false := by
    intro c hc
    cases hfraction with
    | none => exact (hhead c hc).1
    | some =>
      obtain rfl : '.' = c := by simpa using hc
      decide
  have hdigits : ∀ c ∈ whole, c.isDigit = true := fun c hc => List.mem_takeWhile_imp (hw ▸ hc)
  rw [decimal_eq hw hf, List.append_assoc,
    decimal_eq (takeWhile_append hdigits hnot) (fraction_append hfraction hhead), exponent_exponent,
    List.append_assoc]

theorem hexadecimal_text {x : Char} (hx : x = 'x' ∨ x = 'X') (rest : List Char) :
    number (hexadecimal x rest).text = hexadecimal x rest := by
  have htake : (rest.takeWhile isHexDigit).takeWhile isHexDigit = rest.takeWhile isHexDigit := by
    rw [List.takeWhile_takeWhile]
    simp
  have hagain : hexadecimal x (rest.takeWhile isHexDigit) = hexadecimal x rest := by
    rw [hexadecimal, hexadecimal, htake]
  rcases hx with rfl | rfl
  · exact hagain
  · exact hagain

theorem number_text (text : List Char) : number (number text).text = number text := by
  by_cases h : ∃ x rest, (x = 'x' ∨ x = 'X') ∧ text = '0' :: x :: rest
  · obtain ⟨x, rest, hx, rfl⟩ := h
    have hnumber : number ('0' :: x :: rest) = hexadecimal x rest := by
      rcases hx with rfl | rfl <;> rfl
    rw [hnumber, hexadecimal_text hx]
  · have hnot (x : Char) (rest : List Char) (hx : x = 'x' ∨ x = 'X') : text ≠ '0' :: x :: rest :=
      fun htext => h ⟨x, rest, hx, htext⟩
    rw [number_of_not_hexadecimal hnot, number_of_not_hexadecimal, decimal_text]
    intro x rest hx htext
    obtain ⟨tail, htail⟩ := decimal_front text
    rw [htext] at htail
    exact hnot x (rest ++ tail) hx htail.symm

theorem role_number (text : List Char) :
    ∃ kind, (number text).role = .token kind (String.ofList (number text).text) := by
  unfold number
  split
  · exact ⟨_, rfl⟩
  · exact ⟨_, rfl⟩
  · exact ⟨_, rfl⟩

/-- A number that is read alone. -/
theorem exists_first_number {c : Char} (hc : c.isDigit = true) (rest : List Char) :
    ∃ d more, (number (c :: rest)).text = d :: more ∧ first d more = number (c :: rest) := by
  have hne : (number (c :: rest)).text ≠ [] := number_ne_nil hc
  obtain ⟨d, more, htext⟩ := List.exists_cons_of_ne_nil hne
  have hfront := number_front (c :: rest)
  rw [htext] at hfront
  obtain ⟨tail, htail⟩ := hfront
  obtain rfl : d = c := (List.cons.inj htail).1
  refine ⟨d, more, htext, ?_⟩
  rw [first_of_digit hc, ← htext, number_text]

theorem exists_text_of_dot {d : Char} (hd : d.isDigit = true) (rest : List Char) :
    ∃ tail, (decimal ('.' :: d :: rest)).text = '.' :: d :: tail := by
  have hdot : ¬ Char.isDigit '.' = true := by decide
  simp [decimal, List.takeWhile_cons_of_neg hdot, fraction, hd]

theorem not_role_plain {kind : TokenKind} {lexeme : String} (hmark : ∀ m, kind ≠ .mark m) :
    (plain c).role ≠ .token kind lexeme := by
  unfold plain
  split
  · rintro ⟨⟩
    exact hmark _ rfl
  · rintro ⟨⟩

/-- The text of a number or a word is that piece again if it stands alone, and its lexeme is its
    text. -/
theorem exists_first_text {kind : TokenKind} {lexeme : String} (hq : first c rest = q)
    (hrole : q.role = .token kind lexeme) (hstring : kind ≠ .stringLiteral)
    (hmark : ∀ m, kind ≠ .mark m) :
    lexeme.toList = q.text ∧ ∃ d more, q.text = d :: more ∧ first d more = q := by
  unfold first at hq
  split at hq
  · subst hq
    cases hrole
  split at hq
  · next hdigit =>
    obtain ⟨kind, hnumber⟩ := role_number (c :: rest)
    subst hq
    rw [hnumber] at hrole
    cases hrole
    exact ⟨String.toList_ofList, exists_first_number hdigit rest⟩
  split at hq
  · next hblank hdigit hstart =>
    subst hq
    cases hrole
    refine ⟨String.toList_ofList, c, rest.takeWhile continuesIdentifier, rfl, ?_⟩
    unfold first
    rw [if_neg hblank, if_neg hdigit, if_pos hstart, List.takeWhile_takeWhile]
    simp
  split at hq
  · subst hq
    cases hrole
  · subst hq
    cases hrole
  · subst hq
    cases hrole
    exact absurd rfl hstring
  · next d more _ _ _ =>
    split at hq
    · next hd =>
      subst hq
      cases hrole
      obtain ⟨tail, htext⟩ := exists_text_of_dot hd more
      refine ⟨String.toList_ofList, '.', d :: tail, htext, ?_⟩
      rw [first_dot, if_pos hd, ← htext, decimal_text]
    · exact absurd (hq ▸ hrole) (not_role_plain hmark)
  · exact absurd (hq ▸ hrole) (not_role_plain hmark)

theorem exists_first_of_mem_split {text : List Char} {q : Piece} (h : q ∈ split text) :
    ∃ c rest, first c rest = q := by
  induction text using split_induction with
  | nil =>
    rw [split] at h
    cases h
  | cons c rest tail _ hsplit ih =>
    rw [hsplit] at h
    rcases List.mem_cons.mp h with rfl | h
    · exact ⟨c, rest, rfl⟩
    · exact ih h

/-- A number or a word of a text, read alone, is the only piece. -/
theorem split_lexeme {text : List Char} {kind : TokenKind} {lexeme : String} (hq : q ∈ split text)
    (hrole : q.role = .token kind lexeme) (hstring : kind ≠ .stringLiteral)
    (hmark : ∀ m, kind ≠ .mark m) : split lexeme.toList = [q] := by
  obtain ⟨c, rest, hfirst⟩ := exists_first_of_mem_split hq
  obtain ⟨hlexeme, d, more, htext, hagain⟩ := exists_first_text hfirst hrole hstring hmark
  have hcut : d :: more = q.text ++ [] := by rw [htext, List.append_nil]
  rw [hlexeme, htext, split_of_first hagain hcut, split]

/-- A sign in front of a text is a piece by itself. -/
theorem split_sign {c : Char} (hc : c = '+' ∨ c = '-') (text : List Char) :
    split (c :: text) = plain c :: split text := by
  have hfirst : first c text = plain c := by
    rcases hc with rfl | rfl <;> cases text <;> rfl
  exact split_of_first hfirst (by rw [text_plain]; rfl)

/-! ### Strings -/

/-- Nothing in the value has to be escaped in a string. -/
def Verbatim (value : List Char) : Prop := ∀ c ∈ value, c ≠ '"' ∧ c ≠ '\\' ∧ c ≠ '\n'

theorem Verbatim.quoted {value : List Char} (h : Verbatim value) : Quoted value value := by
  induction value with
  | nil => exact .nil
  | cons c value ih =>
    obtain ⟨⟨hquote, hback, hfeed⟩, hvalue⟩ := List.forall_mem_cons.mp h
    exact .plain hquote hback hfeed (ih hvalue)

/-- A string has no more characters than are written. -/
theorem length_value_le (n : Nat) (text : List Char) :
    (stringBody n text).value.length ≤ text.length := by
  fun_induction stringBody n text with
  | case1 => exact Nat.le_refl _
  | case2 => exact Nat.zero_le _
  | case3 => exact Nat.zero_le _
  | case4 => exact Nat.zero_le _
  | case5 n c rest body v _ ih => exact Nat.succ_le_succ (ih.trans (Nat.le_succ _))
  | case6 n c rest _ body ih => exact Nat.succ_le_succ (ih.trans (Nat.le_succ _))
  | case7 n c rest _ _ _ _ body ih => exact Nat.succ_le_succ ih

/-- A string has fewer characters than are written if there is a quote among these. -/
theorem length_value_lt (n : Nat) {text : List Char} (h : '"' ∈ text) :
    (stringBody n text).value.length < text.length := by
  fun_induction stringBody n text with
  | case1 => cases h
  | case2 => exact Nat.zero_lt_succ _
  | case3 => exact Nat.zero_lt_succ _
  | case4 => exact Nat.zero_lt_succ _
  | case5 n c rest body v _ ih =>
    exact Nat.succ_lt_succ (Nat.lt_succ_of_le (length_value_le _ rest))
  | case6 n c rest _ body ih => exact Nat.succ_lt_succ (Nat.lt_succ_of_le (length_value_le _ rest))
  | case7 n c rest hquote _ _ _ body ih =>
    exact Nat.succ_lt_succ (ih (List.mem_of_ne_of_mem (fun heq => hquote heq.symm) h))

/-- A backslash and the character behind it are one character of the value. -/
theorem exists_value_escape (n : Nat) (d : Char) (rest : List Char) :
    ∃ v, (stringBody n ('\\' :: d :: rest)).value = v :: (stringBody (n + 2) rest).value := by
  rw [stringBody]
  split
  · exact ⟨_, rfl⟩
  · exact ⟨_, rfl⟩

theorem value_plain (n : Nat) {c : Char} (hquote : c ≠ '"') (hfeed : c ≠ '\n') (hback : c ≠ '\\')
    (rest : List Char) :
    (stringBody n (c :: rest)).value = c :: (stringBody (n + 1) rest).value := by
  rw [stringBody]
  · exact hquote
  · exact hfeed
  · exact fun h => absurd h hback
  · exact fun _ _ h => absurd h hback

/-- A value between quotes is that string again exactly if nothing in it has to be escaped. -/
theorem value_eq_iff (n : Nat) (value : List Char) :
    (stringBody n (value ++ ['"'])).value = value ↔ Verbatim value := by
  constructor
  · intro h
    induction value generalizing n with
    | nil => exact fun c hc => by cases hc
    | cons c value ih =>
      have hquote : c ≠ '"' := by
        rintro rfl
        cases h
      have hfeed : c ≠ '\n' := by
        rintro rfl
        cases h
      have hback : c ≠ '\\' := by
        rintro rfl
        cases value with
        | nil => simp [stringBody, unescape?] at h
        | cons d value =>
          obtain ⟨v, hv⟩ := exists_value_escape n d (value ++ ['"'])
          rw [List.cons_append, List.cons_append, hv] at h
          have hlength : (stringBody (n + 2) (value ++ ['"'])).value.length <
              (value ++ ['"']).length := length_value_lt _ (by simp)
          rw [(List.cons.inj h).2] at hlength
          simp at hlength
      rw [List.cons_append, value_plain n hquote hfeed hback] at h
      exact List.forall_mem_cons.mpr ⟨⟨hquote, hback, hfeed⟩, ih _ (List.cons.inj h).2⟩
  · intro h
    exact congrArg StringBody.value (stringBody_quoted h.quoted n [])

theorem role_of_glyph? {kind : TokenKind} {lexeme : String} (h : q.glyph? = some (kind, lexeme)) :
    q.role = .token kind lexeme := by
  unfold glyph? at h
  split at h
  · next hrole =>
    cases h
    exact hrole
  · cases h

theorem split_quoted {value : List Char} (h : Verbatim value) :
    split ('"' :: (value ++ ['"'])) =
      [⟨.token .stringLiteral (String.ofList value), '"' :: (value ++ ['"']), []⟩] := by
  have hcut : '"' :: (value ++ ['"']) = '"' :: (value ++ ['"']) ++ [] := (List.append_nil _).symm
  rw [split_of_first (first_string h.quoted []) hcut, split]

/-- What is read of a value between quotes is that string alone exactly if nothing in the value has
    to be escaped. -/
theorem glyphs_quoted_iff (value : List Char) :
    (split ('"' :: (value ++ ['"']))).filterMap glyph? =
      [(.stringLiteral, String.ofList value)] ↔ Verbatim value := by
  constructor
  · intro h
    obtain ⟨tail, htail⟩ := first_front '"' (value ++ ['"'])
    rw [split_cons htail.symm] at h
    have hfirst : glyph? (first '"' (value ++ ['"'])) =
        some (.stringLiteral, String.ofList (stringBody 1 (value ++ ['"'])).value) := rfl
    rw [List.filterMap_cons_some hfirst] at h
    have hvalue := congrArg Prod.snd (List.cons.inj h).1
    exact (value_eq_iff 1 value).mp (String.ofList_injective hvalue)
  · intro h
    rw [split_quoted h]
    rfl

end Piece

namespace Lexed

/-- What is wrong with a source is what is wrong with its pieces. -/
theorem flawless_of_ofPieces {c : Cursor} {ps : List Piece} (h : (ofPieces c ps).diagnostics = []) :
    ∀ q ∈ ps, q.flaws = [] := by
  induction ps generalizing c with
  | nil => exact fun q hq => by cases hq
  | cons q ps ih =>
    obtain ⟨hq, hps⟩ := List.append_eq_nil_iff.mp h
    exact List.forall_mem_cons.mpr ⟨List.map_eq_nil_iff.mp hq, ih hps⟩

/-- A token of a source is a piece of it, unless it is the end. -/
theorem exists_piece {source file : String} {t : Token} (ht : t ∈ (ofSource source file).tokens)
    (heof : t.kind ≠ .eof) :
    ∃ q ∈ Piece.split source.toList, q.role = .token t.kind t.lexeme := by
  have hglyph : t.glyph ∈ (ofSource source file).tokens.map Token.glyph := List.mem_map_of_mem ht
  rw [ofSource, glyphs_ofPieces] at hglyph
  rcases List.mem_append.mp hglyph with hglyph | hglyph
  · obtain ⟨q, hq, hrole⟩ := List.mem_filterMap.mp hglyph
    exact ⟨q, hq, Piece.role_of_glyph? hrole⟩
  · exact absurd (congrArg Prod.fst (List.mem_singleton.mp hglyph)) heof

/-- The tokens of a source are what its pieces are as tokens. -/
theorem glyphs_ofSource_iff {source file : String} {glyphs : List (TokenKind × String)} :
    (ofSource source file).tokens.map Token.glyph = glyphs ++ [(.eof, "")] ↔
      (Piece.split source.toList).filterMap Piece.glyph? = glyphs := by
  rw [ofSource, glyphs_ofPieces, List.append_left_inj]

end Lexed

end FlatSchema
