import FlatSchema.Proofs.Declaration.Nesting
import FlatSchema.Proofs.Token.Rereading

/-!
Defaults as texts. A default is recorded as a text: a number or a word as it is written, with its
sign, and a string as its value between quotes. Whoever reads that text alone gets the tokens of the
default back, except for a string in whose value something has to be escaped.

        hp: int = -5;          ↦   -5       reads as   - 5
        s: string = "a\"b";    ↦   "a"b"    reads as   "a" b "
        s: string = "\\n";     ↦   "\n"     reads as   a line feed
-/

namespace FlatSchema

open Grammar

/-- The defaults of the fields of a declaration. -/
def Declaration.defaults : Declaration → List Spelling
  | type d => d.fields.filterMap FieldDecl.default
  | directive _ _ _ | enum _ | service _ _ => []

/-- All defaults that a schema records. -/
def Schema.defaults (s : Schema) : List Spelling := s.declarations.flatMap Declaration.defaults

/-! ### Defaults in a source -/

theorem Grammar.Field.exists_default {row : List Token} {f : FieldDecl} {s : Spelling}
    (h : Field row f) (hs : f.default = some s) :
    ∃ ts, ts <:+: row ∧ Spelled (ScalarText true) ts s := by
  obtain ⟨-, -, -, hdefault, -, -, rfl⟩ := h
  next name colon semicolon typeTokens defaultTokens metadataTokens type default metadata =>
  obtain rfl : default = some s := hs
  cases hdefault with
  | @present equal ts _ _ hscalar =>
    exact ⟨ts, ⟨name :: colon :: (typeTokens ++ [equal]), metadataTokens ++ [semicolon], by simp⟩,
      hscalar⟩

theorem Grammar.Recovered.exists_fields {row : List Token} {d : TypeDecl}
    (h : Recovered row (.type d)) : ∃ ts, ts <:+: row ∧ Scattered Field ts d.fields := by
  cases h with
  | @type _ word name l r metadataTokens ts _ _ _ _ _ _ _ hfields _ hrow =>
    exact ⟨ts, ⟨word :: name :: (metadataTokens ++ [l]), [r], by simp [hrow]⟩, hfields⟩
  | whole hd =>
    cases hd with
    | @type kind word name l r metadataTokens _ rows _ _ _ _ _ _ hfields _ hrow =>
      exact ⟨rows.flatten, ⟨word :: name :: (metadataTokens ++ [l]), [r], by simp [hrow]⟩,
        .of_rows hfields⟩

/-- Every field has its tokens next to each other in the source. -/
theorem Parsed.exists_field_row {source file : String} {d : TypeDecl} {f : FieldDecl}
    (hd : .type d ∈ (ofSource source file).schema.declarations) (hf : f ∈ d.fields) :
    ∃ row, row <:+: (Lexed.ofSource source file).tokens ∧ Field row f := by
  have hscattered := (scattered_ofTokens fun t (ht : t ∈ (Lexed.ofSource source file).tokens) =>
    Lexed.lexeme_ne_of_isSign ht).1
  have hbody : Stream.body (Lexed.ofSource source file).tokens <:+:
      (Lexed.ofSource source file).tokens := (List.takeWhile_prefix _).isInfix
  obtain ⟨row, hrow, hrecovered⟩ := hscattered.exists_infix hd
  obtain ⟨ts, hts, hfields⟩ := hrecovered.exists_fields
  obtain ⟨fieldRow, hfieldRow, hfield⟩ := hfields.exists_infix hf
  exact ⟨fieldRow, hfieldRow.trans (hts.trans (hrow.trans hbody)), hfield⟩

/-- Every default that is recorded is the text of a scalar that stands in the source. -/
theorem Parsed.exists_scalar {source file : String} {s : Spelling}
    (hs : s ∈ (ofSource source file).schema.defaults) :
    ∃ ts, ts <:+: (Lexed.ofSource source file).tokens ∧ Spelled (ScalarText true) ts s := by
  obtain ⟨d, hd, hs⟩ := List.mem_flatMap.mp hs
  cases d with
  | type d =>
    obtain ⟨f, hf, hdefault⟩ := List.mem_filterMap.mp hs
    obtain ⟨row, hrow, hfield⟩ := exists_field_row hd hf
    obtain ⟨ts, hts, hscalar⟩ := hfield.exists_default hdefault
    exact ⟨ts, hts.trans hrow, hscalar⟩
  | directive | enum | service => cases hs

/-! ### Reading defaults again -/

/-- Strings among the tokens have nothing in their values that has to be escaped. -/
def Verbatim (ts : List Token) : Prop :=
  ∀ t ∈ ts, t.kind = .stringLiteral → Piece.Verbatim t.lexeme.toList

section Rereading

variable {source file : String} {ts : List Token} {text : String}

theorem verbatim_of_forall (h : ∀ t ∈ ts, t.kind ≠ .stringLiteral) : Verbatim ts :=
  fun t ht hkind => absurd hkind (h t ht)

/-- Numbers and words are no strings and no marks. -/
theorem kind_ne_of_plain {k : TokenKind} (hk : k = .intLiteral ∨ k = .floatLiteral ∨ IsName k) :
    k ≠ .eof ∧ k ≠ .stringLiteral ∧ ∀ m, k ≠ .mark m := by
  rcases hk with hk | hk | hk | ⟨w, hk⟩ <;> simp [hk]

/-- A number or a word of a source is a piece of it, and is that piece again if it stands alone. -/
theorem exists_piece_alone {t : Token} (ht : t ∈ (Lexed.ofSource source file).tokens)
    (hk : t.kind = .intLiteral ∨ t.kind = .floatLiteral ∨ IsName t.kind) :
    ∃ q ∈ Piece.split source.toList, q.glyph? = some t.glyph ∧
      Piece.split t.lexeme.toList = [q] := by
  obtain ⟨heof, hstring, hmark⟩ := kind_ne_of_plain hk
  obtain ⟨q, hq, hrole⟩ := Lexed.exists_piece ht heof
  exact ⟨q, hq, by rw [Piece.glyph?, hrole]; rfl, Piece.split_lexeme hq hrole hstring hmark⟩

/-- The pieces of a string that is put back between quotes. -/
theorem rereads_string {t : Token} (hk : t.kind = .stringLiteral) :
    ((Piece.split ('"' :: (t.lexeme.toList ++ ['"']))).filterMap Piece.glyph? = [t.glyph] ↔
      Verbatim [t]) ∧
      (Verbatim [t] → ∀ q ∈ Piece.split ('"' :: (t.lexeme.toList ++ ['"'])), q.flaws = []) := by
  have hverbatim : Verbatim [t] ↔ Piece.Verbatim t.lexeme.toList := by simp [Verbatim, hk]
  have hglyph : t.glyph = (.stringLiteral, String.ofList t.lexeme.toList) := by
    rw [Token.glyph, hk, String.ofList_toList]
  rw [hverbatim, hglyph]
  refine ⟨Piece.glyphs_quoted_iff _, fun h => ?_⟩
  rw [Piece.split_quoted h]
  simp

theorem plain_of_takesSign {k : TokenKind} (h : TakesSign k) :
    k = .intLiteral ∨ k = .floatLiteral ∨ IsName k := by
  rcases h with h | h | h | h | h
  · exact .inl h
  · exact .inr (.inl h)
  · exact .inr (.inr (.inl h))
  · exact .inr (.inr (.inr ⟨_, h⟩))
  · exact .inr (.inr (.inr ⟨_, h⟩))

theorem forall_ne_of_signed {sign t : Token} (hsign : IsSign sign.kind) (hk : TakesSign t.kind) :
    ∀ u ∈ [sign, t], u.kind ≠ .stringLiteral := by
  refine List.forall_mem_cons.mpr ⟨?_, List.forall_mem_singleton.mpr ?_⟩
  · rcases hsign with hsign | hsign <;> simp [hsign]
  · exact (kind_ne_of_plain (plain_of_takesSign hk)).2.1

/-- A sign of a source is written as itself. -/
theorem exists_sign {t : Token} (ht : t ∈ (Lexed.ofSource source file).tokens)
    (hk : IsSign t.kind) : ∃ c, (c = '+' ∨ c = '-') ∧ t.lexeme.toList = [c] ∧
      (Piece.plain c).glyph? = some t.glyph ∧ (Piece.plain c).flaws = [] := by
  have hall : Standing source file (Lexed.ofSource source file).tokens := .refl _
  have hspelled := hall.spelled ht
  rcases hk with hk | hk
  · rw [hk] at hspelled
    have hlexeme : t.lexeme = "+" := hspelled
    refine ⟨'+', .inl rfl, by rw [hlexeme]; rfl, ?_, rfl⟩
    rw [Token.glyph, hk, hlexeme]
    rfl
  · rw [hk] at hspelled
    have hlexeme : t.lexeme = "-" := hspelled
    refine ⟨'-', .inr rfl, by rw [hlexeme]; rfl, ?_, rfl⟩
    rw [Token.glyph, hk, hlexeme]
    rfl

/-- The pieces of a scalar's text are the scalar's tokens unless something has to be escaped, and
    they have no flaws if the pieces of the source have none. -/
theorem Grammar.ScalarText.rereads (h : ScalarText true ts text)
    (hts : ts <:+: (Lexed.ofSource source file).tokens) :
    ((Piece.split text.toList).filterMap Piece.glyph? = ts.map Token.glyph ↔ Verbatim ts) ∧
      (Verbatim ts → (∀ q ∈ Piece.split source.toList, q.flaws = []) →
        ∀ q ∈ Piece.split text.toList, q.flaws = []) := by
  have hsub := hts.subset
  cases h with
  | @string t hk =>
    have htext : (s!"\"{t.lexeme}\"").toList = '"' :: (t.lexeme.toList ++ ['"']) := by
      simp [toString]
    obtain ⟨hglyphs, hflawless⟩ := rereads_string hk
    rw [if_pos rfl, htext]
    exact ⟨hglyphs, fun hverbatim _ => hflawless hverbatim⟩
  | @plain t hk =>
    have hverbatim : Verbatim [t] :=
      verbatim_of_forall (List.forall_mem_singleton.mpr (kind_ne_of_plain hk).2.1)
    obtain ⟨q, hq, hglyph, hsplit⟩ := exists_piece_alone (hsub (List.mem_singleton_self t)) hk
    rw [hsplit, List.filterMap_cons_some hglyph]
    exact ⟨iff_of_true rfl hverbatim, fun _ hsource => by simpa using hsource q hq⟩
  | @signed sign t hsign hk =>
    have hverbatim : Verbatim [sign, t] := verbatim_of_forall (forall_ne_of_signed hsign hk)
    obtain ⟨c, hc, hlexeme, hmark, hflaws⟩ := exists_sign (hsub (List.mem_cons_self ..)) hsign
    obtain ⟨q, hq, hglyph, hsplit⟩ := exists_piece_alone (hsub (by simp)) (plain_of_takesSign hk)
    rw [String.toList_append, hlexeme, List.singleton_append, Piece.split_sign hc, hsplit,
      List.filterMap_cons_some hmark, List.filterMap_cons_some hglyph]
    exact ⟨iff_of_true rfl hverbatim, fun _ hsource => by simp [hflaws, hsource q hq]⟩

end Rereading

/-- A recorded default reads, alone, as the tokens it has in the source exactly if no string among
    them has something in its value that has to be escaped; and then nothing is wrong with it if
    nothing is wrong with the source. -/
theorem Parsed.default_rereads_iff {source file : String} {s : Spelling}
    (hs : s ∈ (ofSource source file).schema.defaults) (other : String) :
    ∃ ts, ts <:+: (Lexed.ofSource source file).tokens ∧ Spelled (ScalarText true) ts s ∧
      ((Lexed.ofSource s.text other).tokens.map Token.glyph = ts.map Token.glyph ++ [(.eof, "")] ↔
        Verbatim ts) ∧
      (Verbatim ts → (Lexed.ofSource source file).diagnostics = [] →
        (Lexed.ofSource s.text other).diagnostics = []) := by
  obtain ⟨ts, hts, hscalar⟩ := exists_scalar hs
  obtain ⟨hglyphs, hflawless⟩ := hscalar.1.rereads hts
  refine ⟨ts, hts, hscalar, Lexed.glyphs_ofSource_iff.trans hglyphs, fun hverbatim hsource => ?_⟩
  exact Lexed.diagnostics_ofPieces _ (hflawless hverbatim (Lexed.flawless_of_ofPieces hsource))

/-- A table with a negative number as a default. -/
def negativeSource : String := "table T \x7b hp: int = -5; \x7d"

def negativeDefault : Spelling :=
  (Parsed.ofSource negativeSource "t.fbs").schema.defaults.headD default

theorem Parsed.default_rereads_negative :
    negativeDefault ∈ (ofSource negativeSource "t.fbs").schema.defaults ∧
    ∃ ts, ts <:+: (Lexed.ofSource negativeSource "t.fbs").tokens ∧
      Spelled (ScalarText true) ts negativeDefault ∧
      ((Lexed.ofSource negativeDefault.text "default").tokens.map Token.glyph =
        ts.map Token.glyph ++ [(.eof, "")] ↔ Verbatim ts) ∧
      (Verbatim ts → (Lexed.ofSource negativeSource "t.fbs").diagnostics = [] →
        (Lexed.ofSource negativeDefault.text "default").diagnostics = []) := by
  have hs : negativeDefault ∈ (ofSource negativeSource "t.fbs").schema.defaults := by
    decide +kernel
  exact ⟨hs, default_rereads_iff hs "default"⟩

/-- A table whose default is a backslash and the letter n. -/
def backslashSource : String := "table T \x7b s: string = \"\\\\n\"; \x7d"

/-- Nothing is wrong with the source, but what is recorded of the backslash and the letter is the
    text of a line feed. -/
theorem Parsed.default_reads_as_lineFeed :
    (ofSource backslashSource "t.fbs").diagnostics = [] ∧
    ((Lexed.ofSource backslashSource "t.fbs").tokens.drop 7).head?.map Token.glyph =
      some (.stringLiteral, "\\n") ∧
    (ofSource backslashSource "t.fbs").schema.defaults.map Spelling.text = ["\"\\n\""] ∧
    (Lexed.ofSource "\"\\n\"" "t.fbs").tokens.map Token.glyph =
      [(.stringLiteral, "\n"), (.eof, "")] ∧
    (Lexed.ofSource "\"\\n\"" "t.fbs").diagnostics = [] := by
  decide +kernel

end FlatSchema
