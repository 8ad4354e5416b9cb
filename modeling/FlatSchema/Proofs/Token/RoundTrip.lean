import FlatSchema.Proofs.Token.Writing

/-!
Tokens written down and read again. Kind and lexeme of a token go together: a mark and a keyword
have one lexeme, an identifier is a word that is no keyword, a number is written in one of its
forms, and a string may be any text. A row of such tokens can be written down with any separators between
them, and in several ways where there are strings. Reading gives back their kinds and lexemes.

        identifier hp · mark : · string a⏎b      ↦      hp/*!*/:   "a\nb"
-/

namespace FlatSchema

/-! ### Tokens -/

/-- A kind and a lexeme that go together. -/
inductive WellFormed : TokenKind → List Char → Prop where
  | mark (m : Mark) : WellFormed (.mark m) [m.char]
  | keyword (k : Keyword) : WellFormed (.keyword k) k.text.toList
  | identifier {word : List Char} : IsWord word → (∀ k : Keyword, k.text.toList ≠ word) →
      WellFormed .identifier word
  | number {kind : TokenKind} {text : List Char} : IsNumber kind text → WellFormed kind text
  | string (value : List Char) : WellFormed .stringLiteral value

/-- The ways to write a token: a string between quotes with its escapes, and any other token as its
    lexeme. -/
inductive WrittenOnce : TokenKind → List Char → List Char → Prop where
  | string {value text : List Char} : Quoted value text →
      WrittenOnce .stringLiteral value ('"' :: (text ++ ['"']))
  | plain {kind : TokenKind} {lexeme : List Char} : kind ≠ .stringLiteral →
      WrittenOnce kind lexeme lexeme

/-- White space and complete comments, at least one of them. -/
def IsSeparator (text : List Char) : Prop :=
  ∃ gap gaps, (∀ g ∈ gap :: gaps, IsGap g) ∧ text = gap ++ gaps.flatten

/-- Tokens written one behind the other, with a separator between two of them. -/
inductive WrittenDown : List (TokenKind × String) → List Char → Prop where
  | nil : WrittenDown [] []
  | one {kind : TokenKind} {lexeme : String} {run : List Char} :
      WrittenOnce kind lexeme.toList run → WrittenDown [(kind, lexeme)] run
  | cons {kind : TokenKind} {lexeme : String} {run separator text : List Char}
      {glyphs : List (TokenKind × String)} : WrittenOnce kind lexeme.toList run →
      IsSeparator separator → WrittenDown glyphs text →
      WrittenDown ((kind, lexeme) :: glyphs) (run ++ separator ++ text)

/-! ### Tokens as lexemes -/

theorem Keyword.ofText?_text (k : Keyword) : ofText? k.text = some k := by
  cases k <;> decide

theorem Keyword.ofText?_eq_none {word : List Char} (h : ∀ k : Keyword, k.text.toList ≠ word) :
    ofText? (String.ofList word) = none := by
  refine List.find?_eq_none.mpr fun k _ htext => h k ?_
  rw [eq_of_beq htext, String.toList_ofList]

/-- What goes together is a lexeme, and is written as the lexeme is. -/
theorem WellFormed.exists_lexeme {kind : TokenKind} {lexeme run : List Char}
    (h : WellFormed kind lexeme) (hrun : WrittenOnce kind lexeme run) :
    ∃ x : Lexeme, x.glyph = (kind, String.ofList lexeme) ∧ x.Writes run := by
  cases h with
  | mark m =>
    cases hrun with
    | plain => exact ⟨.mark m, rfl, .mark⟩
  | keyword k =>
    cases hrun with
    | plain =>
      refine ⟨.word ⟨_, k.isWord_text⟩, ?_, .word⟩
      simp [Lexeme.glyph, Lexeme.kind, Lexeme.lexeme, Word.kind, k.ofText?_text]
  | identifier hword hnot =>
    cases hrun with
    | plain =>
      refine ⟨.word ⟨_, hword⟩, ?_, .word⟩
      simp [Lexeme.glyph, Lexeme.kind, Lexeme.lexeme, Word.kind, Keyword.ofText?_eq_none hnot]
  | number hnumber =>
    cases hrun with
    | string => cases hnumber
    | plain => exact ⟨.number ⟨_, _, hnumber⟩, rfl, .number⟩
  | string =>
    cases hrun with
    | string hquoted => exact ⟨.string _, rfl, .string hquoted⟩
    | plain hstring => exact absurd rfl hstring

/-! ### Rows of tokens -/

theorem rendered_gaps {gaps : List (List Char)} (hgaps : ∀ g ∈ gaps, IsGap g) {xs : List Lexeme}
    {text : List Char} (h : Rendered xs text) : Rendered xs (gaps.flatten ++ text) := by
  induction gaps with
  | nil => exact h
  | cons gap gaps ih =>
    obtain ⟨hgap, hgaps⟩ := List.forall_mem_cons.mp hgaps
    rw [List.flatten_cons, List.append_assoc]
    exact .gap hgap (ih hgaps)

/-- Tokens that are written down are lexemes that are written down. -/
theorem WrittenDown.exists_rendered {glyphs : List (TokenKind × String)} {text : List Char}
    (h : WrittenDown glyphs text) (hglyphs : ∀ g ∈ glyphs, WellFormed g.1 g.2.toList) :
    ∃ xs : List Lexeme, xs.map Lexeme.glyph = glyphs ∧ Rendered xs text := by
  induction h with
  | nil => exact ⟨[], rfl, .done⟩
  | one hrun =>
    obtain ⟨x, hx, hwrites⟩ := (hglyphs _ (List.mem_singleton_self _)).exists_lexeme hrun
    rw [String.ofList_toList] at hx
    exact ⟨[x], by rw [List.map_singleton, hx], .last hwrites⟩
  | cons hrun hseparator _ ih =>
    obtain ⟨hfirst, hrest⟩ := List.forall_mem_cons.mp hglyphs
    obtain ⟨x, hx, hwrites⟩ := hfirst.exists_lexeme hrun
    obtain ⟨xs, rfl, hxs⟩ := ih hrest
    obtain ⟨gap, gaps, hgaps, rfl⟩ := hseparator
    obtain ⟨hgap, hgaps⟩ := List.forall_mem_cons.mp hgaps
    rw [String.ofList_toList] at hx
    refine ⟨x :: xs, by rw [List.map_cons, hx], ?_⟩
    rw [List.append_assoc, List.append_assoc]
    exact .more hwrites hgap (rendered_gaps hgaps hxs)

/-- Well-formed tokens that are written down in any way, between white space and complete comments,
    are read back with their kinds and lexemes, and nothing is reported. -/
theorem Lexed.glyphs_of_writtenDown {glyphs : List (TokenKind × String)} {source : String}
    {front : List (List Char)} {text : List Char} (file : String)
    (hglyphs : ∀ g ∈ glyphs, WellFormed g.1 g.2.toList) (htext : WrittenDown glyphs text)
    (hfront : ∀ g ∈ front, IsGap g) (hsource : source.toList = front.flatten ++ text) :
    (ofSource source file).tokens.map Token.glyph = glyphs ++ [(.eof, "")] ∧
      (ofSource source file).diagnostics = [] := by
  obtain ⟨xs, rfl, hxs⟩ := htext.exists_rendered hglyphs
  have hrendered : Rendered xs source.toList := hsource ▸ rendered_gaps hfront hxs
  exact glyphs_ofSource hrendered file

/-- A word that begins as a keyword, a float behind a dot, a string, and a keyword. -/
def sampleGlyphs : List (TokenKind × String) :=
  [(.identifier, "tables"), (.mark .dot, "."), (.floatLiteral, ".5E-3"),
    (.stringLiteral, "é\n\t\""), (.keyword .tableWord, "table")]

/-- They are written with comments and white space of several kinds around them. -/
def sampleSource : String := " tables/***/. .5E-3//*\n\u2003\"é\\n\t\\\"\" table"

theorem wellFormed_sampleGlyphs : ∀ g ∈ sampleGlyphs, WellFormed g.1 g.2.toList := by
  have hexponent : IsExponent ('E' :: (['-'] ++ ['3'])) :=
    .some (.inr rfl) (by simp) (by simp) (List.forall_mem_singleton.mpr rfl)
  have hword : IsWord "tables".toList :=
    ⟨'t', _, rfl, by decide, List.all_eq_true.mp (by decide)⟩
  have hnumber : IsNumber .floatLiteral ([] ++ '.' :: ['5'] ++ 'E' :: (['-'] ++ ['3'])) :=
    .fraction (by simp) (by simp) (List.forall_mem_singleton.mpr rfl) hexponent
  have hnot : ∀ k : Keyword, k.text.toList ≠ "tables".toList := by
    intro k
    cases k <;> decide
  simp only [sampleGlyphs, List.forall_mem_cons]
  exact ⟨.identifier hword hnot, .mark .dot, .number hnumber, .string _, .keyword .tableWord,
    by simp⟩

theorem writtenDown_sampleGlyphs :
    ∃ text, WrittenDown sampleGlyphs text ∧ sampleSource.toList = [[' ']].flatten ++ text := by
  have hspace : IsSeparator [' '] := by
    refine ⟨[' '], [], ?_, rfl⟩
    rw [List.forall_mem_singleton]
    exact .blank (by decide)
  have hstars : IsSeparator ("/*".toList ++ (['*'] ++ ['*', '/'])) := by
    refine ⟨_, [], ?_, (List.append_nil _).symm⟩
    rw [List.forall_mem_singleton]
    exact .blockComment (by decide)
  have hline : IsSeparator ("//".toList ++ (['*'] ++ ['\n']) ++ [['\u2003']].flatten) := by
    refine ⟨_, [['\u2003']], ?_, rfl⟩
    rw [List.forall_mem_cons, List.forall_mem_singleton]
    exact ⟨.lineComment (by decide), .blank (by decide)⟩
  have hquoted : Quoted "é\n\t\"".toList "é\\n\t\\\"".toList :=
    .plain (by decide) (by decide) (by decide) <| .escape (by decide) <|
      .plain (by decide) (by decide) (by decide) <| .escape (by decide) .nil
  exact ⟨_, .cons (.plain (by decide)) hstars <| .cons (.plain (by decide)) hspace <|
    .cons (.plain (by decide)) hline <| .cons (.string hquoted) hspace <|
    .one (.plain (by decide)), rfl⟩

theorem Lexed.glyphs_of_writtenDown_sample :
    (∀ g ∈ sampleGlyphs, WellFormed g.1 g.2.toList) ∧
      (∃ text, WrittenDown sampleGlyphs text ∧ sampleSource.toList = [[' ']].flatten ++ text) ∧
      (ofSource sampleSource "t.fbs").tokens.map Token.glyph = sampleGlyphs ++ [(.eof, "")] ∧
      (ofSource sampleSource "t.fbs").diagnostics = [] := by
  obtain ⟨text, htext, hsource⟩ := writtenDown_sampleGlyphs
  have hfront : ∀ g ∈ [[' ']], IsGap g := by
    rw [List.forall_mem_singleton]
    exact .blank (by decide)
  exact ⟨wellFormed_sampleGlyphs, ⟨text, htext, hsource⟩,
    glyphs_of_writtenDown "t.fbs" wellFormed_sampleGlyphs htext hfront hsource⟩

end FlatSchema
