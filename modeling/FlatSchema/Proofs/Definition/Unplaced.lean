import FlatSchema.Proofs.Definition.Moving

/-!
Layout never reaches what is said. Tokens without their places decide what is read from them, what
that defines and what is reported, up to places; a text decides its tokens and its flaws by the
pieces that are neither white space nor comments.

        table T { hp: int; }  // one            table T{hp:int;}
        ↦  table · T · { · hp · : · int · ; · }                       for both
-/

namespace FlatSchema

/-! ### Tokens -/

/-- Tokens that agree in kind and lexeme are the same tokens at other places. -/
theorem map_nowhere_of_glyphs {tokens tokens' : List Token}
    (h : tokens.map Token.glyph = tokens'.map Token.glyph) :
    tokens.map (Token.mapSpan nowhere) = tokens'.map (Token.mapSpan nowhere) := by
  have hglyph (ts : List Token) : ts.map (Token.mapSpan nowhere) =
      (ts.map Token.glyph).map fun (kind, lexeme) => ⟨kind, lexeme, .empty⟩ := by
    rw [List.map_map]
    rfl
  rw [hglyph, hglyph, h]

/-- Tokens at no places are read as what is read, at no places. -/
theorem Parsed.ofTokens_nowhere (tokens : List Token) :
    ofTokens (tokens.map (Token.mapSpan nowhere)) = (ofTokens tokens).mapSpans nowhere :=
  ofTokens_mapSpans (fun _ _ => rfl) (.inl rfl)

/-! ### Pieces -/

namespace Piece

/-- White space, or a comment that is closed. -/
def isGap (p : Piece) : Bool :=
  match p.role with
  | .blank | .lineComment | .blockComment => p.flaws.isEmpty
  | _ => false

/-- What is left of a piece without its place: what it is and what is wrong with it. Nothing is left
    of a gap. -/
def content? (p : Piece) : Option (Role × List Flaw) :=
  if p.isGap then none else some (p.role, p.flaws.map Prod.fst)

/-- What is left of a text without its layout. -/
def contents (source : String) : List (Role × List Flaw) :=
  (split source.toList).filterMap content?

theorem glyph?_eq_content? (p : Piece) :
    p.glyph? = p.content?.bind fun (role, _) =>
      match role with
      | .token kind lexeme => some (kind, lexeme)
      | _ => none := by
  rw [content?, isGap, glyph?]
  cases p.role with
  | token kind lexeme => rfl
  | stray => rfl
  | _ => cases p.flaws.isEmpty <;> rfl

theorem flaws_eq_content? (p : Piece) :
    p.flaws.map Prod.fst = (p.content?.map Prod.snd).getD [] := by
  rw [content?]
  split
  · next hgap =>
    have hnone : p.flaws = [] := by
      rw [isGap] at hgap
      cases hrole : p.role with
      | token kind lexeme => rw [hrole] at hgap; cases hgap
      | stray => rw [hrole] at hgap; cases hgap
      | _ => simpa only [hrole, List.isEmpty_iff] using hgap
    rw [hnone]
    rfl
  · rfl

end Piece

namespace Lexed

/-- What is wrong with pieces, without places, is what is wrong with their contents. -/
theorem diagnostics_nowhere (c : Cursor) (ps : List Piece) :
    (ofPieces c ps).diagnostics.map (Diagnostic.mapSpans nowhere) =
      (ps.filterMap Piece.content?).flatMap fun (_, flaws) =>
        flaws.map fun flaw => .errorAt flaw.message .empty := by
  induction ps generalizing c with
  | nil => rfl
  | cons p ps ih =>
    have hflaws : (flawsAt c p).map (Diagnostic.mapSpans nowhere) =
        ((p.content?.map Prod.snd).getD []).map fun flaw => .errorAt flaw.message .empty := by
      rw [← Piece.flaws_eq_content?, flawsAt, List.map_map, List.map_map]
      rfl
    rw [ofPieces, List.map_append, hflaws, ih]
    cases h : p.content? with
    | none => rw [List.filterMap_cons_none h]; rfl
    | some content => rw [List.filterMap_cons_some h]; rfl

theorem tokens_nowhere_of_contents {source source' : String}
    (h : Piece.contents source = Piece.contents source') (file file' : String) :
    (ofSource source file).tokens.map (Token.mapSpan nowhere) =
      (ofSource source' file').tokens.map (Token.mapSpan nowhere) := by
  have hglyphs (source : String) : (Piece.split source.toList).filterMap Piece.glyph? =
      (Piece.contents source).filterMap fun (role, _) =>
        match role with
        | .token kind lexeme => some (kind, lexeme)
        | _ => none := by
    rw [Piece.contents, List.filterMap_filterMap]
    exact congrArg (List.filterMap · _) (funext Piece.glyph?_eq_content?)
  refine map_nowhere_of_glyphs ?_
  rw [ofSource, ofSource, glyphs_ofPieces, glyphs_ofPieces, hglyphs, hglyphs, h]

end Lexed

/-- Texts that differ only in layout are read as the same, at other places. -/
theorem Parsed.nowhere_of_contents {source source' : String}
    (h : Piece.contents source = Piece.contents source') (file file' : String) :
    (ofSource source file).mapSpans nowhere = (ofSource source' file').mapSpans nowhere := by
  have hflaws : (Lexed.ofSource source file).diagnostics.map (Diagnostic.mapSpans nowhere) =
      (Lexed.ofSource source' file').diagnostics.map (Diagnostic.mapSpans nowhere) := by
    rw [Lexed.ofSource, Lexed.ofSource, Lexed.diagnostics_nowhere, Lexed.diagnostics_nowhere]
    exact congrArg (List.flatMap _) h
  have hread := congrArg ofTokens (Lexed.tokens_nowhere_of_contents h file file')
  rw [ofTokens_nowhere, ofTokens_nowhere] at hread
  have hschema := congrArg Parsed.schema hread
  have hreports := congrArg Parsed.diagnostics hread
  simp only [mapSpans] at hschema hreports
  simp only [mapSpans, ofSource, hschema, hflaws, hreports, List.map_append]

/-! ### Compiling -/

namespace Compilation

/-- What comes of compiling, with every span changed. -/
def mapSpans (f : Span → Span) (c : Compilation) : Compilation :=
  ⟨c.bag.mapSpans f, c.definition.map (SchemaDefinition.mapSpans f)⟩

theorem ofParsed_mapSpans (f : Span → Span) (parsed : Parsed) :
    ofParsed (parsed.mapSpans f) = (ofParsed parsed).mapSpans f := by
  have hbag : Bag.reportAll {} (parsed.mapSpans f).diagnostics =
      (Bag.reportAll {} parsed.diagnostics).mapSpans f :=
    Bag.reportAll_mapSpans f {} parsed.diagnostics
  have hanalysis : Analysis.ofSchema (parsed.mapSpans f).schema =
      (Analysis.ofSchema parsed.schema).mapSpans f := Analysis.ofSchema_mapSpans f parsed.schema
  rw [ofParsed, ofParsed, hbag, hanalysis]
  simp only [Bag.hasErrors_mapSpans]
  split
  · rfl
  · rw [mapSpans, ← Bag.absorb_mapSpans]
    rfl

theorem handoff_mapSpans (f : Span → Span) (c : Compilation) (layout : Json.Layout) :
    (c.mapSpans f).definition.map (·.handoff layout) = c.definition.map (·.handoff layout) := by
  rw [mapSpans, Option.map_map]
  congr 1
  funext s
  exact s.handoff_mapSpans f layout

/-- Places never reach what is said. Tokens that agree in kind and lexeme are read as schemas that
    agree up to places, with the same reports, define the same with the same reports, and hand on
    the same text. Texts that differ only in white space and comments compile to the same text, with
    the same reports. -/
theorem layout_unseen :
    (∀ tokens tokens' : List Token, tokens.map Token.glyph = tokens'.map Token.glyph →
      (Parsed.ofTokens tokens).mapSpans nowhere = (Parsed.ofTokens tokens').mapSpans nowhere ∧
      (Analysis.ofSchema (Parsed.ofTokens tokens).schema).mapSpans nowhere =
        (Analysis.ofSchema (Parsed.ofTokens tokens').schema).mapSpans nowhere ∧
      ∀ layout, (Analysis.ofSchema (Parsed.ofTokens tokens).schema).definition.handoff layout =
        (Analysis.ofSchema (Parsed.ofTokens tokens').schema).definition.handoff layout) ∧
    ∀ source source' file file' : String, Piece.contents source = Piece.contents source' →
      (ofSource source file).mapSpans nowhere = (ofSource source' file').mapSpans nowhere ∧
      ∀ layout, (ofSource source file).definition.map (·.handoff layout) =
        (ofSource source' file').definition.map (·.handoff layout) := by
  constructor
  · intro tokens tokens' h
    have hread := congrArg Parsed.ofTokens (map_nowhere_of_glyphs h)
    rw [Parsed.ofTokens_nowhere, Parsed.ofTokens_nowhere] at hread
    have hanalysis := congrArg (Analysis.ofSchema ∘ Parsed.schema) hread
    have hresolve (parsed : Parsed) : Analysis.ofSchema (parsed.mapSpans nowhere).schema =
        (Analysis.ofSchema parsed.schema).mapSpans nowhere :=
      Analysis.ofSchema_mapSpans nowhere parsed.schema
    simp only [Function.comp_apply, hresolve] at hanalysis
    refine ⟨hread, hanalysis, fun layout => ?_⟩
    have htext := congrArg (fun a => a.definition.handoff layout) hanalysis
    simpa only [Analysis.mapSpans, SchemaDefinition.handoff_mapSpans] using htext
  · intro source source' file file' h
    have hcompile := congrArg ofParsed (Parsed.nowhere_of_contents h file file')
    rw [ofParsed_mapSpans, ofParsed_mapSpans] at hcompile
    refine ⟨hcompile, fun layout => ?_⟩
    have htext := congrArg (fun c => c.definition.map (·.handoff layout)) hcompile
    simp only [handoff_mapSpans] at htext
    exact htext

/-- A text that declares a field twice, and the same text in another layout. -/
def spreadSource : String := "table T // one\n\x7b\n  hp : int ; hp : [int] ( id : 1 ) ;\n\x7d"

def denseSource : String := "table T\x7bhp:int;hp/**/:[int](id:1);\x7d"

theorem layout_unseen_dense :
    ((Lexed.ofSource spreadSource "a.fbs").tokens.map Token.glyph =
        (Lexed.ofSource denseSource "b.fbs").tokens.map Token.glyph ∧
      (Parsed.ofTokens (Lexed.ofSource spreadSource "a.fbs").tokens).mapSpans nowhere =
        (Parsed.ofTokens (Lexed.ofSource denseSource "b.fbs").tokens).mapSpans nowhere) ∧
    Piece.contents spreadSource = Piece.contents denseSource ∧
      (ofSource spreadSource "a.fbs").mapSpans nowhere =
        (ofSource denseSource "b.fbs").mapSpans nowhere ∧
      (ofSource spreadSource "a.fbs").definition.map (·.handoff .compact) =
        (ofSource denseSource "b.fbs").definition.map (·.handoff .compact) := by
  have hglyphs : (Lexed.ofSource spreadSource "a.fbs").tokens.map Token.glyph =
      (Lexed.ofSource denseSource "b.fbs").tokens.map Token.glyph := by decide +kernel
  have hcontents : Piece.contents spreadSource = Piece.contents denseSource := by decide +kernel
  obtain ⟨hcompile, htext⟩ := layout_unseen.2 _ _ "a.fbs" "b.fbs" hcontents
  exact ⟨⟨hglyphs, (layout_unseen.1 _ _ hglyphs).1⟩, hcontents, hcompile, htext .compact⟩

end Compilation

end FlatSchema
