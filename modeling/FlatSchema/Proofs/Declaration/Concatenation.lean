import FlatSchema.Proofs.Declaration.Moving
import FlatSchema.Proofs.Declaration.Resumption
import FlatSchema.Proofs.Declaration.Soundness
import FlatSchema.Proofs.Token.Concatenation

/-!
Declarations of two texts with a line feed between them. If the first text reads without errors, its
tokens are derivations one after the other, so that whatever follows them is read from the first
token that does not belong to them. No reader looks back over that point.

        first    table A { }          A
        second   tabel B { }             error at 1:1
        ↦                             A, error at 2:1
-/

namespace FlatSchema

open Grammar

/-! ### Tokens -/

namespace Stream

theorem exists_find?_eof {tokens : List Token} (h : ∃ t ∈ tokens, t.kind = .eof) :
    ∃ t, tokens.find? (·.kind == .eof) = some t := by
  rw [← Option.isSome_iff_exists, List.find?_isSome]
  simpa using h

/-- Changing all spans changes the stream, if there is an end or if no place stays no place. -/
theorem mapSpans_ofTokens {f : Span → Span} {tokens : List Token}
    (h : f .empty = .empty ∨ ∃ t ∈ tokens, t.kind = .eof) :
    ofTokens (tokens.map (Token.mapSpan f)) = (ofTokens tokens).mapSpans f := by
  have hbody : body (tokens.map (Token.mapSpan f)) = (body tokens).map (Token.mapSpan f) := by
    rw [body, body, List.takeWhile_map]
    rfl
  have hend : endOf (tokens.map (Token.mapSpan f)) = (endOf tokens).mapSpan f := by
    have hfind : (tokens.map (Token.mapSpan f)).find? (·.kind == .eof) =
        (tokens.find? (·.kind == .eof)).map (Token.mapSpan f) := by
      rw [List.find?_map]
      rfl
    rw [endOf, endOf, hfind, List.getLast?_map]
    rcases h with hempty | h
    · have hspan : (tokens.getLast?.map (Token.mapSpan f)).map Token.span =
          (tokens.getLast?.map Token.span).map f := by
        rw [Option.map_map, Option.map_map]
        rfl
      rw [hspan]
      cases tokens.find? (·.kind == .eof) with
      | some t => rfl
      | none => cases tokens.getLast? <;> simp [Token.eof, Token.mapSpan, hempty]
    · obtain ⟨t, ht⟩ := exists_find?_eof h
      rw [ht]
      rfl
  rw [ofTokens, ofTokens, mapSpans, hbody, hend]
  cases body tokens <;> rfl

end Stream

/-- A schema with every span changed. -/
def Schema.mapSpans (f : Span → Span) (schema : Schema) : Schema :=
  ⟨schema.declarations.map (Declaration.mapSpans f), f schema.span⟩

namespace Parsed

/-- What is read, with every span changed. -/
def mapSpans (f : Span → Span) (parsed : Parsed) : Parsed :=
  ⟨parsed.schema.mapSpans f, parsed.diagnostics.map (Diagnostic.mapSpans f)⟩

/-- Changing all spans of the tokens changes those of what is read. -/
theorem ofTokens_mapSpans {f : Span → Span} (hf : ∀ a b : Span, f (a.merge b) = (f a).merge (f b))
    {tokens : List Token} (h : f .empty = .empty ∨ ∃ t ∈ tokens, t.kind = .eof) :
    ofTokens (tokens.map (Token.mapSpan f)) = (ofTokens tokens).mapSpans f := by
  have hread := Reader.declarations_mapSpans hf (Stream.ofTokens tokens)
  rw [← Stream.mapSpans_ofTokens h] at hread
  have hspan : (Stream.ofTokens tokens |>.current.mapSpan f).span.merge
      (((Reader.declarations (.ofTokens tokens)).rest.current.mapSpan f).span) =
        f ((Stream.ofTokens tokens).current.span.merge
          (Reader.declarations (.ofTokens tokens)).rest.current.span) := (hf _ _).symm
  rw [ofTokens, hread, Stream.mapSpans_ofTokens h]
  simp only [Reader.Items.move, Stream.current_mapSpans, hspan]
  rfl

/-- Tokens that read without errors are derivations one after the other. -/
theorem exists_rows_of_alone {tokens : List Token} {stop : Token}
    (htokens : ∀ t ∈ tokens, t.kind ≠ .eof) (hstop : stop.kind = .eof)
    (hsign : ∀ t ∈ tokens, IsSign t.kind → t.lexeme ≠ "")
    (hok : ∀ d ∈ (ofTokens (tokens ++ [stop])).diagnostics, d.isError = false) :
    ∃ rows, tokens = rows.flatten ∧
      List.Forall₂ Declared rows (ofTokens (tokens ++ [stop])).schema.declarations := by
  have halone : Stream.body (tokens ++ [stop]) = tokens := Stream.body_concat htokens hstop
  have hsigned : (Stream.ofTokens (tokens ++ [stop])).Signed := by
    intro t ht
    exact hsign t (halone ▸ ht)
  obtain ⟨rows, htakes, hall, hend⟩ := Reader.sound_itemsFrom Reader.declarationResumption
    Reader.sound_declaration? hsigned hok
  have hrest := htakes.rest
  rw [hend fun _ => rfl, List.append_nil] at hrest
  exact ⟨rows, halone.symm.trans hrest, hall⟩

/-- Behind derivations other tokens are read as if they were alone. -/
theorem ofTokens_behind_rows {rows : List (List Token)} {ds : List Declaration}
    {more : List Token} (hrows : ∀ t ∈ rows.flatten, t.kind ≠ .eof)
    (hall : List.Forall₂ Declared rows ds) (hmore : ∃ t ∈ more, t.kind = .eof) :
    (ofTokens (rows.flatten ++ more)).schema.declarations =
        ds ++ (ofTokens more).schema.declarations ∧
      (ofTokens (rows.flatten ++ more)).diagnostics =
        ds.flatMap Declaration.remarks ++ (ofTokens more).diagnostics := by
  have hrest : (Stream.ofTokens (rows.flatten ++ more)).rest = rows.flatten ++ Stream.body more :=
    Stream.body_append hrows more
  have hst := Stream.Takes.of_append hrest
  have hbody := List.append_cancel_left (hst.rest.symm.trans hrest)
  obtain ⟨stop, hstop⟩ := Stream.exists_find?_eof hmore
  have hend : Stream.endOf (rows.flatten ++ more) = Stream.endOf more := by
    rw [Stream.endOf_append hrows hstop, Stream.endOf, hstop, Option.getD_some]
  have hread := Reader.itemsFrom_append "declaration" Reader.declarationResumption
    Reader.completeBehind_declaration? (fun _ _ _ _ _ _ => rfl) hall hst
  obtain ⟨hitems, hreports⟩ := Reader.declarations_congr (t := Stream.ofTokens more) hbody hend
  exact ⟨(congrArg Reader.Items.items hread).trans (congrArg (ds ++ ·) hitems),
    (congrArg Reader.Items.reports hread).trans (congrArg (_ ++ ·) hreports)⟩

/-- Behind tokens that read without errors other tokens are read as if they were alone. -/
theorem ofTokens_append {first second : List Token} {stop : Token}
    (hfirst : ∀ t ∈ first, t.kind ≠ .eof) (hstop : stop.kind = .eof)
    (hsign : ∀ t ∈ first, IsSign t.kind → t.lexeme ≠ "")
    (hok : ∀ d ∈ (ofTokens (first ++ [stop])).diagnostics, d.isError = false)
    (hsecond : ∃ t ∈ second, t.kind = .eof) :
    (ofTokens (first ++ second)).schema.declarations =
        (ofTokens (first ++ [stop])).schema.declarations ++
          (ofTokens second).schema.declarations ∧
      (ofTokens (first ++ second)).diagnostics =
        (ofTokens (first ++ [stop])).diagnostics ++ (ofTokens second).diagnostics := by
  obtain ⟨rows, hrows, hall⟩ := exists_rows_of_alone hfirst hstop hsign hok
  have halone : Stream.body (first ++ [stop]) = rows.flatten := by
    rw [Stream.body_concat hfirst hstop, hrows]
  obtain ⟨-, hremarks⟩ := ofTokens_of_derivations halone hall
  have hbehind := ofTokens_behind_rows (fun t ht => hfirst t (hrows ▸ ht)) hall hsecond
  rwa [← hrows, ← hremarks] at hbehind

end Parsed

/-! ### Texts -/

/-- The signs of a text have lexemes. -/
theorem Lexed.lexeme_ne_of_isSign {source file : String} {t : Token}
    (ht : t ∈ (ofSource source file).tokens) (hsign : IsSign t.kind) : t.lexeme ≠ "" := by
  obtain ⟨strays, hlayout⟩ := exists_layout file .first source.toList
  obtain ⟨before, written, behind, -, hwritten, -⟩ := hlayout.exists_written ht
  have hlexeme : written = t.lexeme.toList ∧ written ≠ [] := by
    rcases hsign with hkind | hkind
    · simpa only [Layout.WrittenAs, hkind] using hwritten
    · simpa only [Layout.WrittenAs, hkind] using hwritten
  intro hempty
  rw [hempty] at hlexeme
  exact hlexeme.2 hlexeme.1

theorem Lexed.exists_mem_eof (source file : String) :
    ∃ t ∈ (ofSource source file).tokens, t.kind = .eof := by
  obtain ⟨strays, hlayout⟩ := exists_layout file .first source.toList
  obtain ⟨_, heof, -⟩ := hlayout.exists_eof
  exact ⟨_, heof ▸ List.mem_append_right _ (List.mem_singleton_self _), rfl⟩

namespace Parsed

/-- Two texts with a line feed between them, of which the first reads without errors: the
    declarations of the first, and those of the second moved behind it. -/
theorem ofSource_append {first : String} (second file : String)
    (h : ∀ d ∈ (ofSource first file).diagnostics, d.isError = false) :
    (ofSource (first ++ "\n" ++ second) file).schema.declarations =
        (ofSource first file).schema.declarations ++
          (ofSource second file).schema.declarations.map
            (Declaration.mapSpans (Shift.behind first).span) ∧
      (ofSource (first ++ "\n" ++ second) file).diagnostics =
        (Lexed.ofSource second file).diagnostics.map (Diagnostic.mapSpans (Shift.behind first).span)
          ++ (ofTokens (Lexed.ofSource first file).tokens).diagnostics
          ++ (ofTokens (Lexed.ofSource second file).tokens).diagnostics.map
            (Diagnostic.mapSpans (Shift.behind first).span) := by
  have hlexed : (Lexed.ofSource first file).diagnostics = [] :=
    Lexed.diagnostics_eq_nil fun d hd => h d (List.mem_append_left _ hd)
  obtain ⟨init, stop, htokens, hstop, hinit, happend⟩ :=
    Lexed.exists_ofSource_append second file hlexed
  have hend := Lexed.exists_mem_eof second file
  have hmoved : ∃ t ∈ (Lexed.ofSource second file).tokens.map
      (Token.mapSpan (Shift.behind first).span), t.kind = .eof := by
    obtain ⟨t, ht, hkind⟩ := hend
    exact ⟨_, List.mem_map_of_mem ht, hkind⟩
  have hsign : ∀ t ∈ init, IsSign t.kind → t.lexeme ≠ "" := by
    intro t ht
    have hmem : t ∈ (Lexed.ofSource first file).tokens := htokens ▸ List.mem_append_left _ ht
    exact Lexed.lexeme_ne_of_isSign hmem
  have hok : ∀ d ∈ (ofTokens (init ++ [stop])).diagnostics, d.isError = false := by
    rw [← htokens]
    exact fun d hd => h d (List.mem_append_right _ hd)
  obtain ⟨hdeclarations, hreports⟩ := ofTokens_append hinit hstop hsign hok hmoved
  have hmapped := ofTokens_mapSpans (Shift.behind first).span_merge (.inr hend)
  rw [hmapped, ← htokens] at hdeclarations hreports
  rw [ofSource, happend]
  refine ⟨hdeclarations, ?_⟩
  rw [List.append_assoc]
  exact congrArg (_ ++ ·) hreports

end Parsed

end FlatSchema
