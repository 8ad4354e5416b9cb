import FlatSchema.Proofs.Declaration.Concatenation
import FlatSchema.Proofs.Declaration.Passing
import FlatSchema.Proofs.Definition.Analysis
import FlatSchema.Proofs.Source.Coherence

/-!
Every span fits the text it comes from. The cursor that walks along the pieces of a text always
stands behind a front of it, so the spans of tokens and of what is wrong with them fit the text;
readers only pass spans on or merge them; and resolving takes the spans of its reports from the
declarations it reports on.

        pieces ──▶ tokens ──▶ declarations ──▶ definitions
           │                       │
           ▼                       ▼
        reports                 reports
-/

namespace FlatSchema

/-! ### Tokens -/

/-- A cursor in a text of a file stands behind a front of the text. -/
structure Cursor.Within (source file : String) (c : Cursor) : Prop where
  file : c.file = file
  front : ∃ before, source.toList = before ++ c.rest ∧ c.position = Position.first.after before

namespace Cursor.Within

variable {source file : String} {c : Cursor}

theorem ofSource : (Cursor.ofSource source file).Within source file := ⟨rfl, [], rfl, rfl⟩

theorem skip (h : c.Within source file) (n : Nat) : (c.skip n).Within source file := by
  obtain ⟨hfile, before, hsource, hposition⟩ := h
  refine ⟨hfile, before ++ c.rest.take n, ?_, ?_⟩
  · rw [List.append_assoc, Cursor.skip, List.take_append_drop, hsource]
  · rw [Position.after_append, ← hposition, Cursor.skip]

/-- The span of the next characters fits the text. -/
theorem coherent_spanSince (hsize : source.utf8ByteSize < 2 ^ 32 - 1) (h : c.Within source file)
    (n : Nat) : (c.spanSince (c.skip n)).Coherent source file := by
  obtain ⟨hfile, before, hsource, hposition⟩ := h
  have hspan : c.spanSince (c.skip n) =
      ⟨file, Position.first.after before, Position.first.after (before ++ c.rest.take n)⟩ := by
    rw [Position.after_append, ← hposition, ← hfile]
    rfl
  have hfront : source.toList = before ++ c.rest.take n ++ c.rest.drop n := by
    rw [List.append_assoc, List.take_append_drop, hsource]
  rw [hspan]
  exact Span.coherent_of_run hsize hfront

end Cursor.Within

/-- All spans in tokens and in what is wrong with them. -/
def Lexed.spans (l : Lexed) : List Span :=
  l.tokens.map Token.span ++ l.diagnostics.flatMap Diagnostic.spans

theorem Lexed.coherent_ofPieces {source file : String} (hsize : source.utf8ByteSize < 2 ^ 32 - 1)
    {c : Cursor} (hc : c.Within source file) (ps : List Piece) :
    ∀ x ∈ (ofPieces c ps).spans, x.Coherent source file := by
  induction ps generalizing c with
  | nil =>
    have hend := hc.coherent_spanSince hsize 0
    rw [Cursor.skip_zero] at hend
    simpa [ofPieces, spans, Token.eof] using hend
  | cons p ps ih =>
    have htail := ih (hc.skip p.text.length)
    have htoken : ∀ t ∈ tokenAt c p, t.span.Coherent source file := by
      intro t ht
      unfold tokenAt at ht
      split at ht
      · cases ht
        exact hc.coherent_spanSince hsize _
      · cases ht
    have hflaws : ∀ d ∈ flawsAt c p, ∀ x ∈ d.spans, x.Coherent source file := by
      intro d hd x hx
      obtain ⟨⟨flaw, reach⟩, -, rfl⟩ := List.mem_map.mp hd
      obtain rfl : x = c.spanSince (c.skip reach) := by
        simpa [Diagnostic.spans, Diagnostic.errorAt] using hx
      exact hc.coherent_spanSince hsize reach
    simp only [spans, List.forall_mem_append, List.forall_mem_map] at htail
    simp only [ofPieces, spans, List.map_append, List.flatMap_append, List.forall_mem_append,
      List.forall_mem_map, Option.mem_toList, List.forall_mem_flatMap]
    exact ⟨⟨htoken, htail.1⟩, hflaws, List.forall_mem_flatMap.mp htail.2⟩

/-! ### Reports on declarations -/

theorem AttributeMap.Repeats.spans_subset {before entries : List MetadataEntry}
    {ds : List Diagnostic} (h : Repeats before entries ds) :
    ds.flatMap Diagnostic.spans ⊆ (before ++ entries).map MetadataEntry.span := by
  induction h with
  | done => simp
  | @new before rest e ds _ _ ih => rwa [List.append_assoc, List.singleton_append] at ih
  | @again before rest e p ds hlast _ ih =>
    obtain ⟨front, behind, hbefore, -, -⟩ := hlast
    rw [List.append_assoc, List.singleton_append] at ih
    rw [List.flatMap_cons, List.append_subset]
    refine ⟨?_, ih⟩
    intro x hx
    have hx : x = e.span ∨ x = p.span := by simpa [Diagnostic.spans] using hx
    rcases hx with rfl | rfl
    · exact List.mem_map_of_mem (by simp)
    · exact List.mem_map_of_mem (by simp [hbefore])

namespace FieldDecl

variable (decl : FieldDecl)

theorem span_entry_mem {e : MetadataEntry} (he : e ∈ decl.metadata.entries) :
    e.span ∈ decl.spans := by
  have hmem : e.span ∈ decl.metadata.spans :=
    List.mem_append_right _ (List.mem_flatMap.mpr ⟨e, he, List.mem_cons_self ..⟩)
  exact List.mem_append_right _ hmem

theorem span_mem_spans : decl.span ∈ decl.spans := by simp [spans]

theorem span_name_mem_spans : decl.name.span ∈ decl.spans := by simp [spans, Spelling.spans]

/-- The reports on a field are about places in the field. -/
theorem spans_reports_subset : decl.reports.flatMap Diagnostic.spans ⊆ decl.spans := by
  rw [reports_eq, List.flatMap_append, List.append_subset]
  constructor
  · have hrepeats : AttributeMap.Repeats [] decl.metadata.entries
        (AttributeMap.duplicates decl.metadata.entries) := AttributeMap.repeats_iff.mpr rfl
    intro x hx
    obtain ⟨e, he, rfl⟩ := List.mem_map.mp (hrepeats.spans_subset hx)
    exact decl.span_entry_mem he
  · intro x hx
    obtain ⟨d, hd, hx⟩ := List.mem_flatMap.mp hx
    obtain ⟨c, -, hd⟩ := List.mem_flatMap.mp hd
    obtain ⟨message, -, rfl⟩ := List.mem_map.mp hd
    obtain rfl : x = (decl.attributes.spanOf? c.key).getD decl.span := by
      simpa [Diagnostic.spans, Diagnostic.errorAt] using hx
    cases h : decl.attributes.get? c.key with
    | none =>
      rw [AttributeMap.spanOf?, h]
      exact decl.span_mem_spans
    | some a =>
      obtain ⟨e, ⟨before, behind, hentries, -, -⟩, rfl⟩ := AttributeMap.get?_eq_some_iff.mp h
      rw [AttributeMap.spanOf?, h]
      exact decl.span_entry_mem (by simp [hentries])

end FieldDecl

theorem mem_of_mem_placedBehind {α : Type} {before items earlier : List α} {a : α}
    (h : (earlier, a) ∈ placedBehind before items) :
    a ∈ items ∧ earlier ⊆ before ++ items := by
  induction items generalizing before with
  | nil => cases h
  | cons b rest ih =>
    rw [placedBehind, List.mem_cons] at h
    rcases h with h | h
    · cases h
      exact ⟨List.mem_cons_self .., List.subset_append_left _ _⟩
    · obtain ⟨ha, hearlier⟩ := ih h
      rw [List.append_assoc, List.singleton_append] at hearlier
      exact ⟨List.mem_cons_of_mem _ ha, hearlier⟩

namespace TypeDecl

variable (decl : TypeDecl)

theorem spans_field_subset {f : FieldDecl} (hf : f ∈ decl.fields) : f.spans ⊆ decl.spans := by
  intro x hx
  exact List.mem_append_right _ (List.mem_flatMap.mpr ⟨f, hf, hx⟩)

/-- An error about two fields, at a place in each of them, is about places in the type. -/
theorem spans_pair_subset {d : Diagnostic} {f g : FieldDecl} {at₁ at₂ : Span}
    (hf : f ∈ decl.fields) (hg : g ∈ decl.fields) (h₁ : at₁ ∈ f.spans) (h₂ : at₂ ∈ g.spans)
    (hspan : d.span = some at₁) (hrelated : d.related.map RelatedNote.span = [at₂]) :
    d.spans ⊆ decl.spans := by
  intro x hx
  rw [Diagnostic.spans, hspan, hrelated] at hx
  have hx : x = at₁ ∨ x = at₂ := by simpa using hx
  rcases hx with rfl | rfl
  · exact decl.spans_field_subset hf h₁
  · exact decl.spans_field_subset hg h₂

theorem spans_fieldErrors_subset : decl.fieldErrors.flatMap Diagnostic.spans ⊆ decl.spans := by
  intro x hx
  rw [fieldErrors_eq] at hx
  obtain ⟨d, hd, hx⟩ := List.mem_flatMap.mp hx
  obtain ⟨f, hf, hd⟩ := List.mem_flatMap.mp hd
  obtain ⟨e, he, rfl⟩ := List.mem_map.mp hd
  exact decl.spans_field_subset hf (f.spans_reports_subset (List.mem_flatMap.mpr ⟨e, he, hx⟩))

theorem spans_nameErrors_subset : decl.nameErrors.flatMap Diagnostic.spans ⊆ decl.spans := by
  intro x hx
  obtain ⟨d, hd, hx⟩ := List.mem_flatMap.mp hx
  obtain ⟨⟨before, f⟩, hplaced, hd⟩ := List.mem_filterMap.mp hd
  obtain ⟨hf, hbefore⟩ := mem_of_mem_placedBehind hplaced
  obtain ⟨g, hfind, rfl⟩ := Option.map_eq_some_iff.mp hd
  have hg : g ∈ decl.fields := hbefore (List.mem_of_find?_eq_some hfind)
  exact decl.spans_pair_subset hf hg f.span_name_mem_spans g.span_name_mem_spans rfl rfl hx

theorem spans_indexErrors_subset : decl.indexErrors.flatMap Diagnostic.spans ⊆ decl.spans := by
  intro x hx
  obtain ⟨d, hd, hx⟩ := List.mem_flatMap.mp hx
  obtain ⟨⟨before, f⟩, hplaced, hd⟩ := List.mem_filterMap.mp hd
  obtain ⟨hf, hbefore⟩ := mem_of_mem_placedBehind hplaced
  obtain ⟨id, -, hd⟩ := Option.bind_eq_some_iff.mp hd
  obtain ⟨g, hfind, rfl⟩ := Option.map_eq_some_iff.mp hd
  have hg : g ∈ decl.fields := hbefore (List.mem_of_find?_eq_some hfind)
  exact decl.spans_pair_subset hf hg f.span_mem_spans g.span_mem_spans rfl rfl hx

end TypeDecl

/-- The errors about a declaration are about places in it. -/
theorem Declaration.spans_errors_subset (d : Declaration) :
    d.errors.flatMap Diagnostic.spans ⊆ d.spans := by
  cases d with
  | directive kind value span =>
    cases kind with
    | fileIdentifier =>
      rw [errors]
      split
      · exact List.nil_subset _
      · exact List.Subset.refl _
    | _ => exact List.nil_subset _
  | type decl =>
    rw [errors, TypeDecl.errors, List.flatMap_append, List.flatMap_append, List.append_subset,
      List.append_subset]
    refine ⟨⟨decl.spans_fieldErrors_subset, decl.spans_nameErrors_subset⟩, ?_⟩
    split
    · exact decl.spans_indexErrors_subset
    · exact List.nil_subset _
  | enum decl => exact List.nil_subset _
  | service name span => exact List.nil_subset _

/-! ### Whole texts -/

/-- All spans in what comes of resolving: those of the fields that are defined and those of the
    reports. -/
def Analysis.spans (a : Analysis) : List Span :=
  (a.definition.types.flatMap fun t => t.fields.map FieldDefinition.span) ++
    a.bag.diagnostics.flatMap Diagnostic.spans

/-- Resolving a schema makes no span of its own. -/
theorem Analysis.spans_ofSchema_subset (schema : Schema) :
    (ofSchema schema).spans ⊆ schema.spans := by
  have hcomposed : ofSchema schema = composed schema.declarations :=
    foldl_visit_composed [] schema.declarations
  have hmem {d : Declaration} (hd : d ∈ schema.declarations) : d.spans ⊆ schema.spans := by
    intro x hx
    exact List.mem_cons_of_mem _ (List.mem_flatMap.mpr ⟨d, hd, hx⟩)
  rw [hcomposed, spans, List.append_subset]
  constructor
  · intro x hx
    obtain ⟨t, ht, hx⟩ := List.mem_flatMap.mp hx
    obtain ⟨⟨before, d⟩, hplaced, hdefine⟩ := List.mem_filterMap.mp ht
    have hd := (mem_of_mem_placedBehind hplaced).1
    cases d with
    | type decl =>
      cases hdefine
      obtain ⟨g, hg, rfl⟩ := List.mem_map.mp hx
      obtain ⟨f, hf, rfl⟩ := List.mem_map.mp hg
      exact hmem hd (decl.spans_field_subset hf f.span_mem_spans)
    | _ => cases hdefine
  · intro x hx
    obtain ⟨e, he, hx⟩ := List.mem_flatMap.mp hx
    obtain ⟨d, hd, he⟩ := List.mem_flatMap.mp he
    exact hmem hd (d.spans_errors_subset (List.mem_flatMap.mpr ⟨e, he, hx⟩))

/-- In a text of less than 2³² - 1 bytes every span fits: those of the tokens, those of the
    declarations and of the reports on the text, and those of the definitions and of the reports on
    the declarations, whether the text is well-formed or not. -/
theorem Parsed.spans_coherent (source file : String) (hsize : source.utf8ByteSize < 2 ^ 32 - 1) :
    (∀ t ∈ (Lexed.ofSource source file).tokens, t.span.Coherent source file) ∧
      (∀ x ∈ (ofSource source file).spans, x.Coherent source file) ∧
      ∀ x ∈ (Analysis.ofSchema (ofSource source file).schema).spans, x.Coherent source file := by
  have hcursor : (Cursor.ofSource source file).Within source file := .ofSource
  have hlexed := Lexed.coherent_ofPieces hsize hcursor (Piece.split source.toList)
  simp only [Lexed.spans, List.forall_mem_append, List.forall_mem_map] at hlexed
  have hparsed := forall_mem_spans (fun _ _ => Span.Coherent.merge)
    (Lexed.exists_mem_eof source file) hlexed.1
  rw [spans, List.forall_mem_append] at hparsed
  refine ⟨hlexed.1, ?_, ?_⟩
  · rw [ofSource, spans, List.flatMap_append, List.forall_mem_append, List.forall_mem_append]
    exact ⟨hparsed.1, hlexed.2, hparsed.2⟩
  · intro x hx
    exact hparsed.1 x (Analysis.spans_ofSchema_subset _ hx)

/-- A text with characters of several bytes, a line feed in a comment and in a string, a field that
    repeats another, and a declaration that is not finished. -/
def brokenSource : String :=
  "table É /*\n*/ \x7b hp: int (id: \"ü\n); hp: int (key, key); \x7d enum"

theorem Parsed.spans_coherent_broken : brokenSource.utf8ByteSize < 2 ^ 32 - 1 ∧
    ∀ x ∈ (Analysis.ofSchema (ofSource brokenSource "é.fbs").schema).spans,
      x.Coherent brokenSource "é.fbs" := by
  have hsize : brokenSource.utf8ByteSize < 2 ^ 32 - 1 := by decide
  exact ⟨hsize, (spans_coherent brokenSource "é.fbs" hsize).2.2⟩

end FlatSchema
