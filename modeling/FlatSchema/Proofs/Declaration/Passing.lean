import FlatSchema.Declaration.Production

/-!
Where the spans of declarations come from. A reader hands out no span of its own: whatever it gives,
and whatever it reports, it takes from the tokens in front of it or merges from spans it has taken.
So a property of spans that merging keeps goes from the tokens to everything that is read, whether
reading goes well or not. Each primitive reader passes it on, and a reader made of readers that do
so does too.

        tokens        hp @1:1–1:3   : @1:3–1:4   short @1:5–1:10   …
        declaration   hp @1:1–1:3                short @1:5–1:10     field @1:1–…
-/

namespace FlatSchema

/-! ### Whatever has spans -/

def Diagnostic.spans (d : Diagnostic) : List Span := d.span.toList ++ d.related.map RelatedNote.span

def Spelling.spans (s : Spelling) : List Span := [s.span]

/-- The entry and its value. -/
def MetadataEntry.spans (e : MetadataEntry) : List Span :=
  e.span :: e.value.toList.flatMap Spelling.spans

/-- The parentheses and the entries. -/
def Metadata.spans (m : Metadata) : List Span :=
  m.span.toList ++ m.entries.flatMap MetadataEntry.spans

/-- The field with its name, its type, its default and its metadata. -/
def FieldDecl.spans (f : FieldDecl) : List Span :=
  f.span :: f.name.spans ++ f.type.spans ++ f.default.toList.flatMap Spelling.spans ++
    f.metadata.spans

/-- The type with its metadata and its fields. -/
def TypeDecl.spans (t : TypeDecl) : List Span :=
  t.span :: t.metadata.spans ++ t.fields.flatMap FieldDecl.spans

def EnumValue.spans (v : EnumValue) : List Span := [v.span]

/-- The enum with its metadata and its values. -/
def EnumDecl.spans (e : EnumDecl) : List Span :=
  e.span :: e.metadata.spans ++ e.values.flatMap EnumValue.spans

/-- All spans in a declaration. -/
def Declaration.spans : Declaration → List Span
  | directive _ _ span | service _ span => [span]
  | type decl => decl.spans
  | enum decl => decl.spans

/-- All spans in a schema. -/
def Schema.spans (s : Schema) : List Span := s.span :: s.declarations.flatMap Declaration.spans

/-- All spans in a stream. -/
def Stream.spans (s : Stream) : List Span :=
  s.previous.span :: s.stop.span :: s.rest.map Token.span

/-- The spans of what has none. -/
def noSpans {α : Type} (_ : α) : List Span := []

/-! ### Streams -/

namespace Stream

/-- What is ahead in a stream has no spans but those of the stream. -/
theorem Ahead.spans_subset {s t : Stream} (h : s.Ahead t) : t.spans ⊆ s.spans := by
  obtain ⟨n, rfl⟩ := h
  intro x hx
  simp only [spans, skip, List.mem_cons, List.mem_map] at hx ⊢
  rcases hx with rfl | rfl | ⟨t, ht, rfl⟩
  · cases hlast : (s.rest.take n).getLast? with
    | none => exact .inl (by rw [List.getLastD_eq_getLast?, hlast]; rfl)
    | some t =>
      have ht : t ∈ s.rest := List.mem_of_mem_take (List.mem_of_getLast? hlast)
      exact .inr (.inr ⟨t, ht, by rw [List.getLastD_eq_getLast?, hlast]; rfl⟩)
  · exact .inr (.inl rfl)
  · exact .inr (.inr ⟨t, List.mem_of_mem_drop ht, rfl⟩)

theorem span_current_mem (s : Stream) : s.current.span ∈ s.spans := by
  rw [current, spans]
  cases hr : s.rest with
  | nil => simp
  | cons t r => simp

end Stream

/-! ### Readers -/

/-- The spans of a value, or that of the token that was found instead. -/
def resultSpans {α : Type} (spans : α → List Span) : Except Fault α → List Span
  | .ok a => spans a
  | .error f => [f.found.span]

/-- All spans in what comes of reading. -/
def Outcome.spans {α : Type} (spans : α → List Span) (o : Outcome α) : List Span :=
  resultSpans spans o.result ++ o.reports.flatMap Diagnostic.spans

namespace Reader

/-- All spans in the good items of a row and in the reports about bad ones. -/
def Items.spans {α : Type} (spans : α → List Span) (o : Items α) : List Span :=
  o.items.flatMap spans ++ o.reports.flatMap Diagnostic.spans

/-- On a stream all of whose spans have a property, all spans of the outcome have it. -/
def Passes {α : Type} (P : Span → Prop) (spans : α → List Span) (r : Reader α) : Prop :=
  ∀ s : Stream, (∀ x ∈ s.spans, P x) → ∀ x ∈ (r.read s).spans spans, P x

section Combinators

variable {α β : Type} {P : Span → Prop} {spansOf : α → List Span} {spansOf' : β → List Span}
  {r : Reader α}

theorem passes_pure {a : α} (h : ∀ x ∈ spansOf a, P x) : Passes P spansOf (pure a) := by
  intro s _ x hx
  exact h x (by simpa [Outcome.spans, resultSpans, pure] using hx)

theorem passes_bind {k : α → Reader β} (hr : Passes P spansOf r)
    (hk : ∀ a, (∀ x ∈ spansOf a, P x) → Passes P spansOf' (k a)) : Passes P spansOf' (r >>= k) := by
  intro s hs
  have hread : (r >>= k).read s = (r.read s).andThen fun a t => (k a).read t := rfl
  have ho := hr s hs
  have hrest : ∀ x ∈ (r.read s).rest.spans, P x := fun x hx =>
    hs x ((r.ahead s).spans_subset hx)
  rw [hread, Outcome.andThen]
  simp only [Outcome.spans, List.forall_mem_append] at ho
  cases hresult : (r.read s).result with
  | error f =>
    rw [hresult] at ho
    simp only [Outcome.spans, List.forall_mem_append]
    exact ho
  | ok a =>
    rw [hresult] at ho
    have hnext := hk a ho.1 _ hrest
    simp only [Outcome.spans, List.forall_mem_append] at hnext
    simp only [Outcome.spans, List.flatMap_append, List.forall_mem_append]
    exact ⟨hnext.1, ho.2, hnext.2⟩

theorem passes_map {f : α → β} (hr : Passes P spansOf r)
    (hf : ∀ a, (∀ x ∈ spansOf a, P x) → ∀ x ∈ spansOf' (f a), P x) : Passes P spansOf' (f <$> r) :=
  passes_bind hr fun a ha => passes_pure (hf a ha)

theorem passes_ite {c : Prop} [Decidable c] {q : Reader α} (hr : Passes P spansOf r)
    (hq : Passes P spansOf q) : Passes P spansOf (if c then r else q) := by
  split
  · exact hr
  · exact hq

end Combinators

/-! ### Single steps -/

section Steps

variable {α : Type} {P : Span → Prop} {spansOf : α → List Span} {r : Reader α}

theorem passes_current : Passes P (fun t => [t.span]) current := by
  intro s hs x hx
  obtain rfl : x = s.current.span := by simpa [Outcome.spans, resultSpans, current] using hx
  exact hs _ s.span_current_mem

theorem passes_kind : Passes P noSpans kind := by
  intro s _ x hx
  simp [Outcome.spans, resultSpans, kind, noSpans] at hx

theorem passes_upcoming : Passes P noSpans upcoming := by
  intro s _ x hx
  simp [Outcome.spans, resultSpans, upcoming, noSpans] at hx

theorem passes_skip (n : Nat) : Passes P noSpans (skip n) := by
  intro s _ x hx
  simp [Outcome.spans, resultSpans, skip, noSpans] at hx

theorem passes_next : Passes P (fun t => [t.span]) next := by
  intro s hs x hx
  obtain rfl : x = s.current.span := by simpa [Outcome.spans, resultSpans, next] using hx
  exact hs _ s.span_current_mem

theorem passes_fail (expected : String) : Passes P spansOf (fail expected) := by
  intro s hs x hx
  obtain rfl : x = s.current.span := by simpa [Outcome.spans, resultSpans, fail] using hx
  exact hs _ s.span_current_mem

theorem passes_report {d : Diagnostic} (hd : ∀ x ∈ d.spans, P x) :
    Passes P noSpans (report d) := by
  intro s _ x hx
  exact hd x (by simpa [Outcome.spans, resultSpans, report, noSpans] using hx)

theorem passes_spanFrom (hP : ∀ a b, P a → P b → P (a.merge b)) {start : Span} (h : P start) :
    Passes P (fun x => [x]) (spanFrom start) := by
  intro s hs x hx
  obtain rfl : x = start.merge s.previous.span := by
    simpa [Outcome.spans, resultSpans, spanFrom] using hx
  exact hP _ _ h (hs _ (List.mem_cons_self ..))

theorem passes_accept (welcome : TokenKind → Bool) (expected : String) :
    Passes P (fun t => [t.span]) (accept welcome expected) :=
  passes_bind passes_kind fun _ _ => passes_ite passes_next (passes_fail expected)

theorem passes_eat (m : Mark) : Passes P noSpans (eat m) := by
  refine passes_bind passes_kind fun _ _ => passes_ite ?_ (passes_pure (by simp [noSpans]))
  exact passes_bind passes_next fun _ _ => passes_pure (by simp [noSpans])

theorem passes_behind (m : Mark) (hr : Passes P spansOf r) :
    Passes P (fun o => o.toList.flatMap spansOf) (behind m r) := by
  refine passes_bind (passes_eat m) fun b _ => passes_ite ?_ (passes_pure (by simp))
  exact passes_map hr fun a ha => by simpa using ha

/-! ### Rows -/

theorem passes_rowFrom (hr : Passes P spansOf r) (m : Mark) (closed : TokenKind → Bool) {s : Stream}
    (hs : ∀ x ∈ s.spans, P x) :
    ∀ x ∈ (rowFrom r m closed s).spans (List.flatMap spansOf), P x := by
  fun_induction rowFrom r m closed s with
  | case1 s hc => simp [Outcome.spans, resultSpans]
  | case2 s hc o f hf =>
    have ho := hr s hs
    rw [Outcome.spans, show (r.read s).result = .error f from hf] at ho
    exact ho
  | case3 s hc o a ha hk _ tail ih =>
    have ho := hr s hs
    rw [Outcome.spans, show (r.read s).result = .ok a from ha, List.forall_mem_append] at ho
    have htail := ih fun x hx =>
      hs x (((r.ahead s).trans (Stream.ahead_skip 1 _)).spans_subset hx)
    rw [Outcome.spans, List.forall_mem_append] at htail
    simp only [Outcome.spans, List.flatMap_append, List.forall_mem_append]
    refine ⟨?_, ho.2, htail.2⟩
    cases hresult : tail.result with
    | error f =>
      rw [show (rowFrom r m closed (o.rest.skip 1)).result = .error f from hresult] at htail
      exact htail.1
    | ok as =>
      rw [show (rowFrom r m closed (o.rest.skip 1)).result = .ok as from hresult] at htail
      simp only [Except.map, resultSpans, List.flatMap_cons, List.forall_mem_append]
      exact ⟨ho.1, htail.1⟩
  | case4 s hc o a ha hk =>
    have ho := hr s hs
    rw [Outcome.spans, show (r.read s).result = .ok a from ha] at ho
    simpa [Outcome.spans, resultSpans] using ho

theorem passes_row (hr : Passes P spansOf r) (m : Mark) (closed : TokenKind → Bool) :
    Passes P (List.flatMap spansOf) (row r m closed) := fun _ hs => passes_rowFrom hr m closed hs

theorem passes_row₁ (hr : Passes P spansOf r) (m : Mark) :
    Passes P (List.flatMap spansOf) (row₁ r m) := passes_row hr m _

theorem spans_diagnostic (f : Fault) : f.diagnostic.spans = [f.found.span] := rfl

/-- A row with recovery passes a property on if it goes from the token that chooses an item to the
    item, and to the report about a token that chooses none. -/
theorem passes_itemsFrom {item : Token → Option (Reader α)}
    (hitem : ∀ t r, P t.span → item t = some r → Passes P spansOf r) (expected : String)
    {closed : TokenKind → Bool} (resumption : Resumption closed) {s : Stream}
    (hs : ∀ x ∈ s.spans, P x) :
    ∀ x ∈ (itemsFrom item expected resumption s).spans spansOf, P x := by
  have hfirst {s : Stream} {t : Token} {rest : List Token} (hs : ∀ x ∈ s.spans, P x)
      (hr : s.rest = t :: rest) : P t.span := hs _ (by simp [Stream.spans, hr])
  fun_induction itemsFrom item expected resumption s with
  | case1 s hr => simp [Items.spans]
  | case2 s t _ hr hc => simp [Items.spans]
  | case3 s t _ hr hc hpos hi _ tail ih =>
    have htail := ih fun x hx => hs x ((resumption.ahead s).spans_subset hx)
    simp only [Items.spans, List.forall_mem_append, List.flatMap_cons, spans_diagnostic] at htail ⊢
    exact ⟨htail.1, by simpa using hfirst hs hr, htail.2⟩
  | case4 s t _ hr hc hpos r hi o hlt a ha tail ih =>
    have hskip : ∀ x ∈ (s.skip 1).spans, P x := fun x hx =>
      hs x ((Stream.ahead_skip 1 s).spans_subset hx)
    have ho := hitem t r (hfirst hs hr) hi (s.skip 1) hskip
    rw [Outcome.spans, show (r.read (s.skip 1)).result = .ok a from ha,
      List.forall_mem_append] at ho
    have htail := ih fun x hx => hskip x ((r.ahead (s.skip 1)).spans_subset hx)
    simp only [Items.spans, List.forall_mem_append, List.flatMap_cons,
      List.flatMap_append] at htail ⊢
    exact ⟨⟨ho.1, htail.1⟩, ho.2, htail.2⟩
  | case5 s t _ hr hc hpos r hi o hlt f hf _ tail ih =>
    have hskip : ∀ x ∈ (s.skip 1).spans, P x := fun x hx =>
      hs x ((Stream.ahead_skip 1 s).spans_subset hx)
    have ho := hitem t r (hfirst hs hr) hi (s.skip 1) hskip
    rw [Outcome.spans, show (r.read (s.skip 1)).result = .error f from hf,
      List.forall_mem_append] at ho
    have htail := ih fun x hx =>
      hskip x (((r.ahead (s.skip 1)).trans (resumption.ahead _)).spans_subset hx)
    simp only [Items.spans, List.forall_mem_append, List.flatMap_cons, List.flatMap_append,
      spans_diagnostic] at htail ⊢
    exact ⟨htail.1, ho.2, ho.1, htail.2⟩

theorem passes_items {item : Token → Option (Reader α)}
    (hitem : ∀ t r, P t.span → item t = some r → Passes P spansOf r) (expected : String)
    {closed : TokenKind → Bool} (resumption : Resumption closed) :
    Passes P (List.flatMap spansOf) (items item expected resumption) :=
  fun _ hs => passes_itemsFrom hitem expected resumption hs

end Steps

/-! ### Productions -/

section Productions

variable {P : Span → Prop} (hP : ∀ a b, P a → P b → P (a.merge b))

include hP

theorem passes_dotted (expected : String) : Passes P Spelling.spans (dotted expected) := by
  refine passes_bind passes_current fun start hstart => ?_
  refine passes_bind (passes_row₁ (passes_accept _ _) .dot) fun parts _ => ?_
  refine passes_bind (passes_spanFrom hP (List.forall_mem_singleton.mp hstart)) fun span hspan => ?_
  exact passes_pure hspan

omit hP in
theorem passes_closings (depth : Nat) (text : String) :
    Passes P noSpans (closings depth text) := by
  induction depth generalizing text with
  | zero => exact passes_pure (by simp [noSpans])
  | succ depth ih =>
    refine passes_bind (passes_behind .colon (passes_accept _ _)) fun length _ => ?_
    refine passes_bind (passes_accept _ _) fun _ _ => ?_
    cases length with
    | none => exact ih _
    | some n => exact ih _

theorem passes_type : Passes P Spelling.spans Reader.type := by
  refine passes_bind passes_current fun start hstart => ?_
  refine passes_bind passes_upcoming fun tokens _ => passes_bind (passes_skip _) fun _ _ => ?_
  refine passes_bind (passes_dotted hP _) fun element helement => ?_
  refine passes_ite (passes_pure helement) ?_
  refine passes_bind (passes_closings _ _) fun text _ => ?_
  refine passes_bind (passes_spanFrom hP (List.forall_mem_singleton.mp hstart)) fun span hspan => ?_
  exact passes_pure hspan

theorem passes_scalar (expected : String) (quoting : Bool) :
    Passes P Spelling.spans (scalar expected quoting) := by
  have hsign : Passes P noSpans scalar.optionalSign := by
    refine passes_bind passes_kind fun _ _ => passes_ite ?_ (passes_pure (by simp [noSpans]))
    exact passes_bind passes_next fun _ _ => passes_pure (by simp [noSpans])
  refine passes_bind passes_current fun start hstart => passes_bind hsign fun sign _ => ?_
  refine passes_bind (passes_accept _ _) fun t _ => ?_
  refine passes_bind (passes_spanFrom hP (List.forall_mem_singleton.mp hstart)) fun span hspan => ?_
  exact passes_pure hspan

theorem passes_metadataEntry : Passes P MetadataEntry.spans metadataEntry := by
  refine passes_bind (passes_accept _ _) fun key hkey => ?_
  refine passes_bind (passes_behind .colon (passes_scalar hP _ _)) fun value hvalue => ?_
  refine passes_bind (passes_spanFrom hP (List.forall_mem_singleton.mp hkey)) fun span hspan => ?_
  refine passes_pure ?_
  rw [MetadataEntry.spans, List.forall_mem_cons]
  exact ⟨List.forall_mem_singleton.mp hspan, hvalue⟩

theorem passes_metadata : Passes P Metadata.spans Reader.metadata := by
  refine passes_bind passes_current fun start hstart => passes_bind (passes_eat _) fun b _ => ?_
  have hclose (entries : List MetadataEntry) (he : ∀ x ∈ entries.flatMap MetadataEntry.spans, P x) :
      Passes P Metadata.spans
        (do let _ ← mark .rightParen; return ⟨entries, some (← spanFrom start.span)⟩) := by
    refine passes_bind (passes_accept _ _) fun _ _ => ?_
    have hfrom := passes_spanFrom hP (List.forall_mem_singleton.mp hstart)
    refine passes_bind hfrom fun span hspan => passes_pure ?_
    rw [Metadata.spans, List.forall_mem_append]
    exact ⟨hspan, he⟩
  refine passes_ite (passes_bind passes_kind fun k _ => ?_) (passes_pure (by simp [Metadata.spans]))
  refine passes_ite (passes_bind (passes_pure (by simp)) hclose) ?_
  exact passes_bind (passes_row₁ (passes_metadataEntry hP) .comma) hclose

theorem passes_fieldBehind {t : Token} (ht : P t.span) :
    Passes P FieldDecl.spans (fieldBehind t) := by
  refine passes_bind (passes_accept _ _) fun _ _ => ?_
  refine passes_bind (passes_type hP) fun type htype => ?_
  refine passes_bind (passes_behind .equal (passes_scalar hP _ _)) fun default hdefault => ?_
  refine passes_bind (passes_metadata hP) fun metadata hmetadata => ?_
  refine passes_bind (passes_accept _ _) fun _ _ => ?_
  refine passes_bind (passes_spanFrom hP ht) fun span hspan => passes_pure ?_
  simp only [FieldDecl.spans, List.cons_append, List.forall_mem_cons, List.forall_mem_append]
  have hname : ∀ x ∈ Spelling.spans ⟨t.lexeme, t.span⟩, P x := List.forall_mem_singleton.mpr ht
  exact ⟨List.forall_mem_singleton.mp hspan, ⟨⟨hname, htype⟩, hdefault⟩, hmetadata⟩

theorem passes_fields : Passes P (List.flatMap FieldDecl.spans) fields := by
  refine passes_items ?_ _ _
  intro t r ht hr
  unfold field? at hr
  split at hr
  · cases hr
    exact passes_fieldBehind hP ht
  · cases hr

theorem passes_enumValue : Passes P EnumValue.spans enumValue := by
  refine passes_bind (passes_dotted hP _) fun valueName hname => ?_
  refine passes_bind (passes_behind .equal (passes_scalar hP _ _)) fun value _ => ?_
  refine passes_bind (passes_spanFrom hP (List.forall_mem_singleton.mp hname)) fun span hspan => ?_
  exact passes_pure hspan

theorem passes_directive (kind : Directive) {start : Span} (h : P start) {value : Reader String}
    (hvalue : Passes P noSpans value) :
    Passes P Declaration.spans (directive kind start value) := by
  refine passes_bind hvalue fun text _ => passes_bind (passes_accept _ _) fun _ _ => ?_
  exact passes_bind (passes_spanFrom hP h) fun span hspan => passes_pure hspan

omit hP in
theorem passes_string (expected : String) : Passes P noSpans (string expected) :=
  passes_map (passes_accept _ _) (by simp [noSpans])

omit hP in
theorem passes_attributeName : Passes P noSpans attributeName :=
  passes_bind passes_kind fun _ _ =>
    passes_ite (passes_map passes_next (by simp [noSpans]))
      (passes_map (passes_accept _ _) (by simp [noSpans]))

theorem passes_path (expected : String) : Passes P noSpans (Spelling.text <$> dotted expected) :=
  passes_map (passes_dotted hP expected) (by simp [noSpans])

theorem passes_typeDecl (kind : TypeKind) {start : Span} (h : P start) :
    Passes P Declaration.spans (typeDecl kind start) := by
  refine passes_bind (passes_accept _ _) fun typeName _ => ?_
  refine passes_bind (passes_metadata hP) fun metadata hmetadata => ?_
  refine passes_bind (passes_accept _ _) fun _ _ => ?_
  refine passes_bind (passes_fields hP) fun fields hfields => ?_
  refine passes_bind (passes_accept _ _) fun _ _ => ?_
  refine passes_bind (passes_spanFrom hP h) fun span hspan => passes_pure ?_
  simp only [Declaration.spans, TypeDecl.spans, List.cons_append, List.forall_mem_cons,
    List.forall_mem_append]
  exact ⟨List.forall_mem_singleton.mp hspan, hmetadata, hfields⟩

theorem passes_enumDecl (kind : EnumKind) {start : Span} (h : P start) :
    Passes P Declaration.spans (enumDecl kind start) := by
  refine passes_bind (passes_accept _ _) fun enumName _ => ?_
  refine passes_bind (passes_behind .colon (passes_type hP)) fun underlying _ => ?_
  refine passes_bind (passes_metadata hP) fun metadata hmetadata => ?_
  refine passes_bind (passes_accept _ _) fun _ _ => ?_
  refine passes_bind (passes_row (passes_enumValue hP) _ _) fun values hvalues => ?_
  refine passes_bind (passes_accept _ _) fun _ _ => ?_
  refine passes_bind (passes_spanFrom hP h) fun span hspan => passes_pure ?_
  simp only [Declaration.spans, EnumDecl.spans, List.cons_append, List.forall_mem_cons,
    List.forall_mem_append]
  exact ⟨List.forall_mem_singleton.mp hspan, hmetadata, hvalues⟩

omit hP in
theorem passes_block : Passes P noSpans block := by
  refine passes_bind passes_upcoming fun tokens _ => ?_
  cases Stream.untilClosed 1 tokens with
  | some n => exact passes_skip n
  | none => exact passes_bind (passes_skip _) fun _ _ => passes_fail _

theorem passes_service {start : Span} (h : P start) :
    Passes P Declaration.spans (service start) := by
  refine passes_bind (passes_accept _ _) fun serviceName _ => ?_
  refine passes_bind (passes_accept _ _) fun _ _ => passes_bind passes_block fun _ _ => ?_
  refine passes_bind (passes_spanFrom hP h) fun span hspan => ?_
  exact passes_bind (passes_report hspan) fun _ _ => passes_pure hspan

theorem passes_declaration? {t : Token} {r : Reader Declaration} (ht : P t.span)
    (hr : declaration? t = some r) : Passes P Declaration.spans r := by
  unfold declaration? at hr
  split at hr
  · next k hk =>
    unfold production? at hr
    split at hr
    · cases hr; exact passes_directive hP _ ht (passes_path hP _)
    · cases hr; exact passes_directive hP _ ht (passes_string _)
    · cases hr; exact passes_directive hP _ ht passes_attributeName
    · cases hr; exact passes_typeDecl hP _ ht
    · cases hr; exact passes_typeDecl hP _ ht
    · cases hr; exact passes_enumDecl hP _ ht
    · cases hr; exact passes_enumDecl hP _ ht
    · cases hr; exact passes_directive hP _ ht (passes_path hP _)
    · cases hr; exact passes_directive hP _ ht (passes_string _)
    · cases hr; exact passes_directive hP _ ht (passes_string _)
    · cases hr; exact passes_service hP ht
    · cases hr
    · cases hr
  · cases hr

end Productions

end Reader

/-! ### Files -/

/-- All spans in a schema and in the reports. -/
def Parsed.spans (p : Parsed) : List Span :=
  p.schema.spans ++ p.diagnostics.flatMap Diagnostic.spans

theorem Stream.spans_ofTokens_subset {tokens : List Token} (h : ∃ t ∈ tokens, t.kind = .eof) :
    (ofTokens tokens).spans ⊆ tokens.map Token.span := by
  have hbody : body tokens ⊆ tokens := (List.takeWhile_prefix _).subset
  have hend : endOf tokens ∈ tokens := by
    cases hfind : tokens.find? (·.kind == .eof) with
    | none =>
      obtain ⟨t, ht, hkind⟩ := h
      exact absurd (by simp [hkind]) (List.find?_eq_none.mp hfind t ht)
    | some t =>
      rw [endOf, hfind]
      exact List.mem_of_find?_eq_some hfind
  have hprevious : (ofTokens tokens).previous ∈ tokens := by
    rw [ofTokens]
    cases hb : body tokens with
    | nil => exact hend
    | cons t r => exact hbody (by simp [hb])
  intro x hx
  simp only [spans, List.mem_cons, List.mem_map] at hx ⊢
  rcases hx with rfl | rfl | ⟨t, ht, rfl⟩
  · exact ⟨_, hprevious, rfl⟩
  · exact ⟨_, hend, rfl⟩
  · exact ⟨t, hbody ht, rfl⟩

/-- What holds of the spans of all tokens and is kept by merging holds of all spans in what is read
    of the tokens, whatever is reported. -/
theorem Parsed.forall_mem_spans {P : Span → Prop} (hP : ∀ a b, P a → P b → P (a.merge b))
    {tokens : List Token} (heof : ∃ t ∈ tokens, t.kind = .eof) (h : ∀ t ∈ tokens, P t.span) :
    ∀ x ∈ (ofTokens tokens).spans, P x := by
  have hstart : ∀ x ∈ (Stream.ofTokens tokens).spans, P x := by
    intro x hx
    obtain ⟨t, ht, rfl⟩ := List.mem_map.mp (Stream.spans_ofTokens_subset heof hx)
    exact h t ht
  have hitems := Reader.passes_itemsFrom (fun t r => Reader.passes_declaration? hP) "declaration"
    Reader.declarationResumption hstart
  rw [Reader.Items.spans, List.forall_mem_append] at hitems
  have hrest := (Reader.ahead_itemsFrom Reader.declaration? "declaration"
    Reader.declarationResumption (Stream.ofTokens tokens)).spans_subset
      (Stream.span_current_mem _)
  rw [spans, Schema.spans, List.cons_append, List.forall_mem_cons, List.forall_mem_append]
  exact ⟨hP _ _ (hstart _ (Stream.span_current_mem _)) (hstart _ hrest), hitems⟩

end FlatSchema
