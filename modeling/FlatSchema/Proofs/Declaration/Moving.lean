import FlatSchema.Proofs.Declaration.Abstract
import FlatSchema.Proofs.Declaration.Completeness
import FlatSchema.Proofs.Source.Shift

/-!
Reading tokens whose places are changed. Readers look at kinds and lexemes and only pass places on,
or merge them. So if a change of spans goes along with merging, then reading the changed tokens
gives the changed result, whether reading goes well or not: each primitive reader moves, and a
reader made of readers that move does so too.

        tokens  ──read──▶  result, reports
          │ f                │ f
          ▼                  ▼
        tokens  ──read──▶  result, reports
-/

namespace FlatSchema

/-! ### Moved streams -/

namespace Stream

variable (f : Span → Span)

/-- A stream with every span changed. -/
def mapSpans (s : Stream) : Stream :=
  ⟨s.previous.mapSpan f, s.rest.map (Token.mapSpan f), s.stop.mapSpan f⟩

@[simp] theorem kind_mapSpans (s : Stream) : (s.mapSpans f).kind = s.kind := by
  rw [kind, kind, mapSpans]
  cases s.rest <;> rfl

@[simp] theorem current_mapSpans (s : Stream) : (s.mapSpans f).current = s.current.mapSpan f := by
  rw [current, current, mapSpans]
  cases s.rest <;> rfl

@[simp] theorem skip_mapSpans (n : Nat) (s : Stream) :
    (s.mapSpans f).skip n = (s.skip n).mapSpans f := by
  simp only [skip, mapSpans, ← List.map_take, ← List.map_drop, mk.injEq, and_true]
  cases h : s.rest.take n using List.reverseRecOn with
  | nil => rfl
  | append_singleton ts t _ => simp

theorem untilSemicolon_map (ts : List Token) :
    untilSemicolon (ts.map (Token.mapSpan f)) = untilSemicolon ts := by
  induction ts with
  | nil => rfl
  | cons t ts ih => rw [List.map_cons, untilSemicolon, untilSemicolon, ih]; rfl

theorem untilDeclaration_map (before : TokenKind) (ts : List Token) :
    untilDeclaration before (ts.map (Token.mapSpan f)) = untilDeclaration before ts := by
  induction ts generalizing before with
  | nil => rfl
  | cons t ts ih => rw [List.map_cons, untilDeclaration, untilDeclaration, ih]; rfl

theorem untilClosed_map (depth : Nat) (ts : List Token) :
    untilClosed depth (ts.map (Token.mapSpan f)) = untilClosed depth ts := by
  induction ts generalizing depth with
  | nil => cases depth <;> rfl
  | cons t ts ih =>
    cases depth with
    | zero => rfl
    | succ depth =>
      rw [List.map_cons, untilClosed, untilClosed]
      simp only [ih]
      rfl

theorem pastSemicolon_mapSpans (s : Stream) :
    (s.mapSpans f).pastSemicolon = s.pastSemicolon.mapSpans f := by
  rw [pastSemicolon, pastSemicolon, skip_mapSpans]
  congr 1
  congr 1
  exact untilSemicolon_map f s.rest

theorem atDeclaration_mapSpans (s : Stream) :
    (s.mapSpans f).atDeclaration = s.atDeclaration.mapSpans f := by
  rw [atDeclaration, atDeclaration]
  simp only [skip_mapSpans]
  congr 1
  congr 1
  exact untilDeclaration_map f _ _

end Stream

/-! ### Moved outcomes -/

def Fault.mapSpan (f : Span → Span) (x : Fault) : Fault := ⟨x.expected, x.found.mapSpan f⟩

theorem Fault.diagnostic_mapSpan (f : Span → Span) (x : Fault) :
    (x.mapSpan f).diagnostic = x.diagnostic.mapSpans f := rfl

/-- An outcome with every span changed; `g` changes the value. -/
def Outcome.move {α β : Type} (f : Span → Span) (g : α → β) (o : Outcome α) : Outcome β where
  result :=
    match o.result with
    | .ok a => .ok (g a)
    | .error x => .error (x.mapSpan f)
  rest := o.rest.mapSpans f
  reports := o.reports.map (Diagnostic.mapSpans f)

theorem Outcome.move_of_ok {α β : Type} {f : Span → Span} {g : α → β} {o : Outcome α} {a : α}
    (h : o.result = .ok a) :
    o.move f g = ⟨.ok (g a), o.rest.mapSpans f, o.reports.map (Diagnostic.mapSpans f)⟩ := by
  rw [move, h]

theorem Outcome.move_of_error {α β : Type} {f : Span → Span} {g : α → β} {o : Outcome α}
    {x : Fault} (h : o.result = .error x) :
    o.move f g = ⟨.error (x.mapSpan f), o.rest.mapSpans f,
      o.reports.map (Diagnostic.mapSpans f)⟩ := by
  rw [move, h]

namespace Reader

variable {α β γ δ : Type} {f : Span → Span} {g : α → β} {h : γ → δ} {r : Reader α} {r' : Reader β}

/-- Where `r` reads a stream, `r'` reads the moved stream with the moved outcome. -/
def Moves (f : Span → Span) (g : α → β) (r : Reader α) (r' : Reader β) : Prop :=
  ∀ s : Stream, r'.read (s.mapSpans f) = (r.read s).move f g

theorem moves_pure {a : α} {b : β} (hab : g a = b) : Moves f g (pure a) (pure b) := by
  subst hab
  exact fun s => rfl

theorem moves_bind {k : α → Reader γ} {k' : β → Reader δ} (hr : Moves f g r r')
    (hk : ∀ a, Moves f h (k a) (k' (g a))) : Moves f h (r >>= k) (r' >>= k') := by
  intro s
  show (r'.read _).andThen (fun b t => (k' b).read t) =
    ((r.read s).andThen fun a t => (k a).read t).move f h
  rw [hr s]
  obtain ⟨result, rest, reports⟩ := r.read s
  cases result with
  | error x => rfl
  | ok a =>
    simp only [Outcome.andThen, Outcome.move, hk a rest, List.map_append]

theorem moves_map {k : α → γ} {k' : β → δ} (hr : Moves f g r r') (hk : ∀ a, h (k a) = k' (g a)) :
    Moves f h (k <$> r) (k' <$> r') :=
  moves_bind hr fun a => moves_pure (hk a)

theorem moves_current : Moves f (Token.mapSpan f) current current := by
  intro s
  show (⟨.ok _, _, _⟩ : Outcome Token) = _
  rw [Stream.current_mapSpans]
  rfl

theorem moves_kind : Moves f id kind kind := by
  intro s
  show (⟨.ok _, _, _⟩ : Outcome TokenKind) = _
  rw [Stream.kind_mapSpans]
  rfl

theorem moves_upcoming : Moves f (List.map (Token.mapSpan f)) upcoming upcoming := fun _ => rfl

theorem moves_skip (n : Nat) : Moves f id (skip n) (skip n) := by
  intro s
  show (⟨.ok _, _, _⟩ : Outcome Unit) = _
  rw [Stream.skip_mapSpans]
  rfl

theorem moves_next : Moves f (Token.mapSpan f) next next := by
  intro s
  show (⟨.ok _, _, _⟩ : Outcome Token) = _
  rw [Stream.current_mapSpans, Stream.skip_mapSpans]
  rfl

theorem moves_fail (expected : String) : Moves f g (fail expected) (fail expected) := by
  intro s
  show (⟨.error ⟨_, _⟩, _, _⟩ : Outcome β) = _
  rw [Stream.current_mapSpans]
  rfl

theorem moves_report {d d' : Diagnostic} (hd : d.mapSpans f = d') :
    Moves f id (report d) (report d') := by
  subst hd
  exact fun s => rfl

theorem moves_ite (p : Prop) [Decidable p] {q : Reader α} {q' : Reader β} (hr : Moves f g r r')
    (hq : Moves f g q q') : Moves f g (if p then r else q) (if p then r' else q') := by
  split
  · exact hr
  · exact hq

theorem moves_accept (welcome : TokenKind → Bool) (expected : String) :
    Moves f (Token.mapSpan f) (accept welcome expected) (accept welcome expected) :=
  moves_bind moves_kind fun _ => moves_ite _ moves_next (moves_fail expected)

theorem moves_expect (k : TokenKind) (expected : String) :
    Moves f (Token.mapSpan f) (expect k expected) (expect k expected) :=
  moves_accept _ expected

theorem moves_mark (m : Mark) : Moves f (Token.mapSpan f) (mark m) (mark m) := moves_expect _ _

theorem moves_name (expected : String) :
    Moves f (Token.mapSpan f) (name expected) (name expected) := moves_accept _ expected

theorem moves_eat (m : Mark) : Moves f id (eat m) (eat m) :=
  moves_bind moves_kind fun _ =>
    moves_ite _ (moves_bind moves_next fun _ => moves_pure rfl) (moves_pure rfl)

theorem moves_behind (m : Mark) (hr : Moves f g r r') :
    Moves f (Option.map g) (behind m r) (behind m r') :=
  moves_bind (moves_eat m) fun b =>
    moves_ite (b = true) (moves_map hr fun _ => rfl) (moves_pure rfl)

/-! ### Rows -/

theorem rowFrom_mapSpans (hr : Moves f g r r') (m : Mark) (closed : TokenKind → Bool) (s : Stream) :
    rowFrom r' m closed (s.mapSpans f) = (rowFrom r m closed s).move f (List.map g) := by
  fun_induction rowFrom r m closed s with
  | case1 s hc =>
    rw [rowFrom, if_pos (by rwa [Stream.kind_mapSpans])]
    rfl
  | case2 s hc o x hx =>
    rw [rowFrom, if_neg (by rwa [Stream.kind_mapSpans])]
    simp only [(hr s).trans (Outcome.move_of_error hx)]
    rfl
  | case3 s hc o a ha hk _ tail ih =>
    rw [rowFrom, if_neg (by rwa [Stream.kind_mapSpans])]
    simp only [(hr s).trans (Outcome.move_of_ok ha), Stream.kind_mapSpans, Stream.skip_mapSpans]
    rw [dif_pos hk, ih]
    have htail : tail = rowFrom r m closed (o.rest.skip 1) := rfl
    rw [← htail]
    obtain ⟨result, rest, reports⟩ := tail
    cases result with
    | error x => simp [Outcome.move, Except.map, o]
    | ok as => simp [Outcome.move, Except.map, o]
  | case4 s hc o a ha hk =>
    rw [rowFrom, if_neg (by rwa [Stream.kind_mapSpans])]
    simp only [(hr s).trans (Outcome.move_of_ok ha), Stream.kind_mapSpans]
    rw [dif_neg hk]
    rfl

theorem moves_row (hr : Moves f g r r') (m : Mark) (closed : TokenKind → Bool) :
    Moves f (List.map g) (row r m closed) (row r' m closed) := rowFrom_mapSpans hr m closed

theorem moves_row₁ (hr : Moves f g r r') (m : Mark) :
    Moves f (List.map g) (row₁ r m) (row₁ r' m) := moves_row hr m _

/-- The items of a moved row. -/
def Items.move (f : Span → Span) (g : α → β) (o : Items α) : Items β :=
  ⟨o.items.map g, o.rest.mapSpans f, o.reports.map (Diagnostic.mapSpans f)⟩

/-- A token that chooses no reader chooses none when it is moved. -/
theorem eq_none_of_rel {o : Option (Reader α)} {o' : Option (Reader β)}
    (h : Option.Rel (Moves f g) o o') (ho : o = none) : o' = none := by
  subst ho
  cases h
  rfl

theorem exists_moves_of_rel {o : Option (Reader α)} {o' : Option (Reader β)}
    (h : Option.Rel (Moves f g) o o') (ho : o = some r) : ∃ r', o' = some r' ∧ Moves f g r r' := by
  subst ho
  cases h with
  | some hr => exact ⟨_, rfl, hr⟩

theorem itemsFrom_mapSpans {item : Token → Option (Reader α)} {item' : Token → Option (Reader β)}
    (hitem : ∀ t, Option.Rel (Moves f g) (item t) (item' (t.mapSpan f))) (expected : String)
    {closed : TokenKind → Bool} (resumption : Resumption closed)
    (hresume : ∀ s : Stream, resumption.resume (s.mapSpans f) = (resumption.resume s).mapSpans f)
    (s : Stream) :
    itemsFrom item' expected resumption (s.mapSpans f) =
      (itemsFrom item expected resumption s).move f g := by
  have htakes {s : Stream} {t : Token} {rest : List Token} (hs : s.rest = t :: rest) :
      (s.mapSpans f).Takes [t.mapSpan f] ((s.mapSpans f).skip 1) :=
    .of_cons (r := rest.map (Token.mapSpan f)) (by rw [Stream.mapSpans, hs, List.map_cons])
  fun_induction itemsFrom item expected resumption s with
  | case1 s hs => exact itemsFrom_of_closed _ _ (.inl (by rw [Stream.mapSpans, hs, List.map_nil]))
  | case2 s t _ hs hc => exact itemsFrom_of_closed _ _ (.inr (by rwa [Stream.kind_mapSpans]))
  | case3 s t _ hs hc hpos hi _ tail ih =>
    rw [itemsFrom_eq _ _ (by simpa using hc) (htakes hs), eq_none_of_rel (hitem t) hi]
    simp only [hresume, ih]
    rfl
  | case4 s t _ hs hc hpos r hi o hlt a ha tail ih =>
    obtain ⟨r', hi', hr⟩ := exists_moves_of_rel (hitem t) hi
    have hread := (hr (s.skip 1)).trans (Outcome.move_of_ok (o := o) ha)
    rw [itemsFrom_eq _ _ (by simpa using hc) (htakes hs), Stream.skip_mapSpans, hi']
    simp only [hread, ih]
    simp [Items.move, tail]
  | case5 s t _ hs hc hpos r hi o hlt x hx _ tail ih =>
    obtain ⟨r', hi', hr⟩ := exists_moves_of_rel (hitem t) hi
    have hread := (hr (s.skip 1)).trans (Outcome.move_of_error (o := o) hx)
    rw [itemsFrom_eq _ _ (by simpa using hc) (htakes hs), Stream.skip_mapSpans, hi']
    simp only [hread, hresume, ih]
    simp [Items.move, tail, Fault.diagnostic_mapSpan]

theorem moves_items {item : Token → Option (Reader α)} {item' : Token → Option (Reader β)}
    (hitem : ∀ t, Option.Rel (Moves f g) (item t) (item' (t.mapSpan f))) (expected : String)
    {closed : TokenKind → Bool} (resumption : Resumption closed)
    (hresume : ∀ s : Stream, resumption.resume (s.mapSpans f) = (resumption.resume s).mapSpans f) :
    Moves f (List.map g) (items item expected resumption) (items item' expected resumption) := by
  intro s
  show (⟨.ok _, _, _⟩ : Outcome (List β)) = _
  rw [itemsFrom_mapSpans hitem expected resumption hresume]
  rfl

/-! ### Productions -/

section Productions

variable (hf : ∀ a b : Span, f (a.merge b) = (f a).merge (f b))

include hf

theorem moves_spanFrom (start : Span) : Moves f f (spanFrom start) (spanFrom (f start)) := by
  intro s
  show (⟨.ok ((f start).merge (f s.previous.span)), _, _⟩ : Outcome Span) = _
  rw [← hf]
  rfl

theorem moves_dotted (expected : String) :
    Moves f (Spelling.mapSpans f) (dotted expected) (dotted expected) := by
  refine moves_bind moves_current fun start => ?_
  refine moves_bind (moves_row₁ (moves_name expected) .dot) fun parts => ?_
  refine moves_bind (moves_spanFrom hf start.span) fun span => moves_pure ?_
  rw [Spelling.mapSpans, List.map_map]
  rfl

omit hf in
theorem moves_closings (depth : Nat) (text : String) :
    Moves f id (closings depth text) (closings depth text) := by
  induction depth generalizing text with
  | zero => exact moves_pure rfl
  | succ depth ih =>
    refine moves_bind (moves_behind .colon (moves_expect _ _)) fun length => ?_
    refine moves_bind (moves_mark _) fun _ => ?_
    cases length with
    | none => exact ih _
    | some n => exact ih _

omit hf in
theorem openings_map (ts : List Token) : openings (ts.map (Token.mapSpan f)) = openings ts := by
  rw [openings, openings, List.takeWhile_map, List.length_map]
  rfl

theorem moves_type : Moves f (Spelling.mapSpans f) Reader.type Reader.type := by
  refine moves_bind moves_current fun start => ?_
  refine moves_bind moves_upcoming fun ts => ?_
  rw [openings_map]
  refine moves_bind (moves_skip _) fun _ => ?_
  refine moves_bind (moves_dotted hf _) fun element => moves_ite _ (moves_pure rfl) ?_
  refine moves_bind (moves_closings _ _) fun text => ?_
  exact moves_bind (moves_spanFrom hf start.span) fun span => moves_pure rfl

omit hf in
theorem moves_optionalSign : Moves f id scalar.optionalSign scalar.optionalSign := by
  refine moves_bind moves_kind fun k => moves_ite _ ?_ (moves_pure rfl)
  exact moves_bind moves_next fun t => moves_pure rfl

theorem moves_scalar (expected : String) (quoting : Bool) :
    Moves f (Spelling.mapSpans f) (scalar expected quoting) (scalar expected quoting) := by
  refine moves_bind moves_current fun start => moves_bind moves_optionalSign fun sign => ?_
  refine moves_bind (moves_accept _ _) fun t => ?_
  exact moves_bind (moves_spanFrom hf start.span) fun span => moves_pure rfl

theorem moves_metadataEntry :
    Moves f (MetadataEntry.mapSpans f) metadataEntry metadataEntry := by
  refine moves_bind (moves_name _) fun key => ?_
  refine moves_bind (moves_behind .colon (moves_scalar hf _ _)) fun value => ?_
  exact moves_bind (moves_spanFrom hf key.span) fun span => moves_pure rfl

theorem moves_metadata : Moves f (Metadata.mapSpans f) Reader.metadata Reader.metadata := by
  refine moves_bind moves_current fun start => moves_bind (moves_eat _) fun b => ?_
  have hclose (entries : List MetadataEntry) : Moves f (Metadata.mapSpans f)
      (do let _ ← mark .rightParen; return ⟨entries, some (← spanFrom start.span)⟩)
      (do
        let _ ← mark .rightParen
        return ⟨entries.map (MetadataEntry.mapSpans f), some (← spanFrom (f start.span))⟩) :=
    moves_bind (moves_mark _) fun _ => moves_bind (moves_spanFrom hf _) fun _ => moves_pure rfl
  refine moves_ite (b = true) (moves_bind moves_kind fun k => ?_) (moves_pure rfl)
  refine moves_ite _ (moves_bind (moves_pure rfl) hclose) ?_
  exact moves_bind (moves_row₁ (moves_metadataEntry hf) .comma) hclose

theorem moves_fieldBehind (t : Token) :
    Moves f (FieldDecl.mapSpans f) (fieldBehind t) (fieldBehind (t.mapSpan f)) := by
  refine moves_bind (moves_mark _) fun _ => moves_bind (moves_type hf) fun type => ?_
  refine moves_bind (moves_behind .equal (moves_scalar hf _ _)) fun default => ?_
  refine moves_bind (moves_metadata hf) fun metadata => moves_bind (moves_mark _) fun _ => ?_
  exact moves_bind (moves_spanFrom hf t.span) fun span => moves_pure rfl

theorem rel_field? (t : Token) :
    Option.Rel (Moves f (FieldDecl.mapSpans f)) (field? t) (field? (t.mapSpan f)) := by
  rw [field?, field?]
  show Option.Rel _ _ (if t.kind.isName then _ else none)
  split
  · exact .some (moves_fieldBehind hf t)
  · exact .none

theorem moves_fields : Moves f (List.map (FieldDecl.mapSpans f)) fields fields :=
  moves_items (rel_field? hf) _ _ (Stream.pastSemicolon_mapSpans f)

theorem moves_enumValue : Moves f (EnumValue.mapSpans f) enumValue enumValue := by
  refine moves_bind (moves_dotted hf _) fun valueName => ?_
  refine moves_bind (moves_behind .equal (moves_scalar hf _ _)) fun value => ?_
  refine moves_bind (moves_spanFrom hf valueName.span) fun span => moves_pure ?_
  cases value <;> rfl

theorem moves_directive (kind : Directive) (start : Span) {value : Reader String}
    (hvalue : Moves f id value value) :
    Moves f (Declaration.mapSpans f) (directive kind start value)
      (directive kind (f start) value) := by
  refine moves_bind hvalue fun text => moves_bind (moves_mark _) fun _ => ?_
  exact moves_bind (moves_spanFrom hf start) fun span => moves_pure rfl

omit hf in
theorem moves_string (expected : String) : Moves f id (string expected) (string expected) :=
  moves_map (moves_expect _ _) fun _ => rfl

omit hf in
theorem moves_attributeName : Moves f id attributeName attributeName :=
  moves_bind moves_kind fun _ =>
    moves_ite _ (moves_map moves_next fun _ => rfl) (moves_map (moves_name _) fun _ => rfl)

theorem moves_path (expected : String) :
    Moves f id (Spelling.text <$> dotted expected) (Spelling.text <$> dotted expected) :=
  moves_map (moves_dotted hf expected) fun _ => rfl

theorem moves_typeDecl (kind : TypeKind) (start : Span) :
    Moves f (Declaration.mapSpans f) (typeDecl kind start) (typeDecl kind (f start)) := by
  refine moves_bind (moves_name _) fun typeName => moves_bind (moves_metadata hf) fun metadata => ?_
  refine moves_bind (moves_mark _) fun _ => moves_bind (moves_fields hf) fun fields => ?_
  refine moves_bind (moves_mark _) fun _ => ?_
  exact moves_bind (moves_spanFrom hf start) fun span => moves_pure rfl

theorem moves_enumDecl (kind : EnumKind) (start : Span) :
    Moves f (Declaration.mapSpans f) (enumDecl kind start) (enumDecl kind (f start)) := by
  refine moves_bind (moves_name _) fun enumName => ?_
  refine moves_bind (moves_behind .colon (moves_type hf)) fun underlying => ?_
  refine moves_bind (moves_metadata hf) fun metadata => moves_bind (moves_mark _) fun _ => ?_
  refine moves_bind (moves_row (moves_enumValue hf) _ _) fun values => ?_
  refine moves_bind (moves_mark _) fun _ => ?_
  refine moves_bind (moves_spanFrom hf start) fun span => moves_pure ?_
  cases underlying <;> rfl

omit hf in
theorem moves_block : Moves f id block block := by
  refine moves_bind moves_upcoming fun ts => ?_
  rw [Stream.untilClosed_map, List.length_map]
  cases Stream.untilClosed 1 ts with
  | some n => exact moves_skip n
  | none => exact moves_bind (moves_skip _) fun _ => moves_fail _

theorem moves_service (start : Span) :
    Moves f (Declaration.mapSpans f) (service start) (service (f start)) := by
  refine moves_bind (moves_name _) fun serviceName => moves_bind (moves_mark _) fun _ => ?_
  refine moves_bind moves_block fun _ => moves_bind (moves_spanFrom hf start) fun span => ?_
  exact moves_bind (moves_report rfl) fun _ => moves_pure rfl

theorem rel_declaration? (t : Token) :
    Option.Rel (Moves f (Declaration.mapSpans f)) (declaration? t)
      (declaration? (t.mapSpan f)) := by
  have hkind : (t.mapSpan f).kind = t.kind := rfl
  rw [declaration?, declaration?, hkind]
  cases t.kind with
  | keyword k =>
    cases k
    · exact .some (moves_directive hf _ _ (moves_path hf _))
    · exact .some (moves_directive hf _ _ (moves_string _))
    · exact .some (moves_directive hf _ _ moves_attributeName)
    · exact .some (moves_typeDecl hf _ _)
    · exact .some (moves_typeDecl hf _ _)
    · exact .some (moves_enumDecl hf _ _)
    · exact .some (moves_enumDecl hf _ _)
    · exact .some (moves_directive hf _ _ (moves_path hf _))
    · exact .some (moves_directive hf _ _ (moves_string _))
    · exact .some (moves_directive hf _ _ (moves_string _))
    · exact .some (moves_service hf _)
    · exact .none
    · exact .none
  | _ => exact .none

/-- The declarations of a moved stream are the moved declarations, and so are the reports. -/
theorem declarations_mapSpans (s : Stream) :
    declarations (s.mapSpans f) = (declarations s).move f (Declaration.mapSpans f) :=
  itemsFrom_mapSpans (rel_declaration? hf) _ _ (Stream.atDeclaration_mapSpans f) s

end Productions

end Reader

end FlatSchema
