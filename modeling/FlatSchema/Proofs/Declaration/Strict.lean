import FlatSchema.Declaration.Production

/-!
What happens where reading fails. Most readers report nothing: such a reader gives a value, or it
stops before a token and refuses it, and it is left to others to report that token and to go on.

        hp: int = 5;        gives a field
        hp: int = ;         stops before the semicolon and refuses it
                  ┴

Only rows with recovery and services report something themselves.
-/

namespace FlatSchema

variable {α β : Type}

/-- Nothing is reported, and a token that is refused is the one that comes next. -/
structure Outcome.Strict (o : Outcome α) : Prop where
  silent : o.reports = []
  refused : ∀ f, o.result = .error f → f.found = o.rest.current

namespace Reader

/-- A reader that reports nothing and refuses only the token it stops at. -/
def Strict (r : Reader α) : Prop := ∀ s, (r.read s).Strict

variable {r : Reader α}

/-! ### Steps -/

theorem strict_of_read (f : Stream → α) (g : Stream → Stream)
    (h : ∀ s, r.read s = ⟨.ok (f s), g s, []⟩) : r.Strict := by
  intro s
  rw [h s]
  exact ⟨rfl, fun _ hf => by cases hf⟩

theorem strict_pure (a : α) : (pure a : Reader α).Strict := strict_of_read _ _ fun _ => rfl

theorem strict_bind {k : α → Reader β} (hr : r.Strict) (hk : ∀ a, (k a).Strict) :
    (r >>= k).Strict := by
  intro s
  show ((r.read s).andThen fun a t => (k a).read t).Strict
  obtain ⟨hsilent, hrefused⟩ := hr s
  cases hread : r.read s with
  | mk result t reports =>
    rw [hread] at hsilent hrefused
    obtain rfl : reports = [] := hsilent
    cases result with
    | error f => exact ⟨rfl, fun _ h => hrefused _ (by cases h; rfl)⟩
    | ok a => exact hk a t

theorem strict_map (hr : r.Strict) (f : α → β) : (f <$> r).Strict :=
  strict_bind hr fun _ => strict_pure _

theorem strict_ite (c : Prop) [Decidable c] {q : Reader α} (hr : r.Strict) (hq : q.Strict) :
    (if c then r else q).Strict := by
  split
  · exact hr
  · exact hq

theorem strict_kind : kind.Strict := strict_of_read _ _ fun _ => rfl

theorem strict_current : current.Strict := strict_of_read _ _ fun _ => rfl

theorem strict_upcoming : upcoming.Strict := strict_of_read _ _ fun _ => rfl

theorem strict_skip (n : Nat) : (skip n).Strict := strict_of_read _ _ fun _ => rfl

theorem strict_next : next.Strict := strict_of_read _ _ fun _ => rfl

theorem strict_spanFrom (start : Span) : (spanFrom start).Strict := strict_of_read _ _ fun _ => rfl

theorem strict_fail (expected : String) : (fail expected : Reader α).Strict :=
  fun _ => ⟨rfl, fun _ h => by cases h; rfl⟩

theorem strict_accept (welcome : TokenKind → Bool) (expected : String) :
    (accept welcome expected).Strict :=
  strict_bind strict_kind fun _ => strict_ite _ strict_next (strict_fail expected)

theorem strict_mark (m : Mark) : (mark m).Strict := strict_accept _ _

theorem strict_name (expected : String) : (name expected).Strict := strict_accept _ _

theorem strict_eat (m : Mark) : (eat m).Strict :=
  strict_bind strict_kind fun _ =>
    strict_ite _ (strict_bind strict_next fun _ => strict_pure _) (strict_pure _)

theorem strict_behind (m : Mark) (hr : r.Strict) : (behind m r).Strict :=
  strict_bind (strict_eat m) fun _ => strict_ite _ (strict_map hr _) (strict_pure _)

theorem strict_row (hr : r.Strict) (m : Mark) (closed : TokenKind → Bool) :
    (row r m closed).Strict := by
  intro s
  show (rowFrom r m closed s).Strict
  fun_induction rowFrom r m closed s with
  | case1 s hc => exact ⟨rfl, fun _ h => by cases h⟩
  | case2 s hc o f hf =>
    refine ⟨(hr s).silent, fun g h => ?_⟩
    cases h
    exact (hr s).refused f hf
  | case3 s hc o a ha hk _ tail ih =>
    refine ⟨?_, fun f h => ih.refused f ?_⟩
    · show o.reports ++ tail.reports = []
      rw [show o.reports = [] from (hr s).silent, show tail.reports = [] from ih.silent,
        List.append_nil]
    · change tail.result.map (a :: ·) = .error f at h
      show tail.result = .error f
      cases hresult : tail.result with
      | error g => rwa [hresult] at h
      | ok as =>
        rw [hresult] at h
        cases h
  | case4 s hc o a ha hk => exact ⟨(hr s).silent, fun _ h => by cases h⟩

/-! ### Productions -/

theorem strict_dotted (expected : String) : (dotted expected).Strict :=
  strict_bind strict_current fun _ =>
    strict_bind (strict_row (strict_name _) _ _) fun _ =>
      strict_bind (strict_spanFrom _) fun _ => strict_pure _

theorem strict_closings (depth : Nat) (text : String) : (closings depth text).Strict := by
  induction depth generalizing text with
  | zero => exact strict_pure _
  | succ depth ih =>
    refine strict_bind (strict_behind _ (strict_accept _ _)) fun length => ?_
    refine strict_bind (strict_mark _) fun _ => ?_
    cases length with
    | none => exact ih _
    | some n => exact ih _

theorem strict_type : Reader.type.Strict := by
  refine strict_bind strict_current fun start => strict_bind strict_upcoming fun ts => ?_
  refine strict_bind (strict_skip _) fun _ => strict_bind (strict_dotted _) fun element => ?_
  refine strict_ite _ (strict_pure _) (strict_bind (strict_closings _ _) fun text => ?_)
  exact strict_bind (strict_spanFrom _) fun _ => strict_pure _

theorem strict_scalar (expected : String) (quoting : Bool) : (scalar expected quoting).Strict := by
  have hsign : scalar.optionalSign.Strict :=
    strict_bind strict_kind fun _ =>
      strict_ite _ (strict_bind strict_next fun _ => strict_pure _) (strict_pure _)
  refine strict_bind strict_current fun start => strict_bind hsign fun sign => ?_
  refine strict_bind (strict_accept _ _) fun t => ?_
  exact strict_bind (strict_spanFrom _) fun _ => strict_pure _

theorem strict_metadata : Reader.metadata.Strict := by
  have hentry : metadataEntry.Strict :=
    strict_bind (strict_name _) fun _ =>
      strict_bind (strict_behind _ (strict_scalar _ _)) fun _ =>
        strict_bind (strict_spanFrom _) fun _ => strict_pure _
  have hclose (start : Span) (entries : List MetadataEntry) : Strict
      (do let _ ← mark .rightParen; return (⟨entries, some (← spanFrom start)⟩ : Metadata)) :=
    strict_bind (strict_mark _) fun _ => strict_bind (strict_spanFrom _) fun _ => strict_pure _
  refine strict_bind strict_current fun start => strict_bind (strict_eat _) fun b => ?_
  refine strict_ite _ (strict_bind strict_kind fun k => ?_) (strict_pure _)
  refine strict_ite _ (strict_bind (strict_pure _) (hclose _)) ?_
  exact strict_bind (strict_row hentry _ _) (hclose _)

theorem strict_field? (t : Token) : ∀ r ∈ field? t, r.Strict := by
  intro r hr
  simp only [field?, Option.mem_def, Option.ite_none_right_eq_some, Option.some.injEq] at hr
  obtain ⟨-, rfl⟩ := hr
  refine strict_bind (strict_mark _) fun _ => strict_bind strict_type fun type => ?_
  refine strict_bind (strict_behind _ (strict_scalar _ _)) fun default => ?_
  refine strict_bind strict_metadata fun metadata => strict_bind (strict_mark _) fun _ => ?_
  exact strict_bind (strict_spanFrom _) fun _ => strict_pure _

theorem strict_directive (kind : Directive) (start : Span) {value : Reader String}
    (hvalue : value.Strict) : (directive kind start value).Strict :=
  strict_bind hvalue fun _ => strict_bind (strict_mark _) fun _ =>
    strict_bind (strict_spanFrom _) fun _ => strict_pure _

theorem strict_path (expected : String) : (Spelling.text <$> dotted expected).Strict :=
  strict_map (strict_dotted expected) _

theorem strict_string (expected : String) : (string expected).Strict :=
  strict_map (strict_accept _ _) _

theorem strict_attributeName : attributeName.Strict :=
  strict_bind strict_kind fun _ =>
    strict_ite _ (strict_map strict_next _) (strict_map (strict_name _) _)

theorem strict_enumDecl (kind : EnumKind) (start : Span) : (enumDecl kind start).Strict := by
  have hvalue : enumValue.Strict :=
    strict_bind (strict_dotted _) fun _ =>
      strict_bind (strict_behind _ (strict_scalar _ _)) fun _ =>
        strict_bind (strict_spanFrom _) fun _ => strict_pure _
  refine strict_bind (strict_name _) fun enumName => ?_
  refine strict_bind (strict_behind _ strict_type) fun underlying => ?_
  refine strict_bind strict_metadata fun metadata => strict_bind (strict_mark _) fun _ => ?_
  refine strict_bind (strict_row hvalue _ _) fun values => strict_bind (strict_mark _) fun _ => ?_
  exact strict_bind (strict_spanFrom _) fun _ => strict_pure _

theorem strict_block : block.Strict := by
  refine strict_bind strict_upcoming fun ts => ?_
  cases Stream.untilClosed 1 ts with
  | some n => exact strict_skip n
  | none => exact strict_bind (strict_skip _) fun _ => strict_fail _

/-! ### Refusals -/

/-- A reader that refuses only the token it stops at, whatever it reports on the way. -/
def Refusing (r : Reader α) : Prop :=
  ∀ s f, (r.read s).result = .error f → f.found = (r.read s).rest.current

theorem Strict.refusing (h : r.Strict) : r.Refusing := fun s => (h s).refused

theorem refusing_of_read (f : Stream → α) (g : Stream → Stream) (ds : Stream → List Diagnostic)
    (h : ∀ s, r.read s = ⟨.ok (f s), g s, ds s⟩) : r.Refusing := by
  intro s f hf
  rw [h s] at hf
  cases hf

theorem refusing_bind {k : α → Reader β} (hr : r.Refusing) (hk : ∀ a, (k a).Refusing) :
    (r >>= k).Refusing := by
  intro s f hf
  have hbind : (r >>= k).read s = (r.read s).andThen fun a t => (k a).read t := rfl
  have hfirst := hr s
  rw [hbind] at hf ⊢
  cases hread : r.read s with
  | mk result t reports =>
    rw [hread] at hf hfirst
    cases result with
    | error g =>
      cases hf
      exact hfirst f rfl
    | ok a => exact hk a t f hf

theorem refusing_typeDecl (kind : TypeKind) (start : Span) : (typeDecl kind start).Refusing := by
  refine refusing_bind (strict_name _).refusing fun typeName => ?_
  refine refusing_bind strict_metadata.refusing fun metadata => ?_
  refine refusing_bind (strict_mark _).refusing fun _ => ?_
  refine refusing_bind (refusing_of_read _ _ _ fun s => rfl) fun fields => ?_
  refine Strict.refusing (strict_bind (strict_mark _) fun _ => ?_)
  exact strict_bind (strict_spanFrom _) fun _ => strict_pure _

theorem refusing_service (start : Span) : (service start).Refusing := by
  refine refusing_bind (strict_name _).refusing fun serviceName => ?_
  refine refusing_bind (strict_mark _).refusing fun _ => ?_
  refine refusing_bind strict_block.refusing fun _ => ?_
  refine refusing_bind (strict_spanFrom _).refusing fun span => ?_
  exact refusing_bind (refusing_of_read _ _ _ fun s => rfl) fun _ => (strict_pure _).refusing

/-- A bad declaration is refused at the token before which it stops. -/
theorem refusing_declaration? (x : Token) (r : Reader Declaration) (h : declaration? x = some r) :
    r.Refusing := by
  rw [declaration?] at h
  split at h
  · next k hk =>
    cases k <;> simp only [production?, Option.some.injEq, reduceCtorEq] at h <;> subst h
    · exact (strict_directive _ _ (strict_path _)).refusing
    · exact (strict_directive _ _ (strict_string _)).refusing
    · exact (strict_directive _ _ strict_attributeName).refusing
    · exact refusing_typeDecl _ _
    · exact refusing_typeDecl _ _
    · exact (strict_enumDecl _ _).refusing
    · exact (strict_enumDecl _ _).refusing
    · exact (strict_directive _ _ (strict_path _)).refusing
    · exact (strict_directive _ _ (strict_string _)).refusing
    · exact (strict_directive _ _ (strict_string _)).refusing
    · exact refusing_service _
  · cases h

end Reader

end FlatSchema
