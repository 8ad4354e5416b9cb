import FlatSchema.Proofs.Declaration.Resumption
import FlatSchema.Proofs.Declaration.Soundness
import FlatSchema.Proofs.Declaration.Strict

/-!
What is read of a text with mistakes in it. Every declaration that comes of it is a derivation, and
so is every field; only a row of fields and the row of declarations may have tokens between their
items that belong to none, where something was given up.

        table A { hp: int; hp int; mp: int; } ? enum E { Red }
                           └lost─┘            └lost

Only rows with recovery report errors and go on. Whatever else gives a value has reported none, so
that it is a phrase.
-/

namespace FlatSchema

namespace Grammar

/-- Items in order among tokens that belong to none. -/
inductive Scattered {α : Type} (Item : List Token → α → Prop) : List Token → List α → Prop where
  | done (lost : List Token) : Scattered Item lost []
  | item (lost : List Token) {ts rest : List Token} {a : α} {as : List α} :
      Item ts a → Scattered Item rest as → Scattered Item (lost ++ ts ++ rest) (a :: as)

theorem Scattered.behind {α : Type} {Item : List Token → α → Prop} {ts : List Token} {as : List α}
    (lost : List Token) (h : Scattered Item ts as) : Scattered Item (lost ++ ts) as := by
  cases h with
  | done more => exact .done _
  | item more ha has =>
    have hitem := Scattered.item (lost ++ more) ha has
    rwa [List.append_assoc lost, List.append_assoc lost] at hitem

/-- Each item has its tokens next to each other. -/
theorem Scattered.exists_infix {α : Type} {Item : List Token → α → Prop} {ts : List Token}
    {as : List α} {a : α} (h : Scattered Item ts as) (ha : a ∈ as) :
    ∃ row, row <:+: ts ∧ Item row a := by
  induction h with
  | done => cases ha
  | @item lost row rest b as hb _ ih =>
    rcases List.mem_cons.mp ha with rfl | ha
    · exact ⟨row, ⟨lost, rest, rfl⟩, hb⟩
    · obtain ⟨row', hrow', hitem⟩ := ih ha
      exact ⟨row', hrow'.trans (List.suffix_append _ _).isInfix, hitem⟩

/-- A declaration, in which fields may be given up. -/
inductive Recovered : List Token → Declaration → Prop where
  | whole {ts : List Token} {d : Declaration} : Declared ts d → Recovered ts d
  | type {kind : TypeKind} {word name l r : Token} {metadataTokens fieldTokens ts : List Token}
      {metadata : Metadata} {fields : List FieldDecl} :
      word.kind = .keyword (typeWord kind) → IsName name.kind →
      Attributes metadataTokens metadata → l.kind = .mark .leftBrace →
      Scattered Field fieldTokens fields → r.kind = .mark .rightBrace →
      ts = word :: name :: (metadataTokens ++ l :: (fieldTokens ++ [r])) →
      Recovered ts (.type ⟨kind, name.lexeme, metadata, fields, covering ts⟩)

end Grammar

open Grammar

/-- Moving ahead takes tokens. -/
theorem Stream.Ahead.exists_takes {s t : Stream} (h : s.Ahead t) : ∃ ts, s.Takes ts t := by
  obtain ⟨n, rfl⟩ := h
  refine ⟨s.rest.take n, (List.take_append_drop n s.rest).symm, ?_, rfl⟩
  rw [skip, List.getLastD_eq_getLast?]

namespace Reader

variable {α β : Type} {r : Reader α} {P : List Token → α → Prop}

/-! ### Readers that report no errors -/

/-- A reader that reports no errors, whatever it reads. Its fault is not a report. -/
def Quiet (r : Reader α) : Prop := ∀ s, ∀ d ∈ (r.read s).reports, d.isError = false

/-- Reading `s` gives `a` and leaves `t`, whatever is reported. -/
def Gives (r : Reader α) (s : Stream) (a : α) (t : Stream) : Prop :=
  ∃ reports, r.read s = ⟨.ok a, t, reports⟩

theorem Quiet.yields (h : r.Quiet) {s t : Stream} {a : α} (hr : r.Gives s a t) :
    r.Yields s a t := by
  obtain ⟨reports, hr⟩ := hr
  refine ⟨reports, hr, ?_⟩
  have hquiet := h s
  rwa [hr] at hquiet

theorem gives_bind {k : α → Reader β} {s u : Stream} {b : β} (h : (r >>= k).Gives s b u) :
    ∃ a t, r.Gives s a t ∧ (k a).Gives t b u := by
  obtain ⟨reports, h⟩ := h
  change (r.read s).andThen (fun a t => (k a).read t) = _ at h
  cases hr : r.read s with
  | mk result t r₁ =>
    rw [hr] at h
    cases result with
    | error f => simp [Outcome.andThen] at h
    | ok a =>
      simp only [Outcome.andThen, Outcome.mk.injEq] at h
      obtain ⟨hb, hu, -⟩ := h
      exact ⟨a, t, ⟨r₁, hr⟩, ((k a).read t).reports, by rw [← hb, ← hu]⟩

theorem Strict.quiet (h : r.Strict) : r.Quiet := by
  intro s d hd
  rw [(h s).silent] at hd
  cases hd

theorem quiet_bind {k : α → Reader β} (hr : r.Quiet) (hk : ∀ a, (k a).Quiet) :
    (r >>= k).Quiet := by
  intro s d hd
  change d ∈ ((r.read s).andThen fun a t => (k a).read t).reports at hd
  have hfirst := hr s
  cases hread : r.read s with
  | mk result t reports =>
    rw [hread] at hd hfirst
    cases result with
    | error f => exact hfirst d hd
    | ok a => exact (List.mem_append.mp hd).elim (hfirst d) (hk a t d)

theorem quiet_report {d : Diagnostic} (h : d.isError = false) : (report d).Quiet := by
  intro s d' hd
  obtain rfl := List.mem_singleton.mp hd
  exact h

theorem quiet_service (start : Span) : (service start).Quiet := by
  refine quiet_bind (strict_name _).quiet fun serviceName => ?_
  refine quiet_bind (strict_mark _).quiet fun _ => quiet_bind strict_block.quiet fun _ => ?_
  refine quiet_bind (strict_spanFrom _).quiet fun span => ?_
  exact quiet_bind (quiet_report rfl) fun _ => (strict_pure _).quiet

/-! ### Rows with recovery -/

/-- Whatever a reader reads behind the token `x` is a phrase that begins with `x`. -/
def GivesBehind (r : Reader α) (x : Token) (P : List Token → α → Prop) : Prop :=
  ∀ ⦃s t : Stream⦄ ⦃a u⦄, s.Signed → s.Takes [x] t → r.Gives t a u →
    ∃ ts, s.Takes (x :: ts) u ∧ P (x :: ts) a

theorem Quiet.givesBehind {x : Token} (hquiet : r.Quiet) (h : r.SoundBehind x P) :
    r.GivesBehind x P :=
  fun _ _ _ _ hs hst hr => h hs hst (hquiet.yields hr)

/-- A row with recovery is a row of phrases, with lost tokens where it was resumed. -/
theorem scattered_itemsFrom {item : Token → Option (Reader α)} (expected : String)
    {closed : TokenKind → Bool} (resumption : Resumption closed)
    (h : ∀ x r, item x = some r → r.GivesBehind x P) {s : Stream} (hs : s.Signed) :
    ∃ ts, s.Takes ts (itemsFrom item expected resumption s).rest ∧
      Scattered P ts (itemsFrom item expected resumption s).items ∧
      ((∀ k, closed k = false) → (itemsFrom item expected resumption s).rest.rest = []) := by
  fun_induction itemsFrom item expected resumption s with
  | case1 s hr => exact ⟨[], .nil _, .done _, fun _ => hr⟩
  | case2 s x _ hr hc => exact ⟨[], .nil _, .done _, fun hn => by simp [hn] at hc⟩
  | case3 s x _ hr hc hpos hi _ tail ih =>
    -- No item begins here; what is passed over is lost.
    obtain ⟨lost, hlost⟩ := (resumption.ahead s).exists_takes
    obtain ⟨ts, hts, hscattered, hend⟩ := ih (hlost.signed hs)
    exact ⟨lost ++ ts, hlost.trans hts, hscattered.behind lost, hend⟩
  | case4 s x _ hr hc hpos r hi o hlt a ha tail ih =>
    obtain ⟨ts, hts, hP⟩ := h x r hi hs (.of_cons hr) ⟨o.reports, by rw [← ha]⟩
    obtain ⟨more, hmore, hscattered, hend⟩ := ih (hts.signed hs)
    exact ⟨[] ++ (x :: ts) ++ more, hts.trans hmore, .item [] hP hscattered, hend⟩
  | case5 s x _ hr hc hpos r hi o hlt f hf _ tail ih =>
    -- The item was given up; what was read of it is lost, and what is passed over behind it.
    have hahead := (s.ahead_skip 1).trans ((r.ahead _).trans (resumption.ahead o.rest))
    obtain ⟨lost, hlost⟩ := hahead.exists_takes
    obtain ⟨ts, hts, hscattered, hend⟩ := ih (hlost.signed hs)
    exact ⟨lost ++ ts, hlost.trans hts, hscattered.behind lost, hend⟩

theorem recovered_typeDecl {kind : TypeKind} {x : Token}
    (hx : x.kind = .keyword (typeWord kind)) : (typeDecl kind x.span).GivesBehind x Recovered := by
  intro s t d u hs hst h
  obtain ⟨name, t₁, hname, h⟩ := gives_bind h
  obtain ⟨metadata, t₂, hmetadata, h⟩ := gives_bind h
  obtain ⟨l, t₃, hl, h⟩ := gives_bind h
  obtain ⟨fs, t₄, ⟨reports, hfields⟩, h⟩ := gives_bind h
  obtain ⟨r, t₅, hclosing, h⟩ := gives_bind h
  obtain ⟨span, t₆, hspan, h⟩ := gives_bind h
  -- All but the fields is read by readers that report no errors, as if nothing were wrong.
  obtain ⟨hname, h₁⟩ := yields_name.mp ((strict_name _).quiet.yields hname)
  obtain ⟨hl, h₃⟩ := yields_mark.mp ((strict_mark _).quiet.yields hl)
  obtain ⟨hr, h₅⟩ := yields_mark.mp ((strict_mark _).quiet.yields hclosing)
  obtain ⟨rfl, rfl⟩ := yields_spanFrom.mp ((strict_spanFrom _).quiet.yields hspan)
  obtain ⟨rfl, rfl⟩ := yields_pure.mp ((strict_pure _).quiet.yields h)
  have h₁ := hst.trans h₁
  obtain ⟨ms, hms, hmetadata⟩ :=
    sound_metadata (h₁.signed hs) (strict_metadata.quiet.yields hmetadata)
  have h₃ := (h₁.trans hms).trans h₃
  have hfield (y : Token) (r : Reader FieldDecl) (hy : field? y = some r) : r.GivesBehind y Field :=
    (strict_field? y r hy).quiet.givesBehind (sound_field? y r hy)
  obtain ⟨ts, hts, hscattered, -⟩ :=
    scattered_itemsFrom "field name" fieldResumption hfield (h₃.signed hs)
  simp only [fields, items, Outcome.mk.injEq, Except.ok.injEq] at hfields
  obtain ⟨rfl, rfl, -⟩ := hfields
  have hall : s.Takes (x :: name :: (ms ++ l :: (ts ++ [r]))) t₅ := by
    simpa using (h₃.trans hts).trans h₅
  refine ⟨_, hall, ?_⟩
  rw [hall.merge_span]
  exact .type hx hname hmetadata hl hscattered hr rfl

theorem recovered_declaration? (x : Token) (r : Reader Declaration) (h : declaration? x = some r) :
    r.GivesBehind x Recovered := by
  have hwhole (hquiet : r.Quiet) : r.GivesBehind x Recovered :=
    hquiet.givesBehind fun s t a u hs hst hy =>
      (sound_declaration? x r h hs hst hy).imp fun _ h => ⟨h.1, .whole h.2⟩
  rw [declaration?] at h
  split at h
  · next k hk =>
    cases k <;> simp only [production?, Option.some.injEq, reduceCtorEq] at h <;> subst h
    · exact hwhole (strict_directive _ _ (strict_path _)).quiet
    · exact hwhole (strict_directive _ _ (strict_string _)).quiet
    · exact hwhole (strict_directive _ _ strict_attributeName).quiet
    · exact recovered_typeDecl hk
    · exact recovered_typeDecl hk
    · exact hwhole (strict_enumDecl _ _).quiet
    · exact hwhole (strict_enumDecl _ _).quiet
    · exact hwhole (strict_directive _ _ (strict_path _)).quiet
    · exact hwhole (strict_directive _ _ (strict_string _)).quiet
    · exact hwhole (strict_directive _ _ (strict_string _)).quiet
    · exact hwhole (quiet_service _)
  · cases h

end Reader

/-! ### Files -/

/-- The declarations of tokens are derivations in order, among tokens that were given up, and all
    tokens up to the end are read. -/
theorem Parsed.scattered_ofTokens {tokens : List Token}
    (hsign : ∀ t ∈ tokens, IsSign t.kind → t.lexeme ≠ "") :
    Scattered Recovered (Stream.body tokens) (ofTokens tokens).schema.declarations ∧
      (ofTokens tokens).schema.span = covering (Stream.body tokens ++ [Stream.endOf tokens]) := by
  obtain ⟨ts, hts, hscattered, hend⟩ := Reader.scattered_itemsFrom "declaration"
    Reader.declarationResumption Reader.recovered_declaration? (Stream.signed_ofTokens hsign)
  have hrest := hend fun _ => rfl
  have hbody : Stream.body tokens = ts := by
    have htaken := hts.rest
    rwa [hrest, List.append_nil] at htaken
  have hstop : (Reader.declarations (.ofTokens tokens)).rest.current = Stream.endOf tokens := by
    rw [Stream.current]
    exact (congrArg (List.headD · _) hrest).trans hts.stop
  have hstart : (Stream.ofTokens tokens).current =
      (Stream.body tokens ++ [Stream.endOf tokens]).headD default := by
    rw [Stream.current, Stream.ofTokens]
    cases Stream.body tokens <;> rfl
  refine ⟨hbody ▸ hscattered, ?_⟩
  show (Stream.ofTokens tokens).current.span.merge
    (Reader.declarations (.ofTokens tokens)).rest.current.span = _
  rw [hstop, hstart, covering, getLastD_append]
  rfl

end FlatSchema
