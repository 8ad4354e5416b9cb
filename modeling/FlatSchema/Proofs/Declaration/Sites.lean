import FlatSchema.Proofs.Declaration.Nesting
import Mathlib.Data.List.Nodup

/-!
Where reports come from. Every report comes from a token of its own, in the order of the tokens: an
error is at the token that was refused, and before anything else is reported reading has moved over
that token. Only the end of the file cannot be moved over; a field that ends there is one error, and
the table that misses its brace there is another one.

        table A { hp int; mp: }     table B { xp:
                     ╵        ╵                  ╵╵

A warning comes from the token that its span starts at.
-/

namespace FlatSchema

open Grammar

/-! ### Reports of tokens -/

/-- A report that comes from one token: it starts there, and an error is at that token. -/
inductive Diagnostic.From : List Token → Diagnostic → Prop where
  | token {t : Token} {d : Diagnostic} {span : Span} : d.span = some span →
      span.start = t.span.start → (d.isError = true → span = t.span) → From [t] d

theorem Fault.from_found (f : Fault) : f.diagnostic.From [f.found] := .token rfl rfl fun _ => rfl

/-- Reports that come from different tokens in order are reports of a row of these tokens. -/
theorem Grammar.Among.exists_tokens {ts : List Token} {ds : List Diagnostic}
    (h : Among Diagnostic.From ts ds) :
    ∃ us, us.Sublist ts ∧ List.Forall₂ (fun t d => d.From [t]) us ds := by
  obtain ⟨rows, hrows, hflat⟩ := h
  refine ⟨rows.flatten, hflat, ?_⟩
  clear hflat
  induction hrows with
  | nil => exact .nil
  | cons hd _ ih =>
    obtain ⟨hspan, hstart, herror⟩ := hd
    exact .cons (.token hspan hstart herror) ih

/-! ### Readers -/

/-- Tokens in order, and no end among them. -/
structure Stream.Orderly (s : Stream) : Prop where
  ordered : s.rest.Pairwise fun a b => a.span.start.offset ≤ b.span.start.offset
  body : ∀ t ∈ s.rest, t.kind ≠ .eof

theorem Stream.Orderly.rest_eq_nil {s : Stream} (h : s.Orderly) (hk : s.kind = .eof) :
    s.rest = [] := by
  cases hr : s.rest with
  | nil => rfl
  | cons x rest => exact absurd (by simpa [kind, hr] using hk) (h.body x (by simp [hr]))

/-- The token read last does not start before the first one that was taken. -/
theorem Stream.Orderly.start_le_previous {s t : Stream} {x : Token} {ts : List Token}
    (h : s.Orderly) (hst : s.Takes (x :: ts) t) :
    x.span.start.offset ≤ t.previous.span.start.offset := by
  have hordered := h.ordered
  rw [hst.rest, List.cons_append] at hordered
  rw [hst.previous, List.getLastD_cons]
  obtain rfl | ⟨init, y, rfl⟩ := ts.eq_nil_or_concat'
  · exact Nat.le_refl _
  · rw [List.getLastD_concat]
    exact (List.pairwise_cons.mp hordered).1 y (by simp)

/-- The end of the stream, `n` times, if nothing else is left of it. -/
def Stream.ends (n : Nat) (s : Stream) : List Token :=
  if s.rest = [] then List.replicate n s.stop else []

theorem Stream.ends_of_ne {n : Nat} {s : Stream} (h : s.rest ≠ []) : s.ends n = [] := if_neg h

theorem Stream.ends_of_nil {n : Nat} {s : Stream} (h : s.rest = []) :
    s.ends n = List.replicate n s.stop := if_pos h

theorem Stream.current_of_nil {s : Stream} (h : s.rest = []) : s.current = s.stop := by
  rw [current, h]
  rfl

theorem Stream.Takes.orderly {s t : Stream} {ts : List Token} (h : s.Takes ts t) (hs : s.Orderly) :
    t.Orderly := by
  obtain ⟨hordered, hbody⟩ := hs
  rw [h.rest] at hordered hbody
  exact ⟨(List.pairwise_append.mp hordered).2.1, fun x hx => hbody x (List.mem_append_right _ hx)⟩

/-- What is reported on the way from `s` comes from tokens that were taken, and at most `n` times
    more from the end; a token that is refused is the one that comes next. -/
structure Outcome.Sited {α : Type} (n : Nat) (s : Stream) (o : Outcome α) : Prop where
  sites : ∃ ts, s.Takes ts o.rest ∧ Among Diagnostic.From (ts ++ o.rest.ends n) o.reports
  refused : ∀ f, o.result = .error f → f.found = o.rest.current

namespace Reader

variable {α β : Type} {r : Reader α} {s t : Stream} {n : Nat} {front : List Token}

/-- A reader that is used behind a row `front`. Its reports come from the tokens from there on. -/
def Sited (n : Nat) (front : List Token) (r : Reader α) : Prop :=
  ∀ ⦃s t : Stream⦄ ⦃ts : List Token⦄, s.Orderly → s.Takes (front ++ ts) t → (r.read t).Sited n s

theorem Strict.sited (h : r.Strict) (n : Nat) (front : List Token) : r.Sited n front := by
  intro s t ts _ hst
  obtain ⟨hsilent, hrefused⟩ := h t
  obtain ⟨us, hus⟩ := (r.ahead t).exists_takes
  exact ⟨⟨_, hst.trans hus, hsilent ▸ .nil _⟩, hrefused⟩

theorem sited_bind {k : α → Reader β} (hr : r.Strict) (hk : ∀ a, (k a).Sited n front) :
    (r >>= k).Sited n front := by
  intro s t ts hs hst
  obtain ⟨hsilent, hrefused⟩ := hr t
  obtain ⟨us, hus⟩ := (r.ahead t).exists_takes
  have hsu := hst.trans hus
  cases hread : r.read t with
  | mk result u reports =>
    rw [hread] at hsilent hrefused hsu
    obtain rfl : reports = [] := hsilent
    cases result with
    | error f =>
      have hfault : (r >>= k).read t = ⟨.error f, u, []⟩ := by
        show (r.read t).andThen _ = _
        rw [hread]
        rfl
      rw [hfault]
      exact ⟨⟨_, hsu, .nil _⟩, fun g hg => hrefused g (by cases hg; rfl)⟩
    | ok a =>
      rw [read_bind hread]
      rw [List.append_assoc] at hsu
      exact hk a hs hsu

/-! ### Rows with recovery -/

/-- Resuming passes over the token that comes next, unless the row ends there. -/
theorem exists_resume {closed : TokenKind → Bool} (resumption : Resumption closed) (s : Stream) :
    ∃ lost, s.Takes lost (resumption.resume s) ∧
      (lost = [] → s.rest = [] ∨ closed s.kind = true) := by
  obtain ⟨lost, hlost⟩ := (resumption.ahead s).exists_takes
  refine ⟨lost, hlost, ?_⟩
  rintro rfl
  by_contra! hgo
  have hless := resumption.progress s (List.length_pos_iff.mpr hgo.1) (by simpa using hgo.2)
  rw [hlost.eq_of_nil] at hless
  exact Nat.lt_irrefl _ hless

section Items

variable {item : Token → Option (Reader α)} {expected : String} {closed : TokenKind → Bool}
  {resumption : Resumption closed}

/-- What a row with recovery reports from `s` on until it stops: its tokens, at most once the token
    that it stops at, and what its items report at the end. -/
structure Items.Sited (n : Nat) (closed : TokenKind → Bool) (s : Stream) (items : Items α) : Prop
    where
  sites : ∃ ts, s.Takes ts items.rest ∧
    Among Diagnostic.From (ts ++ items.rest.current :: items.rest.ends n) items.reports
  stops : items.rest.rest = [] ∨ closed items.rest.kind = true

/-- A fault is reported at the token that was refused, and reading resumes behind it or stops. -/
theorem sited_resume {u : Stream} {ts : List Token} {ds : List Diagnostic} {f : Fault}
    (hsu : s.Takes ts u) (hbefore : Among Diagnostic.From (ts ++ u.ends n) ds)
    (hf : f.found = u.current)
    (htail : (itemsFrom item expected resumption (resumption.resume u)).Sited n closed
      (resumption.resume u)) :
    Items.Sited n closed s
      { itemsFrom item expected resumption (resumption.resume u) with
        reports := ds ++ f.diagnostic ::
          (itemsFrom item expected resumption (resumption.resume u)).reports } := by
  have hfault := f.from_found
  rw [hf] at hfault
  obtain ⟨lost, hlost, hstay⟩ := exists_resume resumption u
  cases lost with
  | nil =>
    have hend := hstay rfl
    have hdone : itemsFrom item expected resumption u = ⟨[], u, []⟩ := itemsFrom_of_closed _ _ hend
    rw [hlost.eq_of_nil, hdone]
    refine ⟨⟨ts, hsu, (hbefore.append (.one hfault)).mono ?_⟩, hend⟩
    by_cases hnil : u.rest = []
    · simp [Stream.ends_of_nil hnil, Stream.current_of_nil hnil, ← List.replicate_succ',
        List.replicate_succ]
    · simp [Stream.ends_of_ne hnil]
  | cons y lost =>
    generalize itemsFrom item expected resumption (resumption.resume u) = tail at htail
    obtain ⟨⟨us, hus, hsites⟩, hstops⟩ := htail
    have hne : u.rest ≠ [] := by simp [hlost.rest]
    rw [hlost.current_eq] at hfault
    rw [Stream.ends_of_ne hne, List.append_nil] at hbefore
    refine ⟨⟨ts ++ (y :: lost ++ us), hsu.trans (hlost.trans hus), ?_⟩, hstops⟩
    have hall := hbefore.append ((Among.one hfault).append (hsites.mono
      (List.sublist_append_right lost _)))
    simpa using hall

/-- A row with recovery reports tokens that it passed over, and at most once the token that it stops
    at. -/
theorem sited_itemsFrom (h : ∀ x r, item x = some r → r.Sited n [x]) (hs : s.Orderly) :
    (itemsFrom item expected resumption s).Sited n closed s := by
  fun_induction itemsFrom item expected resumption s with
  | case1 s hr => exact ⟨⟨[], .nil _, .nil _⟩, .inl hr⟩
  | case2 s x _ hr hc => exact ⟨⟨[], .nil _, .nil _⟩, .inr hc⟩
  | case3 s x _ hr hc hpos hi hlt tail ih =>
    -- no item begins here: the token itself is refused
    obtain ⟨lost, hlost⟩ := (resumption.ahead s).exists_takes
    have hcurrent : x = s.current := by rw [Stream.current, hr]; rfl
    exact sited_resume (f := ⟨expected, x⟩) (.nil s) (.nil _) hcurrent (ih (hlost.orderly hs))
  | case4 s x _ hr hc hpos r hi o hlt a ha tail ih =>
    obtain ⟨⟨ts, hts, hsites⟩, -⟩ := h x r hi hs (Stream.Takes.of_cons hr)
    by_cases hnil : o.rest.rest = []
    · -- nothing is left to read, so that no more is reported
      have hdone : tail = ⟨[], o.rest, []⟩ := itemsFrom_of_closed _ _ (.inl hnil)
      rw [hdone]
      refine ⟨⟨ts, hts, ?_⟩, .inl hnil⟩
      rw [List.append_nil]
      exact hsites.mono ((List.sublist_cons_self ..).append_left ts)
    · obtain ⟨⟨us, hus, htail⟩, hstops⟩ := ih (hts.orderly hs)
      rw [Stream.ends_of_ne hnil, List.append_nil] at hsites
      refine ⟨⟨ts ++ us, hts.trans hus, ?_⟩, hstops⟩
      rw [List.append_assoc]
      exact hsites.append htail
  | case5 s x _ hr hc hpos r hi o hlt f hf _ tail ih =>
    obtain ⟨⟨ts, hts, hsites⟩, hrefused⟩ := h x r hi hs (Stream.Takes.of_cons hr)
    obtain ⟨lost, hlost⟩ := (resumption.ahead o.rest).exists_takes
    exact sited_resume hts hsites (hrefused f hf) (ih (hlost.orderly (hts.orderly hs)))

end Items

/-! ### Declarations -/

/-- A field that ends at the end of the file is one error, and the missing brace is another one. -/
theorem sited_fields {k : List FieldDecl → Token → Reader β} (hk : ∀ fs x, (k fs x).Strict) :
    (fields >>= fun fs => mark .rightBrace >>= k fs).Sited 1 front := by
  intro s t row hs hst
  have hfield (x : Token) (r : Reader FieldDecl) (hr : field? x = some r) : r.Sited 0 [x] :=
    Strict.sited (strict_field? x r hr) 0 [x]
  obtain ⟨⟨ts, hts, hsites⟩, hstops⟩ : Items.Sited 0 endsBlock t
    (itemsFrom field? "field name" fieldResumption t) := sited_itemsFrom hfield (hst.orderly hs)
  have hread : fields.read t = ⟨.ok (itemsFrom field? "field name" fieldResumption t).items,
    (itemsFrom field? "field name" fieldResumption t).rest,
    (itemsFrom field? "field name" fieldResumption t).reports⟩ := rfl
  generalize itemsFrom field? "field name" fieldResumption t = fs at hts hsites hstops hread
  have hall := hst.trans hts
  replace hsites := hsites.mono (List.sublist_append_right (front ++ row) _)
  rw [← List.append_assoc] at hsites
  rw [read_bind_ok hread]
  by_cases hclosed : fs.rest.kind = .mark .rightBrace
  · -- the brace is taken, whatever was reported at it
    obtain ⟨x, hx, htaken⟩ := Stream.Takes.of_kind_eq hclosed (by simp)
    have hne : fs.rest.rest ≠ [] := by simp [htaken.rest]
    rw [Stream.ends_of_ne hne, htaken.current_eq] at hsites
    rw [read_bind (reads_mark hx htaken)]
    have htail := Strict.sited (hk fs.items x) 1 [] (htaken.orderly (hall.orderly hs)) (.nil _)
    obtain ⟨⟨us, hus, hmore⟩, hrefused⟩ := htail
    refine ⟨⟨_, (hall.trans htaken).trans hus, ?_⟩, hrefused⟩
    rw [List.append_assoc]
    exact hsites.append hmore
  · -- the end of the file is refused once more
    have hnil : fs.rest.rest = [] := by
      refine hstops.elim id fun hend => (hall.orderly hs).rest_eq_nil ?_
      simpa [endsBlock, hclosed] using hend
    have hread : (mark .rightBrace >>= k fs.items).read fs.rest =
        ⟨.error ⟨Mark.rightBrace.quoted, fs.rest.current⟩, fs.rest, []⟩ := by
      show ((mark .rightBrace).read fs.rest).andThen _ = _
      rw [read_mark_of_ne hclosed]
      rfl
    rw [hread]
    refine ⟨⟨_, hall, ?_⟩, fun f hf => by cases hf; rfl⟩
    simpa [Stream.ends_of_nil hnil, Stream.current_of_nil hnil] using hsites

theorem sited_typeDecl (kind : TypeKind) (start : Span) : (typeDecl kind start).Sited 1 front := by
  refine sited_bind (strict_name _) fun typeName => sited_bind strict_metadata fun metadata => ?_
  refine sited_bind (strict_mark _) fun _ => sited_fields fun fs _ => ?_
  exact strict_bind (strict_spanFrom _) fun _ => strict_pure _

/-- A warning about what is behind the token `x` starts where `x` does. -/
theorem sited_warning (x : Token) (message : String) (f : Span → β) :
    (spanFrom x.span >>= fun span => report (.warningAt message span) >>= fun _ =>
      pure (f span)).Sited n [x] := by
  intro s t ts hs hst
  have hread : (spanFrom x.span >>= fun span => report (.warningAt message span) >>= fun _ =>
      pure (f span)).read t = ⟨.ok (f (x.span.merge t.previous.span)), t,
        [.warningAt message (x.span.merge t.previous.span)]⟩ := rfl
  rw [hread]
  have hstart : (x.span.merge t.previous.span).start = x.span.start :=
    if_pos (hs.start_le_previous hst)
  have hfrom : Diagnostic.From [x] (.warningAt message (x.span.merge t.previous.span)) :=
    .token rfl hstart fun h => by cases h
  refine ⟨⟨_, hst, (Among.one hfrom).mono ?_⟩, fun _ hf => by cases hf⟩
  simp

theorem sited_service (x : Token) : (service x.span).Sited n [x] := by
  refine sited_bind (strict_name _) fun serviceName => sited_bind (strict_mark _) fun _ => ?_
  exact sited_bind strict_block fun _ => sited_warning x _ _

theorem sited_declaration? (x : Token) (r : Reader Declaration) (h : declaration? x = some r) :
    r.Sited 1 [x] := by
  rw [declaration?] at h
  split at h
  · next k hk =>
    have hstrict {q : Reader Declaration} (hq : q.Strict) : q.Sited 1 [x] := Strict.sited hq 1 [x]
    cases k <;> simp only [production?, Option.some.injEq, reduceCtorEq] at h <;> subst h
    · exact hstrict (strict_directive _ _ (strict_path _))
    · exact hstrict (strict_directive _ _ (strict_string _))
    · exact hstrict (strict_directive _ _ strict_attributeName)
    · exact sited_typeDecl _ _
    · exact sited_typeDecl _ _
    · exact hstrict (strict_enumDecl _ _)
    · exact hstrict (strict_enumDecl _ _)
    · exact hstrict (strict_directive _ _ (strict_path _))
    · exact hstrict (strict_directive _ _ (strict_string _))
    · exact hstrict (strict_directive _ _ (strict_string _))
    · exact sited_service x
  · cases h

end Reader

/-! ### Files -/

theorem Parsed.sites_ofTokens {tokens : List Token} (hs : (Stream.ofTokens tokens).Orderly) :
    Among Diagnostic.From (Stream.body tokens ++ [Stream.endOf tokens, Stream.endOf tokens])
      (ofTokens tokens).diagnostics := by
  obtain ⟨⟨ts, hts, hsites⟩, hstops⟩ : Reader.Items.Sited 1 (fun _ => false)
    (Stream.ofTokens tokens) (Reader.declarations (Stream.ofTokens tokens)) :=
      Reader.sited_itemsFrom Reader.sited_declaration? hs
  have hnil := hstops.resolve_right (by simp)
  have hbody : Stream.body tokens = ts := by
    have hrest := hts.rest
    rwa [hnil, List.append_nil] at hrest
  have hstop : (Reader.declarations (Stream.ofTokens tokens)).rest.stop = Stream.endOf tokens :=
    hts.stop
  rw [Stream.ends_of_nil hnil, Stream.current_of_nil hnil, hstop, ← hbody] at hsites
  exact hsites

namespace Standing

variable {source file : String} {ts : List Token} {t stop : Token}

/-- Only the end has no text. -/
theorem start_lt_stop (h : Standing source file ts) (ht : t ∈ ts) (hk : t.kind ≠ .eof) :
    t.span.start.offset < t.span.stop.offset := by
  obtain ⟨text, hmarks, hwritten⟩ := h.exists_written ht
  have hne : text ≠ [] := by
    unfold Layout.WrittenAs at hwritten
    split at hwritten
    · obtain ⟨body, rfl⟩ := hwritten
      exact List.cons_ne_nil _ _
    · next hkind => exact absurd hkind hk
    · exact hwritten.2
  obtain ⟨c, text, rfl⟩ := List.exists_cons_of_ne_nil hne
  have hpos := c.utf8Size_pos
  rw [hmarks.offset_stop, String.utf8Len_cons]
  omega

/-- Tokens of a source have spans of their own. -/
theorem nodup_spans (h : Standing source file (ts ++ [stop])) (hts : ∀ t ∈ ts, t.kind ≠ .eof) :
    ((ts ++ [stop]).map Token.span).Nodup := by
  have hne : ∀ a ∈ ts, ∀ b : Token, a.span.stop.offset ≤ b.span.start.offset → a.span ≠ b.span := by
    intro a ha b hle heq
    have hlt := h.start_lt_stop (List.mem_append_left _ ha) (hts a ha)
    rw [heq] at hlt hle
    omega
  obtain ⟨hordered, -, hlast⟩ := List.pairwise_append.mp h.ordered
  refine List.pairwise_map.mpr (List.pairwise_append.mpr ⟨?_, List.pairwise_singleton _ _, ?_⟩)
  · exact hordered.imp_of_mem fun ha _ hab => hne _ ha _ hab
  · exact fun a ha b hb => hne a ha b (hlast a ha b hb)

/-- Tokens of a source start in order. -/
theorem starts (h : Standing source file ts) :
    ts.Pairwise fun a b => a.span.start.offset ≤ b.span.start.offset :=
  h.ordered.imp_of_mem fun ha _ hab => (h.start_le_stop ha).trans hab

end Standing

namespace Diagnostic

/-- How many errors there are at a place. -/
def errorsAt (span : Span) (ds : List Diagnostic) : Nat :=
  ds.countP fun d => d.isError && d.span == some span

theorem errorsAt_le {us : List Token} {ds : List Diagnostic} (span : Span)
    (h : List.Forall₂ (fun t d => From [t] d) us ds) :
    errorsAt span ds ≤ (us.map Token.span).count span := by
  induction h with
  | nil => exact Nat.le_refl _
  | @cons t d us ds hd _ ih =>
    obtain ⟨hspan, -, herror⟩ := hd
    rw [errorsAt, List.countP_cons, List.map_cons, List.count_cons]
    refine Nat.add_le_add ih ?_
    by_cases hd : d.isError = true
    · simp [hspan, herror hd, hd]
    · simp [hd]

theorem map_start_eq {us : List Token} {ds : List Diagnostic}
    (h : List.Forall₂ (fun t d => From [t] d) us ds) :
    ds.map (fun d => d.span.map (·.start.offset)) =
      (us.map fun t => t.span.start.offset).map some := by
  induction h with
  | nil => rfl
  | cons hd _ ih =>
    obtain ⟨hspan, hstart, -⟩ := hd
    rw [List.map_cons, List.map_cons, List.map_cons, ih, hspan, Option.map_some, hstart]

/-- Reports in order of their places, with errors at tokens only. No token has two errors, except
    for the end, which has no three. -/
structure Apart (tokens : List Token) (ds : List Diagnostic) : Prop where
  ordered : ∃ starts : List Nat, ds.map (fun d => d.span.map (·.start.offset)) = starts.map some ∧
    starts.Pairwise (· ≤ ·)
  placed : ∀ d ∈ ds, d.isError = true → ∃ t ∈ tokens, d.span = some t.span
  single : ∀ t ∈ tokens, t.kind ≠ .eof → errorsAt t.span ds ≤ 1
  double : ∀ t ∈ tokens, t.kind = .eof → errorsAt t.span ds ≤ 2
  bounded : ds.countP isError ≤ tokens.length + 1

/-- Reports that come from the tokens of a source in order, and once more from its end. -/
theorem apart_of_among {source file : String} {ts : List Token} {stop : Token}
    {ds : List Diagnostic} (h : Among From (ts ++ [stop, stop]) ds)
    (hstanding : Standing source file (ts ++ [stop])) (hts : ∀ t ∈ ts, t.kind ≠ .eof)
    (hstop : stop.kind = .eof) : Apart (ts ++ [stop]) ds := by
  obtain ⟨us, hsub, hfrom⟩ := h.exists_tokens
  have hsplit : ts ++ [stop, stop] = ts ++ [stop] ++ [stop] := by simp
  rw [hsplit] at hsub
  have hnodup := List.nodup_iff_count.mp (hstanding.nodup_spans hts)
  have hcount (span : Span) : errorsAt span ds ≤
      ((ts ++ [stop]).map Token.span).count span + [stop.span].count span := by
    refine (errorsAt_le span hfrom).trans ?_
    have hle := (hsub.map Token.span).count_le span
    rwa [List.map_append, List.count_append] at hle
  have hordered : (ts ++ [stop] ++ [stop]).Pairwise fun a b =>
      a.span.start.offset ≤ b.span.start.offset := by
    refine List.pairwise_append.mpr ⟨hstanding.starts, List.pairwise_singleton _ _, ?_⟩
    intro t ht u hu
    obtain rfl := List.mem_singleton.mp hu
    rcases List.mem_append.mp ht with ht | ht
    · exact (List.pairwise_append.mp hstanding.starts).2.2 t ht u hu
    · rw [List.mem_singleton.mp ht]
  refine ⟨⟨_, map_start_eq hfrom, List.pairwise_map.mpr (hordered.sublist hsub)⟩, ?_, ?_, ?_, ?_⟩
  · intro d hd herror
    obtain ⟨row, hrow, hfrom⟩ := h.exists_row hd
    obtain ⟨hspan, -, hat⟩ := hfrom
    next t span =>
    have ht : t ∈ ts ++ [stop, stop] := hrow.subset (List.mem_singleton_self t)
    exact ⟨t, by simpa using ht, hat herror ▸ hspan⟩
  · intro t ht hk
    have hne : stop.span ≠ t.span := by
      intro heq
      have hmem : stop ∈ ts ++ [stop] := List.mem_append_right _ (List.mem_singleton_self stop)
      have hsame := List.inj_on_of_nodup_map (hstanding.nodup_spans hts) hmem ht heq
      exact hk (hsame ▸ hstop)
    have hlast : [stop.span].count t.span = 0 := List.count_eq_zero.mpr (by simpa using hne.symm)
    have hle := hcount t.span
    rw [hlast] at hle
    exact hle.trans (hnodup t.span)
  · intro t ht hk
    have hlast : [stop.span].count t.span ≤ 1 := List.count_le_length
    exact (hcount t.span).trans (Nat.add_le_add (hnodup t.span) hlast)
  · calc ds.countP isError ≤ ds.length := List.countP_le_length
      _ = us.length := hfrom.length_eq.symm
      _ ≤ (ts ++ [stop] ++ [stop]).length := hsub.length_le
      _ = (ts ++ [stop]).length + 1 := List.length_append

end Diagnostic

/-- However a source is wrong, what is wrong with its declarations is reported in source order, at
    most once for each token and twice for the end. -/
theorem Parsed.apart_ofSource (source file : String) :
    Diagnostic.Apart (Lexed.ofSource source file).tokens
      (ofTokens (Lexed.ofSource source file).tokens).diagnostics := by
  have hall := Lexed.body_concat_endOf source file
  have hstanding : Standing source file (Stream.body (Lexed.ofSource source file).tokens ++
      [Stream.endOf (Lexed.ofSource source file).tokens]) := by
    rw [hall]
    exact .refl _
  have hbody : ∀ t ∈ Stream.body (Lexed.ofSource source file).tokens, t.kind ≠ .eof := by
    intro t ht
    simpa using List.mem_takeWhile_imp ht
  have horderly : (Stream.ofTokens (Lexed.ofSource source file).tokens).Orderly :=
    ⟨(hstanding.sublist (List.sublist_append_left _ _)).starts, hbody⟩
  have hapart := Diagnostic.apart_of_among (sites_ofTokens horderly) hstanding hbody
    (Stream.kind_endOf _)
  rwa [hall] at hapart

/-- A field that ends too early, and the brace that is missing behind it. -/
example :
    let tokens := (Lexed.ofSource "table T \x7b x:" "t.fbs").tokens
    (Parsed.ofTokens tokens).diagnostics.map (fun d => (d.message, d.span)) =
      [("expected type, found end of file", some (Stream.endOf tokens).span),
        ("expected '\x7d', found end of file", some (Stream.endOf tokens).span)] := by
  decide +kernel

end FlatSchema
