import FlatSchema.Proofs.Declaration.Resumption

/-!
How far a reader looks. Most readers neither take a semicolon nor look behind one: whatever follows
the next semicolon, they read the same, and that semicolon is still to come when they stop.

        hp: [int  ;  ⋯          refused at the semicolon, whatever follows it
                  ┴
        hp: int = 5;  ⋯         only the end of a field takes its semicolon
-/

namespace FlatSchema

variable {α β : Type}

namespace Stream

/-- A semicolon is still to come. -/
def Fenced (s : Stream) : Prop := ∃ x ∈ s.rest, x.kind = .mark .semicolon

/-- The stream `s`, with the tokens of `t` where `s` ends. -/
def append (s t : Stream) : Stream := ⟨s.previous, s.rest ++ t.rest, t.stop⟩

variable {s t : Stream}

theorem Fenced.ne_nil (h : s.Fenced) : s.rest ≠ [] := by
  obtain ⟨x, hx, -⟩ := h
  exact List.ne_nil_of_mem hx

theorem current_append (h : s.rest ≠ []) : (s.append t).current = s.current := by
  obtain ⟨x, rest, hs⟩ := List.exists_cons_of_ne_nil h
  rw [current, append, current, hs]
  rfl

theorem kind_append (h : s.rest ≠ []) : (s.append t).kind = s.kind := by
  obtain ⟨x, rest, hs⟩ := List.exists_cons_of_ne_nil h
  simp only [kind, append, hs, List.cons_append]

theorem skip_append {n : Nat} (h : n ≤ s.rest.length) :
    (s.append t).skip n = (s.skip n).append t := by
  simp only [skip, append, List.take_append_of_le_length h, List.drop_append_of_le_length h]

/-- A semicolon that does not come next is still to come behind the next token. -/
theorem Fenced.skip_one (h : s.Fenced) (hk : s.kind ≠ .mark .semicolon) : (s.skip 1).Fenced := by
  obtain ⟨x, hx, hsemicolon⟩ := h
  cases hs : s.rest with
  | nil => simp [hs] at hx
  | cons y rest =>
    rw [hs] at hx
    rcases List.mem_cons.mp hx with rfl | hx
    · exact absurd hsemicolon (by simpa [kind, hs] using hk)
    · exact ⟨x, by simpa [skip, hs] using hx, hsemicolon⟩

end Stream

/-- The same outcome, with the tokens of `t` behind what is left. -/
def Outcome.append (o : Outcome α) (t : Stream) : Outcome α :=
  ⟨o.result, o.rest.append t, o.reports⟩

namespace Reader

/-- Before a semicolon the reader reads the same whatever follows it, and leaves it. -/
def Fenced (r : Reader α) : Prop :=
  ∀ ⦃s : Stream⦄ (t : Stream), s.Fenced →
    r.read (s.append t) = (r.read s).append t ∧ (r.read s).rest.Fenced

variable {r : Reader α}

/-! ### Steps -/

/-- A reader that only looks. -/
theorem fenced_of_look (f : Stream → α) (hr : ∀ s, r.read s = ⟨.ok (f s), s, []⟩)
    (hf : ∀ (s t : Stream), s.Fenced → f (s.append t) = f s) : r.Fenced := by
  intro s t hs
  rw [hr, hr, hf s t hs]
  exact ⟨rfl, hs⟩

theorem fenced_pure (a : α) : (pure a : Reader α).Fenced :=
  fenced_of_look _ (fun _ => rfl) fun _ _ _ => rfl

theorem fenced_current : current.Fenced :=
  fenced_of_look _ (fun _ => rfl) fun _ _ hs => Stream.current_append hs.ne_nil

theorem fenced_kind : kind.Fenced :=
  fenced_of_look _ (fun _ => rfl) fun _ _ hs => Stream.kind_append hs.ne_nil

theorem fenced_spanFrom (start : Span) : (spanFrom start).Fenced :=
  fenced_of_look _ (fun _ => rfl) fun _ _ _ => rfl

theorem fenced_fail (expected : String) : (fail expected : Reader α).Fenced := by
  intro s t hs
  refine ⟨?_, hs⟩
  show (⟨.error ⟨expected, (s.append t).current⟩, s.append t, []⟩ : Outcome α) = _
  rw [Stream.current_append hs.ne_nil]
  rfl

theorem read_bind_append {k : α → Reader β} {s t : Stream}
    (hr : r.read (s.append t) = (r.read s).append t)
    (hk : ∀ a, (r.read s).result = .ok a →
      (k a).read ((r.read s).rest.append t) = ((k a).read (r.read s).rest).append t) :
    (r >>= k).read (s.append t) = ((r >>= k).read s).append t := by
  show (r.read (s.append t)).andThen _ = ((r.read s).andThen _).append t
  rw [hr]
  generalize r.read s = o at hk
  obtain ⟨result, rest, reports⟩ := o
  cases result with
  | error f => rfl
  | ok a =>
    simp only [Outcome.andThen, Outcome.append]
    rw [hk a rfl]
    rfl

theorem fenced_bind {k : α → Reader β} (hr : r.Fenced) (hk : ∀ a, (k a).Fenced) :
    (r >>= k).Fenced := by
  intro s t hs
  obtain ⟨hread, hrest⟩ := hr t hs
  refine ⟨read_bind_append hread fun a _ => (hk a t hrest).1, ?_⟩
  show ((r.read s).andThen _).rest.Fenced
  cases hresult : (r.read s).result with
  | error f => simpa [Outcome.andThen, hresult] using hrest
  | ok a => simpa [Outcome.andThen, hresult] using (hk a t hrest).2

theorem fenced_map (hr : r.Fenced) (f : α → β) : (f <$> r).Fenced :=
  fenced_bind hr fun _ => fenced_pure _

theorem fenced_ite (c : Prop) [Decidable c] {q : Reader α} (hr : r.Fenced) (hq : q.Fenced) :
    (if c then r else q).Fenced := by
  split
  · exact hr
  · exact hq

theorem read_next_append {s : Stream} (h : s.rest ≠ []) (t : Stream) :
    next.read (s.append t) = (next.read s).append t := by
  have hlength : 1 ≤ s.rest.length := List.length_pos_iff.mpr h
  show (⟨.ok (s.append t).current, (s.append t).skip 1, []⟩ : Outcome Token) = _
  rw [Stream.current_append h, Stream.skip_append hlength]
  rfl

/-- What is chosen by the next kind, where another token than the semicolon may be taken. -/
theorem fenced_next_if {c : TokenKind → Prop} [DecidablePred c] (hc : ¬ c (.mark .semicolon))
    {k : Token → Reader β} {q : Reader β} (hk : ∀ x, (k x).Fenced) (hq : q.Fenced) :
    (kind >>= fun x => if c x then next >>= k else q).Fenced := by
  intro s t hs
  show (if c (s.append t).kind then next >>= k else q).read (s.append t) =
      ((if c s.kind then next >>= k else q).read s).append t ∧
    ((if c s.kind then next >>= k else q).read s).rest.Fenced
  rw [Stream.kind_append hs.ne_nil]
  split
  · next h =>
    have hskip : (s.skip 1).Fenced := hs.skip_one fun hkind => hc (hkind ▸ h)
    refine ⟨read_bind_append (read_next_append hs.ne_nil t) fun a ha => ?_,
      (hk s.current t hskip).2⟩
    cases ha
    exact (hk s.current t hskip).1
  · exact hq t hs

theorem fenced_accept {welcome : TokenKind → Bool} (h : welcome (.mark .semicolon) = false)
    (expected : String) : (accept welcome expected).Fenced :=
  fenced_next_if (k := pure) (by simp [h]) fenced_pure (fenced_fail expected)

theorem fenced_mark {m : Mark} (hm : m ≠ .semicolon) : (mark m).Fenced :=
  fenced_accept (by simpa using hm.symm) _

theorem fenced_name (expected : String) : (name expected).Fenced := fenced_accept rfl _

theorem fenced_eat {m : Mark} (hm : m ≠ .semicolon) : (eat m).Fenced :=
  fenced_next_if (k := fun _ => pure true) (by simpa using hm.symm) (fun _ => fenced_pure _)
    (fenced_pure _)

theorem fenced_behind {m : Mark} (hm : m ≠ .semicolon) (hr : r.Fenced) : (behind m r).Fenced :=
  fenced_bind (fenced_eat hm) fun _ => fenced_ite _ (fenced_map hr _) (fenced_pure _)

theorem fenced_row (hr : r.Fenced) {m : Mark} (hm : m ≠ .semicolon) (closed : TokenKind → Bool) :
    (row r m closed).Fenced := by
  intro s t hs
  show rowFrom r m closed (s.append t) = (rowFrom r m closed s).append t ∧
    (rowFrom r m closed s).rest.Fenced
  fun_induction rowFrom r m closed s with
  | case1 s hc =>
    rw [rowFrom, Stream.kind_append hs.ne_nil, if_pos hc]
    exact ⟨rfl, hs⟩
  | case2 s hc o f hf =>
    obtain ⟨hread, hrest⟩ := hr t hs
    refine ⟨?_, hrest⟩
    rw [rowFrom, Stream.kind_append hs.ne_nil, if_neg hc]
    simp only [hread, Outcome.append, o, hf]
  | case3 s hc o a ha hk _ tail ih =>
    obtain ⟨hread, hrest⟩ := hr t hs
    have hskip : (o.rest.skip 1).Fenced := hrest.skip_one (by rw [hk]; simpa using hm)
    obtain ⟨htail, hfenced⟩ := ih hskip
    refine ⟨?_, hfenced⟩
    have hkind : (o.rest.append t).kind = .mark m := (Stream.kind_append hrest.ne_nil).trans hk
    have hlength : 1 ≤ o.rest.rest.length := List.length_pos_iff.mpr hrest.ne_nil
    rw [rowFrom, Stream.kind_append hs.ne_nil, if_neg hc]
    simp only [hread, Outcome.append, o, ha, dif_pos hkind, Stream.skip_append hlength, htail,
      tail]
  | case4 s hc o a ha hk =>
    obtain ⟨hread, hrest⟩ := hr t hs
    have hkind : (o.rest.append t).kind ≠ .mark m := by rwa [Stream.kind_append hrest.ne_nil]
    refine ⟨?_, hrest⟩
    rw [rowFrom, Stream.kind_append hs.ne_nil, if_neg hc]
    simp only [hread, Outcome.append, o, ha, dif_neg hkind]

/-! ### Productions -/

theorem fenced_dotted (expected : String) : (dotted expected).Fenced :=
  fenced_bind fenced_current fun _ =>
    fenced_bind (fenced_row (fenced_name _) (by simp) _) fun _ =>
      fenced_bind (fenced_spanFrom _) fun _ => fenced_pure _

theorem fenced_closings (depth : Nat) (text : String) : (closings depth text).Fenced := by
  induction depth generalizing text with
  | zero => exact fenced_pure _
  | succ depth ih =>
    refine fenced_bind (fenced_behind (by simp) (fenced_accept rfl _)) fun length => ?_
    refine fenced_bind (fenced_mark (by simp)) fun _ => ?_
    cases length with
    | none => exact ih _
    | some n => exact ih _

/-- Counting left brackets ends at a semicolon. -/
theorem openings_append_fenced {ts : List Token} (h : ∃ x ∈ ts, x.kind = .mark .semicolon)
    (more : List Token) : openings (ts ++ more) = openings ts ∧ openings ts ≤ ts.length ∧
      ∃ x ∈ ts.drop (openings ts), x.kind = .mark .semicolon := by
  induction ts with
  | nil => simp at h
  | cons y ts ih =>
    by_cases hy : y.kind = .mark .leftBracket
    · have hcons (us : List Token) : openings (y :: us) = openings us + 1 := by
        rw [openings, List.takeWhile_cons_of_pos (by simpa using hy), List.length_cons, openings]
      have hrest : ∃ x ∈ ts, x.kind = .mark .semicolon := by
        obtain ⟨x, hx, hsemicolon⟩ := h
        rcases List.mem_cons.mp hx with rfl | hx
        · simp [hy] at hsemicolon
        · exact ⟨x, hx, hsemicolon⟩
      obtain ⟨hcount, hle, hleft⟩ := ih hrest
      rw [List.cons_append, hcons, hcons, hcount]
      exact ⟨rfl, Nat.succ_le_succ hle, hleft⟩
    · have hnone (us : List Token) : openings (y :: us) = 0 := by
        rw [openings, List.takeWhile_cons_of_neg (by simpa using hy), List.length_nil]
      rw [List.cons_append, hnone, hnone]
      exact ⟨rfl, Nat.zero_le _, h⟩

/-- What is read behind all left brackets that come next. -/
theorem fenced_behind_openings {k : Nat → Reader β} (hk : ∀ n, (k n).Fenced) :
    (upcoming >>= fun ts => skip (openings ts) >>= fun _ => k (openings ts)).Fenced := by
  intro s t hs
  obtain ⟨hcount, hle, hleft⟩ := openings_append_fenced hs t.rest
  have hskip : (s.skip (openings s.rest)).Fenced := hleft
  obtain ⟨hread, hrest⟩ := hk (openings s.rest) t hskip
  refine ⟨?_, hrest⟩
  show (k (openings (s.rest ++ t.rest))).read ((s.append t).skip (openings (s.rest ++ t.rest))) = _
  rw [hcount, Stream.skip_append hle]
  exact hread

theorem fenced_type : Reader.type.Fenced := by
  have hrest (start : Span) (depth : Nat) : Fenced (do
      let element ← dotted "type"
      if depth = 0 then return element
      else
        let text ← closings depth element.text
        return (⟨text, ← spanFrom start⟩ : Spelling)) :=
    fenced_bind (fenced_dotted _) fun _ => fenced_ite _ (fenced_pure _) <|
      fenced_bind (fenced_closings _ _) fun _ =>
        fenced_bind (fenced_spanFrom _) fun _ => fenced_pure _
  exact fenced_bind fenced_current fun start => fenced_behind_openings (hrest start.span)

theorem fenced_scalar (expected : String) (quoting : Bool) : (scalar expected quoting).Fenced := by
  have hsign : scalar.optionalSign.Fenced :=
    fenced_next_if (k := fun t => pure t.lexeme) (by simp) (fun _ => fenced_pure _) (fenced_pure _)
  refine fenced_bind fenced_current fun start => fenced_bind hsign fun sign => ?_
  refine fenced_bind (fenced_accept rfl _) fun t => ?_
  exact fenced_bind (fenced_spanFrom _) fun _ => fenced_pure _

theorem fenced_metadata : Reader.metadata.Fenced := by
  have hentry : metadataEntry.Fenced :=
    fenced_bind (fenced_name _) fun _ =>
      fenced_bind (fenced_behind (by simp) (fenced_scalar _ _)) fun _ =>
        fenced_bind (fenced_spanFrom _) fun _ => fenced_pure _
  have hclose (start : Span) (entries : List MetadataEntry) : Fenced
      (do let _ ← mark .rightParen; return (⟨entries, some (← spanFrom start)⟩ : Metadata)) :=
    fenced_bind (fenced_mark (by simp)) fun _ =>
      fenced_bind (fenced_spanFrom _) fun _ => fenced_pure _
  refine fenced_bind fenced_current fun start => fenced_bind (fenced_eat (by simp)) fun b => ?_
  refine fenced_ite _ (fenced_bind fenced_kind fun k => ?_) (fenced_pure _)
  refine fenced_ite _ (fenced_bind (fenced_pure _) (hclose _)) ?_
  exact fenced_bind (fenced_row hentry (by simp) _) (hclose _)

/-! ### Fields -/

/-- Before a semicolon the reader reads the same whatever follows it; it may take the semicolon, but
    not if it fails. -/
def FencedOnFault (r : Reader α) : Prop :=
  ∀ ⦃s : Stream⦄ (t : Stream), s.Fenced → r.read (s.append t) = (r.read s).append t ∧
    ∀ f, (r.read s).result = .error f → (r.read s).rest.Fenced

theorem fencedOnFault_bind {k : α → Reader β} (hr : r.Fenced) (hk : ∀ a, (k a).FencedOnFault) :
    (r >>= k).FencedOnFault := by
  intro s t hs
  obtain ⟨hread, hrest⟩ := hr t hs
  refine ⟨read_bind_append hread fun a _ => (hk a t hrest).1, ?_⟩
  show ∀ f, ((r.read s).andThen _).result = .error f → ((r.read s).andThen _).rest.Fenced
  cases hresult : (r.read s).result with
  | error f => simpa [Outcome.andThen, hresult] using hrest
  | ok a => simpa [Outcome.andThen, hresult] using (hk a t hrest).2

/-- The semicolon that ends a field is the last token that is looked at. -/
theorem fencedOnFault_semicolon (start : Span) (f : Span → β) :
    (mark .semicolon >>= fun _ => spanFrom start >>= fun span => pure (f span)).FencedOnFault := by
  have hread {u : Stream} (hu : u.kind = .mark .semicolon) :
      (mark .semicolon >>= fun _ => spanFrom start >>= fun span => pure (f span)).read u =
        ⟨.ok (f (start.merge (u.skip 1).previous.span)), u.skip 1, []⟩ := by
    obtain ⟨x, hx, hux⟩ := Stream.Takes.of_kind_eq hu (by simp)
    exact read_bind (reads_mark hx hux) _
  have hrefuse {u : Stream} (hu : u.kind ≠ .mark .semicolon) :
      (mark .semicolon >>= fun _ => spanFrom start >>= fun span => pure (f span)).read u =
        ⟨.error ⟨Mark.semicolon.quoted, u.current⟩, u, []⟩ := by
    show ((mark .semicolon).read u).andThen _ = _
    rw [read_mark_of_ne hu]
    rfl
  intro s t hs
  have hkind : (s.append t).kind = s.kind := Stream.kind_append hs.ne_nil
  by_cases h : s.kind = .mark .semicolon
  · rw [hread h, hread (hkind.trans h), Stream.skip_append (List.length_pos_iff.mpr hs.ne_nil)]
    exact ⟨rfl, fun _ hf => by cases hf⟩
  · rw [hrefuse h, hrefuse (hkind.trans_ne h), Stream.current_append hs.ne_nil]
    exact ⟨rfl, fun _ _ => hs⟩

theorem fencedOnFault_field? (x : Token) : ∀ r ∈ field? x, r.FencedOnFault := by
  intro r hr
  simp only [field?, Option.mem_def, Option.ite_none_right_eq_some, Option.some.injEq] at hr
  obtain ⟨-, rfl⟩ := hr
  refine fencedOnFault_bind (fenced_mark (by simp)) fun _ => ?_
  refine fencedOnFault_bind fenced_type fun type => ?_
  refine fencedOnFault_bind (fenced_behind (by simp) (fenced_scalar _ _)) fun default => ?_
  exact fencedOnFault_bind fenced_metadata fun metadata => fencedOnFault_semicolon _ _

end Reader

end FlatSchema
