import FlatSchema.Proofs.Declaration.Resumption

/-!
Reading any row of tokens comes to an end and looks at nothing behind it. The row may be empty, lack
its end, or have several; the first end is the last token that is ever looked at, and where there is
none the row is read as if one stood behind its last token.

        place   0      1  2  3  4      5  6
        ended   table  T  {  }  ⟨eof⟩  x  ⟨eof⟩
                └────looked at──────┘

Every stream that reading comes to stands at a place of the row. A step keeps to the row, so each
movement does; and each round of the row of declarations takes at least one token, so there are no
more rounds than tokens.
-/

namespace FlatSchema

namespace Stream

/-! ### The end of a row -/

/-- The tokens with an end behind them, unless their last is one. That end has the span of the last
    token, and is at no place if there is no token either. -/
def ended (tokens : List Token) : List Token :=
  if tokens.getLast?.map Token.kind = some .eof then tokens
  else tokens ++ [.eof ((tokens.getLast?.map Token.span).getD .empty)]

theorem prefix_ended (tokens : List Token) : tokens <+: ended tokens := by
  rw [ended]
  split
  · exact List.prefix_rfl
  · exact List.prefix_append _ _

theorem ended_of_forall_ne {tokens : List Token} (h : ∀ t ∈ tokens, t.kind ≠ .eof) :
    ended tokens = tokens ++ [.eof ((tokens.getLast?.map Token.span).getD .empty)] := by
  rw [ended, if_neg]
  intro hlast
  obtain ⟨t, ht, hkind⟩ := Option.map_eq_some_iff.mp hlast
  exact h t (List.mem_of_getLast? ht) hkind

theorem endOf_of_forall_ne {tokens : List Token} (h : ∀ t ∈ tokens, t.kind ≠ .eof) :
    endOf tokens = .eof ((tokens.getLast?.map Token.span).getD .empty) := by
  have hnone : tokens.find? (·.kind == .eof) = none := by simpa using h
  rw [endOf, hnone, Option.getD_none]

theorem body_of_forall_ne {tokens : List Token} (h : ∀ t ∈ tokens, t.kind ≠ .eof) :
    body tokens = tokens :=
  List.takeWhile_eq_self_iff.mpr (by simpa using h)

theorem kind_ne_of_mem_body {tokens : List Token} : ∀ t ∈ body tokens, t.kind ≠ .eof := by
  intro t ht
  simpa using List.mem_takeWhile_imp ht

/-- What a stream has to read, and its end, are the first tokens of the row. -/
theorem body_append_endOf (tokens : List Token) :
    body tokens ++ [endOf tokens] <+: ended tokens := by
  cases hfind : tokens.find? (·.kind == .eof) with
  | none =>
    have hne : ∀ t ∈ tokens, t.kind ≠ .eof := by simpa using hfind
    have hended : body tokens ++ [endOf tokens] = ended tokens := by
      rw [body_of_forall_ne hne, endOf_of_forall_ne hne, ended_of_forall_ne hne]
    exact ⟨[], (List.append_nil _).trans hended⟩
  | some stop =>
    have hend : endOf tokens = stop := by rw [endOf, hfind, Option.getD_some]
    have hbehind : (tokens.dropWhile (·.kind != .eof)).head? = some stop := by
      rw [← hfind, List.find?_eq_head?_dropWhile_not]
      rfl
    obtain ⟨behind, hdrop⟩ := List.head?_eq_some_iff.mp hbehind
    have hrow : body tokens ++ [stop] <+: tokens := by
      refine ⟨behind, ?_⟩
      rw [List.append_assoc, List.singleton_append, ← hdrop]
      exact List.takeWhile_append_dropWhile
    exact hend ▸ hrow.trans (prefix_ended tokens)

/-- Nothing behind the first end belongs to a stream. -/
theorem ofTokens_append_cons {front behind : List Token} {stop : Token}
    (hfront : ∀ t ∈ front, t.kind ≠ .eof) (hstop : stop.kind = .eof) :
    ofTokens (front ++ stop :: behind) = ⟨front.headD stop, front, stop⟩ := by
  have hbody : body (front ++ stop :: behind) = front := by
    rw [body_append hfront, body, List.takeWhile_cons_of_neg (by simp [hstop]), List.append_nil]
  have hend : endOf (front ++ stop :: behind) = stop :=
    endOf_append hfront (List.find?_cons_of_pos (by simp [hstop]))
  rw [ofTokens, hbody, hend]

/-- Without an end, a stream has one at its last token. -/
theorem ofTokens_of_forall_ne {tokens : List Token} (h : ∀ t ∈ tokens, t.kind ≠ .eof) :
    ofTokens tokens =
      ofTokens (tokens ++ [.eof ((tokens.getLast?.map Token.span).getD .empty)]) := by
  rw [ofTokens_append_cons h rfl, ofTokens, body_of_forall_ne h, endOf_of_forall_ne h]

/-! ### Places -/

/-- The stream `s` stands at the place `i` of some tokens. No end was passed; the token read last,
    at the start the first one, stands before that place; and from there on stand the tokens to be
    read, up to an end that is the first. -/
structure StandsAt (tokens : List Token) (i : Nat) (s : Stream) : Prop where
  passed : ∀ t ∈ tokens.take i, t.kind ≠ .eof
  previous : tokens[i - 1]? = some s.previous
  upcoming : s.rest ++ [s.stop] <+: tokens.drop i
  before : ∀ t ∈ s.rest, t.kind ≠ .eof
  stop : s.stop.kind = .eof

namespace StandsAt

variable {tokens : List Token} {i : Nat} {s : Stream}

/-- The current token is the one at the place. -/
theorem current (h : s.StandsAt tokens i) : tokens[i]? = some s.current := by
  obtain ⟨behind, hdrop⟩ := h.upcoming
  rw [← List.head?_drop, ← hdrop, Stream.current]
  cases s.rest <;> rfl

/-- The kind that is looked at is the kind of the current token. -/
theorem kind (h : s.StandsAt tokens i) : s.kind = s.current.kind := by
  rw [Stream.kind, Stream.current]
  cases s.rest with
  | nil => exact h.stop.symm
  | cons x rest => rfl

/-- A step leads to the next place, and at the end to none. -/
theorem step (h : s.StandsAt tokens i) : (s.skip 1).StandsAt tokens (i + min 1 s.size) := by
  obtain ⟨previous, rest, stop⟩ := s
  cases rest with
  | nil => exact h
  | cons x rest =>
    have hcurrent : tokens[i]? = some x := h.current
    have hsize : min 1 (size ⟨previous, x :: rest, stop⟩) = 1 := by simp [size]
    obtain ⟨behind, hdrop⟩ := h.upcoming
    rw [hsize]
    refine ⟨?_, hcurrent, ⟨behind, ?_⟩, fun t ht => h.before t (List.mem_cons_of_mem x ht), h.stop⟩
    · intro t ht
      rw [List.take_add_one, hcurrent, Option.toList_some] at ht
      rcases List.mem_append.mp ht with ht | ht
      · exact h.passed t ht
      · obtain rfl := List.mem_singleton.mp ht
        exact h.before t (List.mem_cons_self ..)
    · rw [← List.tail_drop, ← hdrop]
      rfl

/-- However far a stream is moved, it stands at a place. -/
theorem skip (h : s.StandsAt tokens i) (n : Nat) :
    (s.skip n).StandsAt tokens (i + min n s.size) := by
  induction n with
  | zero => rwa [skip_zero, Nat.zero_min, Nat.add_zero]
  | succ n ih =>
    have hstep := ih.step
    have hplace : i + min n s.size + min 1 (s.size - n) = i + min (n + 1) s.size := by omega
    rwa [skip_skip, size_skip, hplace] at hstep

/-- A stream that is ahead stands further on by as many tokens as it has fewer to be read. -/
theorem ahead {t : Stream} (h : s.StandsAt tokens i) (hst : s.Ahead t) :
    t.StandsAt tokens (i + (s.size - t.size)) := by
  obtain ⟨n, rfl⟩ := hst
  have hplace : i + (s.size - (s.skip n).size) = i + min n s.size := by
    rw [size_skip]
    omega
  exact hplace ▸ h.skip n

end StandsAt

/-- A stream begins at the first place. -/
theorem standsAt_ofTokens (tokens : List Token) :
    (ofTokens tokens).StandsAt (ended tokens) 0 := by
  have hrow := body_append_endOf tokens
  refine ⟨by simp, ?_, hrow, kind_ne_of_mem_body, kind_endOf tokens⟩
  obtain ⟨behind, hended⟩ := hrow
  rw [← hended, ofTokens]
  cases body tokens <;> rfl

end Stream

/-! ### Rounds -/

namespace Reader

variable {α : Type} {item : Token → Option (Reader α)} {expected : String}
  {closed : TokenKind → Bool} {resumption : Resumption closed}

/-- A row with recovery is read in `n` rounds: each takes the current token, and gives an item or
    one fault. -/
inductive Rounds (item : Token → Option (Reader α)) (expected : String)
    {closed : TokenKind → Bool} (resumption : Resumption closed) :
    Nat → Stream → List α → List Diagnostic → Stream → Prop where
  | done {s : Stream} : s.rest = [] ∨ closed s.kind = true →
      Rounds item expected resumption 0 s [] [] s
  | good {n : Nat} {s t u : Stream} {x : Token} {r : Reader α} {a : α} {as : List α}
      {reports more : List Diagnostic} :
      closed s.kind = false → s.Takes [x] (s.skip 1) → item x = some r →
      r.read (s.skip 1) = ⟨.ok a, t, reports⟩ → Rounds item expected resumption n t as more u →
      Rounds item expected resumption (n + 1) s (a :: as) (reports ++ more) u
  | bad {n : Nat} {s t u : Stream} {x : Token} {r : Reader α} {f : Fault} {as : List α}
      {reports more : List Diagnostic} :
      closed s.kind = false → s.Takes [x] (s.skip 1) → item x = some r →
      r.read (s.skip 1) = ⟨.error f, t, reports⟩ →
      Rounds item expected resumption n (resumption.resume t) as more u →
      Rounds item expected resumption (n + 1) s as (reports ++ f.diagnostic :: more) u
  | stray {n : Nat} {s u : Stream} {x : Token} {as : List α} {more : List Diagnostic} :
      closed s.kind = false → s.Takes [x] (s.skip 1) → item x = none →
      Rounds item expected resumption n (resumption.resume s) as more u →
      Rounds item expected resumption (n + 1) s as (Fault.diagnostic ⟨expected, x⟩ :: more) u

/-- There are no more rounds than tokens to be read, for each round leaves fewer of them. -/
theorem exists_rounds (item : Token → Option (Reader α)) (expected : String)
    (resumption : Resumption closed) (s : Stream) :
    ∃ n ≤ s.size, Rounds item expected resumption n s (itemsFrom item expected resumption s).items
      (itemsFrom item expected resumption s).reports
      (itemsFrom item expected resumption s).rest := by
  fun_induction itemsFrom item expected resumption s with
  | case1 s hr => exact ⟨0, Nat.zero_le _, .done (.inl hr)⟩
  | case2 s x _ hr hc => exact ⟨0, Nat.zero_le _, .done (.inr hc)⟩
  | case3 s x _ hr hc hpos hi hlt tail ih =>
    obtain ⟨n, hn, hrounds⟩ := ih
    exact ⟨n + 1, Nat.lt_of_le_of_lt hn hlt,
      .stray (Bool.eq_false_iff.mpr hc) (.of_cons hr) hi hrounds⟩
  | case4 s x _ hr hc hpos r hi o hlt a ha tail ih =>
    obtain ⟨n, hn, hrounds⟩ := ih
    exact ⟨n + 1, Nat.lt_of_le_of_lt hn hlt,
      .good (Bool.eq_false_iff.mpr hc) (.of_cons hr) hi (by rw [← ha]) hrounds⟩
  | case5 s x _ hr hc hpos r hi o hlt f hf hfewer tail ih =>
    obtain ⟨n, hn, hrounds⟩ := ih
    exact ⟨n + 1, Nat.lt_of_le_of_lt hn hfewer,
      .bad (Bool.eq_false_iff.mpr hc) (.of_cons hr) hi (by rw [← hf]) hrounds⟩

/-- Rounds only stop at the end or before a token that closes the row. -/
theorem Rounds.stopped {n : Nat} {s t : Stream} {as : List α} {reports : List Diagnostic}
    (h : Rounds item expected resumption n s as reports t) :
    t.rest = [] ∨ closed t.kind = true := by
  induction h with
  | done h => exact h
  | good _ _ _ _ _ ih => exact ih
  | bad _ _ _ _ _ ih => exact ih
  | stray _ _ _ _ ih => exact ih

end Reader

/-! ### Files -/

namespace Parsed

/-- What is read of tokens is read within bounds. Wherever reading comes to, it looks at tokens of
    the row up to the first end; it comes to that end, in no more rounds than there are tokens; what
    follows the end changes nothing; and a missing end is read as one at the last token. -/
structure Bounded (tokens : List Token) : Prop where
  within : ∀ s, (Stream.ofTokens tokens).Ahead s → ∃ i ≤ (Stream.body tokens).length,
    s.StandsAt (Stream.ended tokens) i ∧ (Stream.ended tokens)[i]? = some s.current ∧
      s.kind = s.current.kind
  ends : ∃ n ≤ (Stream.body tokens).length, ∃ t,
    Reader.Rounds Reader.declaration? "declaration" Reader.declarationResumption n
      (Stream.ofTokens tokens) (ofTokens tokens).schema.declarations
      (ofTokens tokens).diagnostics t ∧
    t.StandsAt (Stream.ended tokens) (Stream.body tokens).length ∧ t.kind = .eof ∧
    (ofTokens tokens).schema.span = (Stream.ofTokens tokens).current.span.merge t.current.span
  cut : ∀ front stop behind, tokens = front ++ stop :: behind → (∀ t ∈ front, t.kind ≠ .eof) →
    stop.kind = .eof → ofTokens tokens = ofTokens (front ++ [stop])
  appended : (∀ t ∈ tokens, t.kind ≠ .eof) →
    ofTokens tokens = ofTokens (tokens ++ [.eof ((tokens.getLast?.map Token.span).getD .empty)])

/-- What is read depends on the stream alone. -/
theorem ofTokens_congr {tokens tokens' : List Token}
    (h : Stream.ofTokens tokens = Stream.ofTokens tokens') :
    ofTokens tokens = ofTokens tokens' := by
  rw [ofTokens, h, ofTokens]

/-- Every row of tokens is read within its bounds. -/
theorem bounded_ofTokens (tokens : List Token) : Bounded tokens where
  within s hs := by
    have hplace := (Stream.standsAt_ofTokens tokens).ahead hs
    refine ⟨_, ?_, hplace, hplace.current, hplace.kind⟩
    rw [Nat.zero_add]
    exact Nat.sub_le _ _
  ends := by
    obtain ⟨n, hn, hrounds⟩ := Reader.exists_rounds Reader.declaration? "declaration"
      Reader.declarationResumption (Stream.ofTokens tokens)
    have hrest := hrounds.stopped.resolve_right Bool.false_ne_true
    have hahead : (Stream.ofTokens tokens).Ahead (Reader.declarations (.ofTokens tokens)).rest :=
      Reader.ahead_itemsFrom _ _ _ _
    have hplace := (Stream.standsAt_ofTokens tokens).ahead hahead
    have hsize : (Reader.declarations (.ofTokens tokens)).rest.size = 0 :=
      congrArg List.length hrest
    rw [hsize, Nat.sub_zero, Nat.zero_add] at hplace
    refine ⟨n, hn, _, hrounds, hplace, ?_, rfl⟩
    rw [Stream.kind, hrest]
  cut front stop behind htokens hfront hstop := by
    refine ofTokens_congr ?_
    rw [htokens, Stream.ofTokens_append_cons hfront hstop,
      Stream.ofTokens_append_cons hfront hstop]
  appended h := ofTokens_congr (Stream.ofTokens_of_forall_ne h)

end Parsed

end FlatSchema
