import FlatSchema.Declaration.Reader
import FlatSchema.Proofs.Declaration.Grammar

/-!
What readers take. A stream takes a row of tokens to another stream if the row stands at its front
and the other stream is what is left; a reader yields a value if it reads it and reports no error
on the way. Each primitive reader says what it takes, and a reader made of two takes what the first
takes and then what the second takes.

        s   ├── row ──┤
        s   t₁ t₂ … tₙ u₁ u₂ …        previous = tₙ
                       t
-/

namespace FlatSchema

theorem getLastD_append {α : Type} (l m : List α) (a : α) :
    (l ++ m).getLastD a = m.getLastD (l.getLastD a) := by
  induction l generalizing a with
  | nil => rfl
  | cons x l ih => rw [List.cons_append, List.getLastD_cons, List.getLastD_cons, ih]

namespace Stream

/-- The row `ts` stands at the front of `s`, and `t` is what is left behind it. -/
structure Takes (s : Stream) (ts : List Token) (t : Stream) : Prop where
  rest : s.rest = ts ++ t.rest
  previous : t.previous = ts.getLastD s.previous
  stop : t.stop = s.stop

namespace Takes

variable {s t u : Stream} {ts us : List Token} {x : Token}

theorem nil (s : Stream) : s.Takes [] s := ⟨rfl, rfl, rfl⟩

theorem eq_of_nil (h : s.Takes [] t) : t = s := by
  obtain ⟨hr, hp, hs⟩ := h
  cases s; cases t
  simp_all

theorem trans (h : s.Takes ts t) (k : t.Takes us u) : s.Takes (ts ++ us) u where
  rest := by rw [h.rest, k.rest, List.append_assoc]
  previous := by rw [k.previous, h.previous, getLastD_append]
  stop := by rw [k.stop, h.stop]

/-- A row that is taken in one go can be taken in two. -/
theorem split (h : s.Takes (ts ++ us) u) : ∃ t, s.Takes ts t ∧ t.Takes us u := by
  refine ⟨⟨ts.getLastD s.previous, us ++ u.rest, s.stop⟩, ⟨?_, rfl, rfl⟩, rfl, ?_, h.stop⟩
  · rw [h.rest, List.append_assoc]
  · rw [h.previous, getLastD_append]

theorem uncons (h : s.Takes (x :: ts) u) : ∃ t, s.Takes [x] t ∧ t.Takes ts u := by
  rw [← List.singleton_append] at h
  exact h.split

theorem kind_eq (h : s.Takes (x :: ts) t) : s.kind = x.kind := by
  simp [Stream.kind, h.rest]

theorem current_eq (h : s.Takes (x :: ts) t) : s.current = x := by
  simp [Stream.current, h.rest]

/-- The first token is taken by a skip. -/
theorem skip_one (h : s.Takes [x] t) : s.skip 1 = t := by
  obtain ⟨hr, hp, hs⟩ := h
  cases s; cases t
  simp_all [Stream.skip]

theorem skip_length (h : s.Takes ts t) : s.skip ts.length = t := by
  obtain ⟨hr, hp, hs⟩ := h
  cases s; cases t
  simp_all [Stream.skip]

/-- A row at the front of a stream is taken by a skip. -/
theorem of_append {r : List Token} (h : s.rest = ts ++ r) : s.Takes ts (s.skip ts.length) where
  rest := by simp [Stream.skip, h]
  previous := by simp [Stream.skip, h]
  stop := rfl

theorem of_cons {r : List Token} (h : s.rest = x :: r) : s.Takes [x] (s.skip 1) := of_append h

/-- A token that comes next, other than the end, is taken by a skip. -/
theorem of_kind_eq {k : TokenKind} (h : s.kind = k) (hk : k ≠ .eof) :
    ∃ x, x.kind = k ∧ s.Takes [x] (s.skip 1) := by
  cases hr : s.rest with
  | nil => exact absurd (by simpa [Stream.kind, hr] using h.symm) hk
  | cons x r => exact ⟨x, by simpa [Stream.kind, hr] using h, .of_cons hr⟩

/-- The span from the first token taken to the last one covers the row. -/
theorem merge_span (h : s.Takes (x :: ts) t) :
    x.span.merge t.previous.span = Grammar.covering (x :: ts) := by
  rw [h.previous, List.getLastD_cons, Grammar.covering, List.getLastD_cons]
  rfl

/-- The span from the current token to the last one taken covers the row. -/
theorem merge_eq_covering (h : s.Takes ts t) (hne : ts ≠ []) :
    s.current.span.merge t.previous.span = Grammar.covering ts := by
  obtain ⟨x, ts, rfl⟩ := List.exists_cons_of_ne_nil hne
  rw [h.current_eq, h.merge_span]

end Takes

/-- Every token to come that is a sign has a lexeme, as signs in a text have. -/
def Signed (s : Stream) : Prop := ∀ x ∈ s.rest, Grammar.IsSign x.kind → x.lexeme ≠ ""

theorem Takes.signed {s t : Stream} {ts : List Token} (h : s.Takes ts t) (hs : s.Signed) :
    t.Signed :=
  fun x hx => hs x (h.rest ▸ List.mem_append_right _ hx)

end Stream

namespace Reader

variable {α β : Type}

/-- Reading `s` gives `a`, leaves `t` and reports no error. -/
def Yields (r : Reader α) (s : Stream) (a : α) (t : Stream) : Prop :=
  ∃ reports, r.read s = ⟨.ok a, t, reports⟩ ∧ ∀ d ∈ reports, d.isError = false

/-- What a reader yields is a phrase at the front of the stream. -/
def Sound (r : Reader α) (P : List Token → α → Prop) : Prop :=
  ∀ ⦃s a t⦄, s.Signed → r.Yields s a t → ∃ ts, s.Takes ts t ∧ P ts a

section Yields

variable {s t u : Stream} {a b : α}

theorem yields_bind {r : Reader α} {k : α → Reader β} {b : β} :
    (r >>= k).Yields s b u ↔ ∃ a t, r.Yields s a t ∧ (k a).Yields t b u := by
  show (∃ reports, (r.read s).andThen (fun a t => (k a).read t) = _ ∧ _) ↔ _
  constructor
  · rintro ⟨reports, h, hok⟩
    cases hr : r.read s with
    | mk result t r₁ =>
      rw [hr] at h
      cases result with
      | error f => simp [Outcome.andThen] at h
      | ok a =>
        simp only [Outcome.andThen, Outcome.mk.injEq] at h
        obtain ⟨hb, hu, rfl⟩ := h
        refine ⟨a, t, ⟨r₁, hr, fun d hd => hok d (List.mem_append_left _ hd)⟩,
          ((k a).read t).reports, ?_, fun d hd => hok d (List.mem_append_right _ hd)⟩
        rw [← hb, ← hu]
  · rintro ⟨a, t, ⟨r₁, h₁, ok₁⟩, r₂, h₂, ok₂⟩
    refine ⟨r₁ ++ r₂, by simp [Outcome.andThen, h₁, h₂], fun d hd => ?_⟩
    rcases List.mem_append.mp hd with hd | hd
    · exact ok₁ d hd
    · exact ok₂ d hd

/-- A reader that only looks, or only moves, and reports nothing. -/
theorem yields_of_read {r : Reader α} (h : r.read s = ⟨.ok a, t, []⟩) :
    r.Yields s b u ↔ b = a ∧ t = u := by
  constructor
  · rintro ⟨reports, hb, -⟩
    rw [h] at hb
    cases hb
    exact ⟨rfl, rfl⟩
  · rintro ⟨rfl, rfl⟩
    exact ⟨[], h, by simp⟩

@[simp] theorem yields_pure : (pure a : Reader α).Yields s b u ↔ b = a ∧ s = u :=
  yields_of_read rfl

@[simp] theorem yields_map {r : Reader α} {f : α → β} {b : β} :
    (f <$> r).Yields s b u ↔ ∃ a, r.Yields s a u ∧ b = f a := by
  show (r >>= fun a => pure (f a)).Yields s b u ↔ _
  rw [yields_bind]
  constructor
  · rintro ⟨a, t, ha, hb⟩
    obtain ⟨rfl, rfl⟩ := yields_pure.mp hb
    exact ⟨a, ha, rfl⟩
  · rintro ⟨a, ha, rfl⟩
    exact ⟨a, u, ha, yields_pure.mpr ⟨rfl, rfl⟩⟩

@[simp] theorem yields_current {x : Token} : current.Yields s x u ↔ x = s.current ∧ s = u :=
  yields_of_read rfl

@[simp] theorem yields_kind {k : TokenKind} : kind.Yields s k u ↔ k = s.kind ∧ s = u :=
  yields_of_read rfl

@[simp] theorem yields_upcoming {ts : List Token} :
    upcoming.Yields s ts u ↔ ts = s.rest ∧ s = u :=
  yields_of_read rfl

@[simp] theorem yields_skip {n : Nat} {x : Unit} : (skip n).Yields s x u ↔ s.skip n = u := by
  simp [yields_of_read (r := skip n) (s := s) rfl]

@[simp] theorem yields_next {x : Token} : next.Yields s x u ↔ x = s.current ∧ s.skip 1 = u :=
  yields_of_read rfl

@[simp] theorem not_yields_fail {e : String} : ¬ (fail e : Reader α).Yields s b u := by
  rintro ⟨_, h, _⟩
  simp [fail] at h

@[simp] theorem yields_spanFrom {start span : Span} :
    (spanFrom start).Yields s span u ↔ span = start.merge s.previous.span ∧ s = u :=
  yields_of_read rfl

@[simp] theorem yields_report {d : Diagnostic} {x : Unit} :
    (report d).Yields s x u ↔ d.isError = false ∧ s = u := by
  constructor
  · rintro ⟨reports, h, hok⟩
    cases h
    exact ⟨hok d (by simp), rfl⟩
  · rintro ⟨hd, rfl⟩
    exact ⟨[d], rfl, by simpa using hd⟩

@[simp] theorem yields_accept {welcome : TokenKind → Bool} {e : String} {x : Token}
    (heof : welcome .eof = false) :
    (accept welcome e).Yields s x u ↔ welcome x.kind = true ∧ s.Takes [x] u := by
  unfold accept
  rw [yields_bind]
  simp only [yields_kind]
  constructor
  · rintro ⟨k, t, ⟨rfl, rfl⟩, h⟩
    split at h
    · next hw =>
      obtain ⟨rfl, rfl⟩ := yields_next.mp h
      have hne : s.kind ≠ .eof := by
        intro hk
        rw [hk, heof] at hw
        cases hw
      obtain ⟨y, hy, hsy⟩ := Stream.Takes.of_kind_eq rfl hne
      rw [hsy.current_eq, hy]
      exact ⟨hw, hsy⟩
    · exact absurd h not_yields_fail
  · rintro ⟨hw, h⟩
    refine ⟨s.kind, s, ⟨rfl, rfl⟩, ?_⟩
    rw [h.kind_eq, if_pos hw, yields_next]
    exact ⟨h.current_eq.symm, h.skip_one⟩

theorem yields_expect {k : TokenKind} {e : String} {x : Token} (hk : k ≠ .eof) :
    (expect k e).Yields s x u ↔ x.kind = k ∧ s.Takes [x] u := by
  unfold expect
  rw [yields_accept (by simpa using hk.symm)]
  simp

@[simp] theorem yields_mark {m : Mark} {x : Token} :
    (mark m).Yields s x u ↔ x.kind = .mark m ∧ s.Takes [x] u :=
  yields_expect (by simp)

theorem isName_iff {k : TokenKind} : k.isName = true ↔ Grammar.IsName k := by
  cases k <;> simp [TokenKind.isName, TokenKind.isKeyword, Grammar.IsName]

@[simp] theorem yields_name {e : String} {x : Token} :
    (name e).Yields s x u ↔ Grammar.IsName x.kind ∧ s.Takes [x] u := by
  unfold name
  rw [yields_accept (by rfl), isName_iff]

/-- A mark is eaten exactly if it comes next. -/
theorem yields_eat {m : Mark} {b : Bool} :
    (eat m).Yields s b u ↔
      (b = true ∧ ∃ x, x.kind = .mark m ∧ s.Takes [x] u) ∨
        (b = false ∧ s.kind ≠ .mark m ∧ s = u) := by
  unfold eat
  rw [yields_bind]
  simp only [yields_kind]
  constructor
  · rintro ⟨k, t, ⟨rfl, rfl⟩, h⟩
    split at h
    · next hk =>
      rw [yields_bind] at h
      obtain ⟨x, v, hx, hb⟩ := h
      obtain ⟨rfl, rfl⟩ := yields_pure.mp hb
      obtain ⟨rfl, rfl⟩ := yields_next.mp hx
      exact .inl ⟨rfl, Stream.Takes.of_kind_eq hk (by simp)⟩
    · next hk =>
      obtain ⟨rfl, rfl⟩ := yields_pure.mp h
      exact .inr ⟨rfl, hk, rfl⟩
  · rintro (⟨rfl, x, hx, h⟩ | ⟨rfl, hk, rfl⟩)
    · refine ⟨s.kind, s, ⟨rfl, rfl⟩, ?_⟩
      rw [if_pos (h.kind_eq.trans hx), yields_bind]
      exact ⟨s.current, u, yields_next.mpr ⟨rfl, h.skip_one⟩, yields_pure.mpr ⟨rfl, rfl⟩⟩
    · refine ⟨s.kind, s, ⟨rfl, rfl⟩, ?_⟩
      rw [if_neg hk, yields_pure]
      exact ⟨rfl, rfl⟩

end Yields

/-! ### Rows -/

variable {P : List Token → α → Prop} {r : Reader α}

/-- Behind a mark a reader takes a phrase, without the mark nothing. -/
theorem sound_behind (m : Mark) (h : r.Sound P) : (behind m r).Sound (Grammar.Behind m P) := by
  intro s o u hs hy
  obtain ⟨b, t, hb, ho⟩ := yields_bind.mp hy
  rcases yields_eat.mp hb with ⟨rfl, x, hx, ht⟩ | ⟨rfl, _, rfl⟩
  · obtain ⟨a, ha, rfl⟩ := yields_map.mp ho
    obtain ⟨ts, hts, hP⟩ := h (ht.signed hs) ha
    exact ⟨x :: ts, ht.trans hts, .present hx hP⟩
  · obtain ⟨rfl, rfl⟩ := yields_pure.mp ho
    exact ⟨[], .nil _, .absent⟩

end Reader

end FlatSchema
