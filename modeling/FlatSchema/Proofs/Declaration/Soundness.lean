import FlatSchema.Declaration.Production
import FlatSchema.Proofs.Declaration.Taking
import Mathlib.Data.List.TakeWhile

/-!
Reading is sound for the grammar: whatever a reader yields has a derivation, from exactly the
tokens that were taken. The rows come first, by induction along the stream; then each production,
part by part in the order of its reader; the whole file is a row of declarations with recovery, in
which every recovery leaves an error behind.
-/

namespace FlatSchema

namespace Grammar

variable {α β : Type} {P : List Token → α → Prop} {Q : List Token → β → Prop} {f : α → β} {m : Mark}

theorem Row.map (h : ∀ ts a, P ts a → Q ts (f a)) {ts : List Token} {as : List α}
    (hr : Row P m ts as) : Row Q m ts (as.map f) := by
  induction hr with
  | one ha => exact .one (h _ _ ha)
  | more ha ht _ ih => exact .more (h _ _ ha) ht ih

theorem Row.ne_nil (h : ∀ ts a, P ts a → ts ≠ []) {ts : List Token} {as : List α}
    (hr : Row P m ts as) : ts ≠ [] := by
  cases hr with
  | one ha => exact h _ _ ha
  | more ha ht _ => simp

/-- A list goes on behind one more item. -/
theorem Listed.cons {ts rest : List Token} {t : Token} {a : α} {as : List α} (ha : P ts a)
    (ht : t.kind = .mark m) (h : Listed P m rest as) : Listed P m (ts ++ t :: rest) (a :: as) := by
  cases h with
  | none => exact .trailing (.one ha) ht
  | row hr => exact .row (.more ha ht hr)
  | trailing hr hu =>
    rw [← List.cons_append, ← List.append_assoc]
    exact .trailing (.more ha ht hr) hu

theorem Behind.map (h : ∀ ts a, P ts a → Q ts (f a)) {ts : List Token} {o : Option α}
    (hb : Behind m P ts o) : Behind m Q ts (o.map f) := by
  cases hb with
  | absent => exact .absent
  | present ht ha => exact .present ht (h _ _ ha)

end Grammar

namespace Reader

open Grammar

/-! ### Rows -/

section Rows

variable {α : Type} {P : List Token → α → Prop} {r : Reader α}

/-- A row of phrases is a list of them, and a proper row where nothing closes it early. -/
theorem sound_rowFrom (h : r.Sound P) (m : Mark) (closed : TokenKind → Bool) {s : Stream}
    (hs : s.Signed) (hok : ∀ d ∈ (rowFrom r m closed s).reports, d.isError = false) {as : List α}
    (has : (rowFrom r m closed s).result = .ok as) :
    ∃ ts, s.Takes ts (rowFrom r m closed s).rest ∧ Listed P m ts as ∧
      ((∀ k, closed k = false) → Row P m ts as) := by
  fun_induction rowFrom r m closed s generalizing as with
  | case1 s hc =>
    cases has
    exact ⟨[], .nil _, .none, fun hn => by simp [hn] at hc⟩
  | case2 s hc o f hf => cases has
  | case3 s hc o a ha hk _ tail ih =>
    obtain ⟨as', has', rfl⟩ : ∃ as', tail.result = .ok as' ∧ as = a :: as' := by
      cases htail : tail.result with
      | error f => rw [htail] at has; cases has
      | ok as' => rw [htail] at has; cases has; exact ⟨as', rfl, rfl⟩
    have hy : r.Yields s a o.rest :=
      ⟨o.reports, by rw [← ha], fun d hd => hok d (List.mem_append_left _ hd)⟩
    obtain ⟨ts, hts, hP⟩ := h hs hy
    obtain ⟨x, hx, hxt⟩ := Stream.Takes.of_kind_eq hk (by simp)
    have hsx := hts.trans hxt
    obtain ⟨us, hus, hl, hrow⟩ := ih (hsx.signed hs)
      (fun d hd => hok d (List.mem_append_right _ hd)) has'
    refine ⟨ts ++ x :: us, ?_, hl.cons hP hx, fun hn => .more hP hx (hrow hn)⟩
    simpa using hsx.trans hus
  | case4 s hc o a ha hk =>
    cases has
    obtain ⟨ts, hts, hP⟩ := h hs ⟨o.reports, by rw [← ha], hok⟩
    exact ⟨ts, hts, .row (.one hP), fun _ => .one hP⟩

theorem sound_row (h : r.Sound P) (m : Mark) (closed : TokenKind → Bool) :
    (row r m closed).Sound (Listed P m) := by
  rintro s as t hs ⟨reports, hr, hok⟩
  change rowFrom r m closed s = _ at hr
  obtain ⟨ts, hts, hl, -⟩ := sound_rowFrom h m closed hs (by rwa [hr]) (congrArg Outcome.result hr)
  rw [hr] at hts
  exact ⟨ts, hts, hl⟩

theorem sound_row₁ (h : r.Sound P) (m : Mark) : (row₁ r m).Sound (Row P m) := by
  rintro s as t hs ⟨reports, hr, hok⟩
  change rowFrom r m _ s = _ at hr
  obtain ⟨ts, hts, -, hrow⟩ := sound_rowFrom h m _ hs (by rwa [hr]) (congrArg Outcome.result hr)
  rw [hr] at hts
  exact ⟨ts, hts, hrow fun _ => rfl⟩

theorem isError_diagnostic (f : Fault) : f.diagnostic.isError = true := rfl

/-- What a reader yields behind the token `x` is a phrase that begins with `x`. -/
def SoundBehind (r : Reader α) (x : Token) (P : List Token → α → Prop) : Prop :=
  ∀ ⦃s t : Stream⦄ ⦃a u⦄, s.Signed → s.Takes [x] t → r.Yields t a u →
    ∃ ts, s.Takes (x :: ts) u ∧ P (x :: ts) a

/-- In a row with recovery that reports no error every item is good, so its phrases follow each
    other with no token between them. -/
theorem sound_itemsFrom {item : Token → Option (Reader α)} {expected : String}
    {closed : TokenKind → Bool} (resumption : Resumption closed)
    (h : ∀ x r, item x = some r → r.SoundBehind x P) {s : Stream} (hs : s.Signed)
    (hok : ∀ d ∈ (itemsFrom item expected resumption s).reports, d.isError = false) :
    ∃ rows, s.Takes rows.flatten (itemsFrom item expected resumption s).rest ∧
      List.Forall₂ P rows (itemsFrom item expected resumption s).items ∧
      ((∀ k, closed k = false) → (itemsFrom item expected resumption s).rest.rest = []) := by
  fun_induction itemsFrom item expected resumption s with
  | case1 s hr => exact ⟨[], .nil _, .nil, fun _ => hr⟩
  | case2 s x _ hr hc => exact ⟨[], .nil _, .nil, fun hn => by simp [hn] at hc⟩
  | case3 s x _ hr hc hpos hi _ tail ih =>
    exact absurd (hok _ (List.mem_cons_self ..)) (by simp [isError_diagnostic])
  | case4 s x _ hr hc hpos r hi o hlt a ha tail ih =>
    have hy : r.Yields (s.skip 1) a o.rest :=
      ⟨o.reports, by rw [← ha], fun d hd => hok d (List.mem_append_left _ hd)⟩
    obtain ⟨ts, hts, hP⟩ := h x r hi hs (.of_cons hr) hy
    obtain ⟨rows, hrows, hall, hend⟩ := ih (hts.signed hs) fun d hd =>
      hok d (List.mem_append_right _ hd)
    exact ⟨(x :: ts) :: rows, by simpa using hts.trans hrows, .cons hP hall, hend⟩
  | case5 s x _ hr hc hpos r hi o hlt f hf _ tail ih =>
    exact absurd (hok f.diagnostic (by simp)) (by simp [isError_diagnostic])

end Rows

/-! ### Texts -/

theorem sound_name (e : String) : (name e).Sound fun ts x => ts = [x] ∧ IsName x.kind := by
  rintro s x t - h
  obtain ⟨hx, ht⟩ := yields_name.mp h
  exact ⟨[x], ht, rfl, hx⟩

theorem sound_dotted (e : String) : (dotted e).Sound (Spelled Dotted) := by
  intro s sp u hs h
  simp only [dotted, yields_bind, yields_current, yields_spanFrom, yields_pure] at h
  obtain ⟨_, _, ⟨rfl, rfl⟩, parts, t, hrow, _, _, ⟨rfl, rfl⟩, rfl, rfl⟩ := h
  obtain ⟨ts, hts, hr⟩ := sound_row₁ (sound_name e) .dot hs hrow
  have hnames : Row Name .dot ts (parts.map Token.lexeme) := by
    refine hr.map ?_
    rintro _ x ⟨rfl, hx⟩
    exact .mk hx
  have hne : ts ≠ [] := hr.ne_nil (by rintro _ x ⟨rfl, -⟩; simp)
  exact ⟨ts, hts, ⟨_, hnames, rfl⟩, hts.merge_eq_covering hne⟩

/-- The closing brackets wrap the element between the opening ones, innermost first. -/
theorem sound_closings {depth : Nat} {text out : String} {ls ts : List Token} {s t : Stream}
    (h : (closings depth text).Yields s out t) (hlen : ls.length = depth)
    (hls : ∀ l ∈ ls, l.kind = .mark .leftBracket) (ht : TypeText ts text) :
    ∃ us, s.Takes us t ∧ TypeText (ls ++ ts ++ us) out := by
  induction depth generalizing text ls ts s with
  | zero =>
    obtain ⟨rfl, rfl⟩ := yields_pure.mp h
    obtain rfl := List.length_eq_zero_iff.mp hlen
    exact ⟨[], .nil _, by simpa using ht⟩
  | succ depth ih =>
    -- the last of the opening brackets is closed first
    obtain ⟨ls, l, rfl⟩ := (List.eq_nil_or_concat ls).resolve_left (by rintro rfl; simp at hlen)
    rw [List.concat_eq_append] at hlen hls ⊢
    have hl : l.kind = .mark .leftBracket := hls l (by simp)
    simp only [closings, yields_bind, yields_mark] at h
    obtain ⟨length, v, hb, r, w, ⟨hr, hrw⟩, h⟩ := h
    obtain ⟨us, hus, hlength⟩ : ∃ us, s.Takes us v ∧
        Behind .colon (fun ts (n : Token) => ts = [n] ∧ n.kind = .intLiteral) us length := by
      obtain ⟨b, x, hbx, ho⟩ := yields_bind.mp hb
      rcases yields_eat.mp hbx with ⟨rfl, c, hc, hcx⟩ | ⟨rfl, -, rfl⟩
      · obtain ⟨n, hn, rfl⟩ := yields_map.mp ho
        obtain ⟨hn, hnx⟩ := (yields_expect (by simp)).mp hn
        exact ⟨[c, n], hcx.trans hnx, .present hc ⟨rfl, hn⟩⟩
      · obtain ⟨rfl, rfl⟩ := yields_pure.mp ho
        exact ⟨[], .nil _, .absent⟩
    have hlen' : ls.length = depth := by simpa using hlen
    have hls' : ∀ l ∈ ls, l.kind = .mark .leftBracket := fun x hx =>
      hls x (List.mem_append_left _ hx)
    cases hlength with
    | absent =>
      obtain ⟨vs, hvs, htext⟩ := ih h hlen' hls' (.vector hl ht hr)
      exact ⟨[] ++ [r] ++ vs, (hus.trans hrw).trans hvs, by simpa using htext⟩
    | present hc hn =>
      obtain ⟨rfl, hn⟩ := hn
      obtain ⟨vs, hvs, htext⟩ := ih h hlen' hls' (.array hl ht hc hn hr)
      exact ⟨_, (hus.trans hrw).trans hvs, by simpa using htext⟩

/-- The opening brackets of a type are the left brackets at the front of the stream. -/
theorem takes_openings (s : Stream) :
    ∃ ls, s.Takes ls (s.skip (openings s.rest)) ∧ ls.length = openings s.rest ∧
      ∀ l ∈ ls, l.kind = .mark .leftBracket := by
  obtain ⟨r, hr⟩ := s.rest.takeWhile_prefix (·.kind == .mark .leftBracket)
  refine ⟨_, .of_append hr.symm, rfl, ?_⟩
  intro l hl
  simpa using List.mem_takeWhile_imp hl

theorem sound_type : Reader.type.Sound (Spelled TypeText) := by
  intro s sp u hs h
  simp only [Reader.type, yields_bind, yields_current, yields_upcoming, yields_skip] at h
  obtain ⟨_, _, ⟨rfl, rfl⟩, _, _, ⟨rfl, rfl⟩, _, _, rfl, element, t, helem, h⟩ := h
  obtain ⟨ls, hls, hlen, hl⟩ := takes_openings s
  obtain ⟨ts, hts, htext, hspan⟩ := sound_dotted _ (hls.signed hs) helem
  have hsts := hls.trans hts
  by_cases hd : openings s.rest = 0
  · rw [if_pos hd] at h
    obtain ⟨rfl, rfl⟩ := yields_pure.mp h
    obtain rfl := List.length_eq_zero_iff.mp (hlen.trans hd)
    exact ⟨ts, hsts, .dotted htext, hspan⟩
  · rw [if_neg hd] at h
    simp only [yields_bind, yields_spanFrom, yields_pure] at h
    obtain ⟨text, v, hclose, _, _, ⟨rfl, rfl⟩, rfl, rfl⟩ := h
    obtain ⟨us, hus, hout⟩ := sound_closings hclose hlen hl (.dotted htext)
    have hne : ls ++ ts ++ us ≠ [] := by
      rintro he
      simp only [List.append_eq_nil_iff] at he
      exact hd (by rw [← hlen, he.1.1]; rfl)
    exact ⟨_, hsts.trans hus, hout, (hsts.trans hus).merge_eq_covering hne⟩

theorem yields_optionalSign {s u : Stream} {sign : String}
    (h : scalar.optionalSign.Yields s sign u) :
    (∃ x, IsSign x.kind ∧ s.Takes [x] u ∧ sign = x.lexeme) ∨ (sign = "" ∧ s = u) := by
  simp only [scalar.optionalSign, yields_bind, yields_kind] at h
  obtain ⟨_, _, ⟨rfl, rfl⟩, h⟩ := h
  split at h
  · next hk =>
    simp only [yields_bind, yields_next, yields_pure] at h
    obtain ⟨x, _, ⟨rfl, rfl⟩, rfl, rfl⟩ := h
    left
    rw [Bool.or_eq_true, decide_eq_true_eq, decide_eq_true_eq] at hk
    rcases hk with hk | hk
    all_goals
      obtain ⟨x, hx, hsx⟩ := Stream.Takes.of_kind_eq hk (by simp)
      exact ⟨x, by simp [IsSign, hx], hsx, by rw [hsx.current_eq]⟩
  · exact .inr (yields_pure.mp h)

/-- Without a sign a scalar is a number, a string or any name. -/
theorem isScalar_empty {k : TokenKind} (h : isScalar "" k = true) :
    k = .stringLiteral ∨ k = .intLiteral ∨ k = .floatLiteral ∨ IsName k := by
  cases k <;> simp_all [isScalar, IsName]

/-- A sign goes with numbers, identifiers and truth values only. -/
theorem isScalar_sign {sign : String} {k : TokenKind} (hne : sign ≠ "")
    (h : isScalar sign k = true) : TakesSign k := by
  cases k with
  | keyword w => cases w <;> simp_all [isScalar, TakesSign]
  | _ => simp_all [isScalar, TakesSign]

theorem sound_scalar (e : String) (quoting : Bool) :
    (scalar e quoting).Sound (Spelled (ScalarText quoting)) := by
  intro s sp u hs h
  simp only [scalar, yields_bind, yields_current, yields_spanFrom, yields_pure,
    yields_accept (show isScalar _ .eof = false from rfl)] at h
  obtain ⟨_, _, ⟨rfl, rfl⟩, sign, v, hsign, t, w, ⟨ht, hvw⟩, _, _, ⟨rfl, rfl⟩, rfl, rfl⟩ := h
  rcases yields_optionalSign hsign with ⟨x, hx, hsv, rfl⟩ | ⟨rfl, rfl⟩
  · have hne : x.lexeme ≠ "" := hs x (by rw [hsv.rest]; simp) hx
    have hk : TakesSign t.kind := isScalar_sign hne ht
    have hstring : t.kind ≠ .stringLiteral := by
      intro h
      simp [TakesSign, h] at hk
    refine ⟨[x, t], hsv.trans hvw, ?_, (hsv.trans hvw).merge_eq_covering (by simp)⟩
    simpa [hstring] using ScalarText.signed hx hk
  · refine ⟨[t], hvw, ?_, hvw.merge_eq_covering (by simp)⟩
    rcases isScalar_empty ht with hk | hk
    · simpa [hk] using ScalarText.string hk
    · have hstring : t.kind ≠ .stringLiteral := by
        rintro h
        simp [IsName, h] at hk
      simpa [hstring] using ScalarText.plain hk

/-! ### Metadata -/

theorem sound_metadataEntry : metadataEntry.Sound Grammar.Entry := by
  intro s e u hs h
  simp only [metadataEntry, yields_bind, yields_name, yields_spanFrom, yields_pure] at h
  obtain ⟨key, t, ⟨hkey, hst⟩, value, v, hvalue, _, _, ⟨rfl, rfl⟩, rfl, rfl⟩ := h
  obtain ⟨ts, hts, hb⟩ := sound_behind .colon (sound_scalar _ _) (hst.signed hs) hvalue
  have hall : s.Takes (key :: ts) v := hst.trans hts
  refine ⟨key :: ts, hall, ?_⟩
  rw [hall.merge_span]
  exact .mk hkey hb

theorem sound_metadata : Reader.metadata.Sound Attributes := by
  intro s m u hs h
  simp only [Reader.metadata, yields_bind, yields_current] at h
  obtain ⟨_, _, ⟨rfl, rfl⟩, b, t, heat, h⟩ := h
  rcases yields_eat.mp heat with ⟨rfl, l, hl, hst⟩ | ⟨rfl, -, rfl⟩
  · simp only [if_true, yields_bind, yields_kind] at h
    obtain ⟨_, _, ⟨rfl, rfl⟩, h⟩ := h
    split at h
    · simp only [yields_bind, yields_mark, yields_spanFrom, yields_pure] at h
      obtain ⟨_, _, ⟨rfl, rfl⟩, r, w, ⟨hr, htw⟩, _, _, ⟨rfl, rfl⟩, rfl, rfl⟩ := h
      have hall := hst.trans htw
      refine ⟨_, hall, ?_⟩
      rw [hall.merge_eq_covering (by simp)]
      exact .empty hl hr
    · simp only [yields_bind, yields_mark, yields_spanFrom, yields_pure] at h
      obtain ⟨es, v, hes, r, w, ⟨hr, hvw⟩, _, _, ⟨rfl, rfl⟩, rfl, rfl⟩ := h
      obtain ⟨ts, hts, hrow⟩ := sound_row₁ sound_metadataEntry .comma (hst.signed hs) hes
      have hall := (hst.trans hts).trans hvw
      refine ⟨_, hall, ?_⟩
      rw [hall.merge_eq_covering (by simp)]
      exact .entries hl hrow hr
  · obtain ⟨rfl, rfl⟩ := yields_pure.mp h
    exact ⟨[], .nil _, .absent⟩

/-! ### Fields and values -/

theorem sound_field? (x : Token) (r : Reader FieldDecl) (h : field? x = some r) :
    r.SoundBehind x Field := by
  simp only [field?, Option.ite_none_right_eq_some, Option.some.injEq, isName_iff] at h
  obtain ⟨hx, rfl⟩ := h
  intro s t f u hs hst hy
  simp only [fieldBehind, yields_bind, yields_mark, yields_spanFrom, yields_pure] at hy
  obtain ⟨colon, t₁, ⟨hcolon, h₁⟩, type, t₂, htype, default, t₃, hdefault, metadata, t₄, hmetadata,
    semicolon, t₅, ⟨hsemicolon, h₅⟩, _, _, ⟨rfl, rfl⟩, rfl, rfl⟩ := hy
  have h₁ := hst.trans h₁
  obtain ⟨ts, hts, htype⟩ := sound_type (h₁.signed hs) htype
  have h₂ := h₁.trans hts
  obtain ⟨ds, hds, hdefault⟩ := sound_behind .equal (sound_scalar _ _) (h₂.signed hs) hdefault
  have h₃ := h₂.trans hds
  obtain ⟨ms, hms, hmetadata⟩ := sound_metadata (h₃.signed hs) hmetadata
  have hall : s.Takes (x :: colon :: (ts ++ ds ++ ms ++ [semicolon])) t₅ := by
    simpa using (h₃.trans hms).trans h₅
  refine ⟨_, hall, ?_⟩
  rw [hall.merge_span]
  exact .mk hx hcolon htype hdefault hmetadata hsemicolon rfl

theorem sound_enumValue : enumValue.Sound Value := by
  intro s v u hs h
  simp only [enumValue, yields_bind, yields_spanFrom, yields_pure] at h
  obtain ⟨name, t, hname, value, w, hvalue, _, _, ⟨rfl, rfl⟩, rfl, rfl⟩ := h
  obtain ⟨ns, hns, htext, hspan⟩ := sound_dotted _ hs hname
  obtain ⟨vs, hvs, hscalar⟩ := sound_behind .equal (sound_scalar _ _) (hns.signed hs) hvalue
  have hall := hns.trans hvs
  refine ⟨ns ++ vs, hall, ?_⟩
  have hlast : w.previous = (ns ++ vs).getLastD default := by
    obtain ⟨parts, hrow, -⟩ := htext
    have hne : ns ≠ [] := hrow.ne_nil (by rintro _ _ ⟨-⟩; simp)
    obtain ⟨x, r, rfl⟩ := List.exists_cons_of_ne_nil hne
    rw [hall.previous, List.cons_append, List.getLastD_cons, List.getLastD_cons]
  rw [hlast, hspan]
  exact .mk htext (hscalar.map fun _ _ h => h.1)

/-! ### Declarations -/

theorem sound_items {α : Type} {P : List Token → α → Prop} {item : Token → Option (Reader α)}
    {expected : String} {closed : TokenKind → Bool} (resumption : Resumption closed)
    (h : ∀ x r, item x = some r → r.SoundBehind x P) :
    (items item expected resumption).Sound fun ts as =>
      ∃ rows : List (List Token), ts = rows.flatten ∧ List.Forall₂ P rows as := by
  rintro s as t hs ⟨reports, hr, hok⟩
  simp only [items, Outcome.mk.injEq, Except.ok.injEq] at hr
  obtain ⟨rfl, rfl, rfl⟩ := hr
  obtain ⟨rows, hrows, hall, -⟩ := sound_itemsFrom resumption h hs hok
  exact ⟨_, hrows, rows, rfl, hall⟩

/-- A closing brace that is found closes a balanced row; behind it the outer braces are closed. -/
theorem exists_balanced_of_untilClosed {depth n : Nat} {ts : List Token}
    (h : Stream.untilClosed (depth + 1) ts = some n) :
    ∃ body r rest m, ts = body ++ r :: rest ∧ Balanced body ∧ r.kind = .mark .rightBrace ∧
      Stream.untilClosed depth rest = some m ∧ n = body.length + 1 + m := by
  induction hlen : ts.length using Nat.strongRecOn generalizing depth n ts with
  | _ length ih =>
  subst hlen
  cases ts with
  | nil => simp [Stream.untilClosed] at h
  | cons t ts =>
    simp only [Stream.untilClosed, Option.map_eq_some_iff] at h
    obtain ⟨k, hk, rfl⟩ := h
    split at hk
    · next ht =>
      -- a block opens: its own brace is found first, then the one that was looked for
      obtain ⟨inner, r, rest, m, rfl, hinner, hr, hm, rfl⟩ := ih ts.length (by simp) hk rfl
      obtain ⟨body, r', rest', m', rfl, hbody, hr', hm', rfl⟩ :=
        ih rest.length (by simp only [List.length_cons, List.length_append]; omega) hm rfl
      refine ⟨t :: inner ++ r :: body, r', rest', m', by simp, .block ht hinner hr hbody, hr', hm',
        ?_⟩
      simp only [List.length_append, List.length_cons]
      omega
    · next ht => exact ⟨[], t, ts, k, rfl, .nil, ht, hk, by simp [Nat.add_comm]⟩
    · next hl hr =>
      obtain ⟨body, r, rest, m, rfl, hbody, hrb, hm, rfl⟩ := ih ts.length (by simp) hk rfl
      refine ⟨t :: body, r, rest, m, rfl, .other hl hr hbody, hrb, hm, ?_⟩
      simp only [List.length_cons]
      omega

theorem takes_block {s u : Stream} {x : Unit} (h : block.Yields s x u) :
    ∃ body r, s.Takes (body ++ [r]) u ∧ Balanced body ∧ r.kind = .mark .rightBrace := by
  simp only [block, yields_bind, yields_upcoming] at h
  obtain ⟨_, _, ⟨rfl, rfl⟩, h⟩ := h
  split at h
  · next n hn =>
    obtain rfl := yields_skip.mp h
    obtain ⟨body, r, rest, m, hrest, hbody, hr, hm, rfl⟩ := exists_balanced_of_untilClosed hn
    obtain rfl : m = 0 := by simpa [Stream.untilClosed, eq_comm] using hm
    refine ⟨body, r, ?_, hbody, hr⟩
    have htakes : s.Takes (body ++ [r]) _ := .of_append (r := rest) (by simpa using hrest)
    simpa using htakes
  · obtain ⟨_, _, -, h⟩ := yields_bind.mp h
    exact absurd h not_yields_fail

theorem sound_directive {kind : Directive} {x : Token} {value : Reader String}
    (hx : x.kind = .keyword (directiveWord kind)) (hvalue : value.Sound (DirectiveText kind)) :
    (directive kind x.span value).SoundBehind x Declared := by
  intro s t d u hs hst h
  simp only [directive, yields_bind, yields_mark, yields_spanFrom, yields_pure] at h
  obtain ⟨text, v, htext, semicolon, w, ⟨hsemicolon, hvw⟩, _, _, ⟨rfl, rfl⟩, rfl, rfl⟩ := h
  obtain ⟨ts, hts, htext⟩ := hvalue (hst.signed hs) htext
  have hall : s.Takes (x :: (ts ++ [semicolon])) w := (hst.trans hts).trans hvw
  refine ⟨_, hall, ?_⟩
  rw [hall.merge_span]
  exact .directive hx htext hsemicolon rfl

theorem sound_string {e : String} {kind : Directive}
    (h : ∀ t : Token, t.kind = .stringLiteral → DirectiveText kind [t] t.lexeme) :
    (string e).Sound (DirectiveText kind) := by
  intro s text u hs hy
  obtain ⟨t, ht, rfl⟩ := yields_map.mp hy
  obtain ⟨ht, hsu⟩ := (yields_expect (by simp)).mp ht
  exact ⟨[t], hsu, h t ht⟩

theorem sound_attributeName : attributeName.Sound (DirectiveText .attributeName) := by
  intro s text u hs hy
  simp only [attributeName, yields_bind, yields_kind] at hy
  obtain ⟨_, _, ⟨rfl, rfl⟩, hy⟩ := hy
  split at hy
  · next hk =>
    obtain ⟨t, ht, rfl⟩ := yields_map.mp hy
    obtain ⟨rfl, rfl⟩ := yields_next.mp ht
    obtain ⟨t, ht, hst⟩ := Stream.Takes.of_kind_eq hk (by simp)
    rw [hst.current_eq]
    exact ⟨[t], hst, .attribute (.inl ht)⟩
  · obtain ⟨t, ht, rfl⟩ := yields_map.mp hy
    obtain ⟨ht, hst⟩ := yields_name.mp ht
    exact ⟨[t], hst, .attribute (.inr ht)⟩

theorem sound_path {e : String} {kind : Directive}
    (h : ∀ ts text, Dotted ts text → DirectiveText kind ts text) :
    (Spelling.text <$> dotted e).Sound (DirectiveText kind) := by
  intro s text u hs hy
  obtain ⟨sp, hsp, rfl⟩ := yields_map.mp hy
  obtain ⟨ts, hts, htext, -⟩ := sound_dotted e hs hsp
  exact ⟨ts, hts, h ts _ htext⟩

theorem sound_typeDecl {kind : TypeKind} {x : Token} (hx : x.kind = .keyword (typeWord kind)) :
    (typeDecl kind x.span).SoundBehind x Declared := by
  intro s t d u hs hst h
  simp only [typeDecl, yields_bind, yields_mark, yields_name, yields_spanFrom, yields_pure] at h
  obtain ⟨name, t₁, ⟨hname, h₁⟩, metadata, t₂, hmetadata, l, t₃, ⟨hl, h₃⟩, fs, t₄, hfields,
    r, t₅, ⟨hr, h₅⟩, _, _, ⟨rfl, rfl⟩, rfl, rfl⟩ := h
  have h₁ := hst.trans h₁
  obtain ⟨ms, hms, hmetadata⟩ := sound_metadata (h₁.signed hs) hmetadata
  have h₃ := (h₁.trans hms).trans h₃
  obtain ⟨_, hts, rows, rfl, hrows⟩ := sound_items _ sound_field? (h₃.signed hs) hfields
  have hall : s.Takes (x :: name :: (ms ++ l :: (rows.flatten ++ [r]))) t₅ := by
    simpa using (h₃.trans hts).trans h₅
  refine ⟨_, hall, ?_⟩
  rw [hall.merge_span]
  exact .type hx hname hmetadata hl hrows hr rfl

theorem sound_enumDecl {kind : EnumKind} {x : Token} (hx : x.kind = .keyword (enumWord kind)) :
    (enumDecl kind x.span).SoundBehind x Declared := by
  intro s t d u hs hst h
  simp only [enumDecl, yields_bind, yields_mark, yields_name, yields_spanFrom, yields_pure] at h
  obtain ⟨name, t₁, ⟨hname, h₁⟩, type, t₂, htype, metadata, t₃, hmetadata, l, t₄, ⟨hl, h₄⟩,
    values, t₅, hvalues, r, t₆, ⟨hr, h₆⟩, _, _, ⟨rfl, rfl⟩, rfl, rfl⟩ := h
  have h₁ := hst.trans h₁
  obtain ⟨ts, hts, htype⟩ := sound_behind .colon sound_type (h₁.signed hs) htype
  have h₂ := h₁.trans hts
  obtain ⟨ms, hms, hmetadata⟩ := sound_metadata (h₂.signed hs) hmetadata
  have h₄ := (h₂.trans hms).trans h₄
  obtain ⟨vs, hvs, hvalues⟩ := sound_row sound_enumValue .comma endsBlock (h₄.signed hs) hvalues
  have htype : Behind .colon TypeText ts (type.map Spelling.text) := htype.map fun _ _ h => h.1
  have hall : s.Takes (x :: name :: (ts ++ ms ++ l :: (vs ++ [r]))) t₆ := by
    simpa using (h₄.trans hvs).trans h₆
  refine ⟨_, hall, ?_⟩
  rw [hall.merge_span]
  exact .enum hx hname htype hmetadata hl hvalues hr rfl

theorem sound_service {x : Token} (hx : x.kind = .keyword .rpcServiceWord) :
    (service x.span).SoundBehind x Declared := by
  intro s t d u hs hst h
  simp only [service, yields_bind, yields_mark, yields_name, yields_spanFrom, yields_report,
    yields_pure] at h
  obtain ⟨name, t₁, ⟨hname, h₁⟩, l, t₂, ⟨hl, h₂⟩, _, t₃, hblock, _, _, ⟨rfl, rfl⟩, _, _,
    ⟨-, rfl⟩, rfl, rfl⟩ := h
  obtain ⟨body, r, hbody, hbalanced, hr⟩ := takes_block hblock
  have hall : s.Takes (x :: name :: l :: (body ++ [r])) t₃ :=
    ((hst.trans h₁).trans h₂).trans hbody
  refine ⟨_, hall, ?_⟩
  rw [hall.merge_span]
  exact .service hx hname hl hbalanced hr rfl

theorem sound_declaration? (x : Token) (r : Reader Declaration) (h : declaration? x = some r) :
    r.SoundBehind x Declared := by
  simp only [declaration?] at h
  split at h
  · next k hk =>
    cases k <;> simp only [production?, Option.some.injEq, reduceCtorEq] at h <;> subst h
    · exact sound_directive hk (sound_path fun _ _ => .path)
    · exact sound_directive hk (sound_string fun _ => .file)
    · exact sound_directive hk sound_attributeName
    · exact sound_typeDecl hk
    · exact sound_typeDecl hk
    · exact sound_enumDecl hk
    · exact sound_enumDecl hk
    · exact sound_directive hk (sound_path fun _ _ => .root)
    · exact sound_directive hk (sound_string fun _ => .identifier)
    · exact sound_directive hk (sound_string fun _ => .extension)
    · exact sound_service hk
  · cases h

end Reader

/-! ### Files -/

open Grammar

theorem Grammar.Declared.ne_nil {ts : List Token} {d : Declaration} (h : Declared ts d) :
    ts ≠ [] := by
  cases h <;> rintro rfl <;> simp_all

theorem Stream.signed_ofTokens {tokens : List Token}
    (h : ∀ t ∈ tokens, IsSign t.kind → t.lexeme ≠ "") : (Stream.ofTokens tokens).Signed :=
  fun t ht => h t (List.takeWhile_subset _ ht)

/-- Nothing is dropped and nothing invented: if reading reports no error, the tokens before the end
    of the file fall into one derivation for each declaration, in order. -/
theorem exists_derivations_of_no_error (tokens : List Token)
    (hsign : ∀ t ∈ tokens, IsSign t.kind → t.lexeme ≠ "")
    (hok : ∀ d ∈ (Parsed.ofTokens tokens).diagnostics, d.severity ≠ .error) :
    ∃ rows : List (List Token), rows.flatten = tokens.takeWhile (·.kind != .eof) ∧
      (∀ ts ∈ rows, ts ≠ []) ∧
      List.Forall₂ Declared rows (Parsed.ofTokens tokens).schema.declarations := by
  have hreports : ∀ d ∈ (Parsed.ofTokens tokens).diagnostics, d.isError = false := by
    intro d hd
    simpa [Diagnostic.isError] using hok d hd
  obtain ⟨rows, htakes, hall, hend⟩ := Reader.sound_itemsFrom Reader.declarationResumption
    Reader.sound_declaration? (Stream.signed_ofTokens hsign) hreports
  have hne : ∀ ts ∈ rows, ts ≠ [] :=
    ((List.forall₂_and_left _ _).mp (hall.imp fun _ _ h => ⟨h.ne_nil, h⟩)).1
  have hrest := htakes.rest
  rw [hend fun _ => rfl, List.append_nil] at hrest
  exact ⟨rows, hrest.symm, hne, hall⟩

/-- The tokens of a struct whose one field has a signed default. -/
def signedDefaultTokens : List Token :=
  (Lexed.ofSource "struct S \x7b x: [int] = -5 (id: 0); \x7d" "s.fbs").tokens

theorem exists_derivations_signed_default :
    (∀ t ∈ signedDefaultTokens, IsSign t.kind → t.lexeme ≠ "") ∧
    (∀ d ∈ (Parsed.ofTokens signedDefaultTokens).diagnostics, d.severity ≠ .error) ∧
    ∃ rows : List (List Token), rows.flatten = signedDefaultTokens.takeWhile (·.kind != .eof) ∧
      (∀ ts ∈ rows, ts ≠ []) ∧
      List.Forall₂ Declared rows (Parsed.ofTokens signedDefaultTokens).schema.declarations := by
  have hsign : ∀ t ∈ signedDefaultTokens, IsSign t.kind → t.lexeme ≠ "" := by decide +kernel
  have hok : ∀ d ∈ (Parsed.ofTokens signedDefaultTokens).diagnostics, d.severity ≠ .error := by
    decide +kernel
  exact ⟨hsign, hok, exists_derivations_of_no_error _ hsign hok⟩

end FlatSchema
