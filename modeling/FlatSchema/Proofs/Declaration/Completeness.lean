import FlatSchema.Declaration.Production
import FlatSchema.Proofs.Declaration.Taking

/-!
Reading is complete for the grammar: where a derivation stands at the front of a stream the reader
of its phrase takes exactly the tokens of the derivation, yields exactly what they spell, and
reports nothing. An optional part that is left out is only seen to be left out by what comes next,
so that a phrase is read up to a stream that does not go on with it.

        hp : [ int ] = 5 ;
        └name  └type   └default      read before  =      read before  ;
-/

namespace FlatSchema

theorem Grammar.IsName.ne_mark {k : TokenKind} (h : IsName k) (m : Mark) : k ≠ .mark m := by
  rcases h with rfl | ⟨w, rfl⟩ <;> simp

/-- What is said about a declaration that was read well. -/
def Declaration.remarks : Declaration → List Diagnostic
  | .service name span => [.warningAt s!"rpc_service `{name}` is ignored" span]
  | _ => []

theorem Declaration.isError_of_mem_remarks (d : Declaration) :
    ∀ r ∈ d.remarks, r.isError = false := by
  cases d <;> simp [remarks, Diagnostic.isError, Diagnostic.warningAt]

namespace Reader

open Grammar

variable {α β : Type}

/-- Reading `s` gives `a`, leaves `t` and reports nothing. -/
def Reads (r : Reader α) (s : Stream) (a : α) (t : Stream) : Prop := r.read s = ⟨.ok a, t, []⟩

/-- Every phrase that ends before `t` is read. -/
def Complete (r : Reader α) (P : List Token → α → Prop) (t : Stream) : Prop :=
  ∀ ⦃ts a s⦄, P ts a → s.Takes ts t → r.Reads s a t

section Steps

variable {r : Reader α} {s t u : Stream} {a : α} {x : Token}

theorem read_bind_ok {ds : List Diagnostic} (h : r.read s = ⟨.ok a, t, ds⟩) (k : α → Reader β) :
    (r >>= k).read s = { (k a).read t with reports := ds ++ ((k a).read t).reports } := by
  show (r.read s).andThen (fun a t => (k a).read t) = _
  rw [h]
  rfl

theorem read_bind (h : r.Reads s a t) (k : α → Reader β) : (r >>= k).read s = (k a).read t :=
  read_bind_ok h k

theorem reads_bind {k : α → Reader β} {b : β} (h : r.Reads s a t) (hk : (k a).Reads t b u) :
    (r >>= k).Reads s b u := by
  rw [Reads, read_bind h]
  exact hk

theorem reads_pure : (pure a : Reader α).Reads s a s := rfl

theorem reads_map {f : α → β} (h : r.Reads s a t) : (f <$> r).Reads s (f a) t :=
  reads_bind (k := fun a => pure (f a)) h reads_pure

theorem reads_current : current.Reads s s.current s := rfl

theorem reads_kind : kind.Reads s s.kind s := rfl

theorem reads_next (h : s.Takes [x] t) : next.Reads s x t := by
  show (⟨.ok s.current, s.skip 1, []⟩ : Outcome Token) = _
  rw [h.current_eq, h.skip_one]

theorem reads_accept {welcome : TokenKind → Bool} {e : String} (hx : welcome x.kind = true)
    (h : s.Takes [x] t) : (accept welcome e).Reads s x t := by
  refine reads_bind reads_kind ?_
  rw [h.kind_eq, if_pos hx]
  exact reads_next h

theorem reads_expect {k : TokenKind} {e : String} (hx : x.kind = k) (h : s.Takes [x] t) :
    (expect k e).Reads s x t :=
  reads_accept (by simp [hx]) h

theorem reads_mark {m : Mark} (hx : x.kind = .mark m) (h : s.Takes [x] t) :
    (mark m).Reads s x t :=
  reads_expect hx h

theorem reads_name {e : String} (hx : IsName x.kind) (h : s.Takes [x] t) :
    (name e).Reads s x t :=
  reads_accept (isName_iff.mpr hx) h

theorem reads_eat {m : Mark} (hx : x.kind = .mark m) (h : s.Takes [x] t) :
    (eat m).Reads s true t := by
  refine reads_bind reads_kind ?_
  rw [h.kind_eq, if_pos hx]
  exact reads_bind (reads_next h) reads_pure

theorem reads_eat_of_ne {m : Mark} (h : s.kind ≠ .mark m) : (eat m).Reads s false s := by
  refine reads_bind reads_kind ?_
  rw [if_neg h]
  exact reads_pure

/-- The span that is made behind a row covers it. -/
theorem reads_spanFrom {ts : List Token} (h : s.Takes (x :: ts) t) :
    (spanFrom x.span).Reads t (covering (x :: ts)) t := by
  rw [← h.merge_eq_covering (by simp), h.current_eq]
  rfl

theorem complete_behind {m : Mark} {P : List Token → α → Prop} (hr : r.Complete P t)
    (ht : t.kind ≠ .mark m) : (behind m r).Complete (Behind m P) t := by
  intro ts o s h hst
  cases h with
  | absent =>
    obtain rfl := hst.eq_of_nil
    exact reads_bind (reads_eat_of_ne ht) reads_pure
  | present hx ha =>
    obtain ⟨u, hsu, hut⟩ := hst.uncons
    exact reads_bind (reads_eat hx hsu) (reads_map (hr ha hut))

end Steps

/-! ### Rows -/

section Rows

variable {r : Reader α} {m : Mark} {closed : TokenKind → Bool} {s t u : Stream} {a : α}
  {P : List Token → α → Prop}

theorem rowFrom_none (hs : closed s.kind = true) : rowFrom r m closed s = ⟨.ok [], s, []⟩ := by
  rw [rowFrom, if_pos hs]

theorem rowFrom_one (hs : closed s.kind = false) (h : r.Reads s a t) (ht : t.kind ≠ .mark m) :
    rowFrom r m closed s = ⟨.ok [a], t, []⟩ := by
  rw [rowFrom, if_neg (by simp [hs])]
  simp only [show r.read s = _ from h, dif_neg ht]

theorem rowFrom_more {as : List α} (hs : closed s.kind = false) (h : r.Reads s a t)
    (ht : t.kind = .mark m) (htail : rowFrom r m closed (t.skip 1) = ⟨.ok as, u, []⟩) :
    rowFrom r m closed s = ⟨.ok (a :: as), u, []⟩ := by
  rw [rowFrom, if_neg (by simp [hs])]
  simp only [show r.read s = _ from h, dif_pos ht, htail]
  rfl

/-- A row is read up to `t`, where it ends, or up to a last separator behind which it is closed. -/
theorem rowFrom_of_row (hmark : ∀ u : Stream, u.kind = .mark m → r.Complete P u)
    (hopen : ∀ ts a (s t : Stream), P ts a → s.Takes ts t → closed s.kind = false)
    (ht : r.Complete P t)
    (hend : (t.kind ≠ .mark m ∧ u = t) ∨
      (t.kind = .mark m ∧ closed (t.skip 1).kind = true ∧ u = t.skip 1))
    {ts : List Token} {as : List α} (hrow : Row P m ts as) (hst : s.Takes ts t) :
    rowFrom r m closed s = ⟨.ok as, u, []⟩ := by
  induction hrow generalizing s with
  | one ha =>
    rcases hend with ⟨hk, rfl⟩ | ⟨hk, hclosed, rfl⟩
    · exact rowFrom_one (hopen _ _ _ _ ha hst) (ht ha hst) hk
    · exact rowFrom_more (hopen _ _ _ _ ha hst) (ht ha hst) hk (rowFrom_none hclosed)
  | more ha hx _ ih =>
    obtain ⟨v, hsv, hvt⟩ := hst.split
    obtain ⟨w, hvw, hwt⟩ := hvt.uncons
    have hv : v.kind = .mark m := hvt.kind_eq.trans hx
    refine rowFrom_more (hopen _ _ _ _ ha hsv) (hmark v hv ha hsv) hv ?_
    rw [hvw.skip_one]
    exact ih hwt

/-- A row starts as its first item does. -/
theorem kind_of_row {C : TokenKind → Prop}
    (h : ∀ ts a (s t : Stream), P ts a → s.Takes ts t → C s.kind) {ts : List Token} {as : List α}
    (hrow : Row P m ts as) (hst : s.Takes ts t) : C s.kind := by
  cases hrow with
  | one ha => exact h _ _ _ _ ha hst
  | more ha _ _ =>
    obtain ⟨v, hsv, -⟩ := hst.split
    exact h _ _ _ _ ha hsv

theorem complete_row₁ (hmark : ∀ u : Stream, u.kind = .mark m → r.Complete P u)
    (ht : r.Complete P t) (hend : t.kind ≠ .mark m) : (row₁ r m).Complete (Row P m) t :=
  fun _ _ _ hrow hst => rowFrom_of_row hmark (fun _ _ _ _ _ _ => rfl) ht (.inl ⟨hend, rfl⟩) hrow hst

theorem complete_row (hmark : ∀ u : Stream, u.kind = .mark m → r.Complete P u)
    (hopen : ∀ ts a (s t : Stream), P ts a → s.Takes ts t → closed s.kind = false)
    (ht : r.Complete P t) (hend : t.kind ≠ .mark m) (hclosed : closed t.kind = true) :
    (row r m closed).Complete (Listed P m) t := by
  intro ts as s h hst
  cases h with
  | none =>
    obtain rfl := hst.eq_of_nil
    exact rowFrom_none hclosed
  | row hrow => exact rowFrom_of_row hmark hopen ht (.inl ⟨hend, rfl⟩) hrow hst
  | @trailing _ x _ hrow hx =>
    obtain ⟨v, hsv, hvt⟩ := hst.split
    have hv : v.kind = .mark m := hvt.kind_eq.trans hx
    have hskip := hvt.skip_one
    refine rowFrom_of_row hmark hopen (hmark v hv) (.inr ⟨hv, ?_, hskip.symm⟩) hrow hsv
    rw [hskip]
    exact hclosed

end Rows

/-! ### Texts -/

theorem complete_name (e : String) (t : Stream) :
    (name e).Complete (fun ts x => ts = [x] ∧ IsName x.kind) t := by
  rintro _ x s ⟨rfl, hx⟩ hst
  exact reads_name hx hst

/-- The parts of a dotted name are lexemes of name tokens. -/
theorem exists_row_name {ts : List Token} {parts : List String} (h : Row Name .dot ts parts) :
    ∃ xs, Row (fun ts x => ts = [x] ∧ IsName x.kind) .dot ts xs ∧ parts = xs.map Token.lexeme := by
  induction h with
  | one hx =>
    obtain ⟨hx⟩ := hx
    exact ⟨_, .one ⟨rfl, hx⟩, rfl⟩
  | more hx ht _ ih =>
    obtain ⟨hx⟩ := hx
    obtain ⟨xs, hxs, rfl⟩ := ih
    exact ⟨_, .more ⟨rfl, hx⟩ ht hxs, rfl⟩

/-- A dotted name starts with a name. -/
theorem exists_cons_of_dotted {ts : List Token} {text : String} (h : Dotted ts text) :
    ∃ x r, ts = x :: r ∧ IsName x.kind := by
  obtain ⟨parts, hrow, -⟩ := h
  cases hrow with
  | one hx =>
    obtain ⟨hx⟩ := hx
    exact ⟨_, _, rfl, hx⟩
  | more hx _ _ =>
    obtain ⟨hx⟩ := hx
    exact ⟨_, _, rfl, hx⟩

theorem complete_dotted (e : String) {t : Stream} (ht : t.kind ≠ .mark .dot) :
    (dotted e).Complete (Spelled Dotted) t := by
  rintro ts ⟨text, span⟩ s ⟨hdotted, hspan⟩ hst
  obtain ⟨x, r, rfl, -⟩ := exists_cons_of_dotted hdotted
  obtain ⟨parts, hrow, rfl⟩ := hdotted
  obtain ⟨xs, hxs, rfl⟩ := exists_row_name hrow
  obtain rfl : span = _ := hspan
  have hrow := complete_row₁ (fun u _ => complete_name e u) (complete_name e t) ht hxs hst
  refine reads_bind reads_current (reads_bind hrow ?_)
  rw [hst.current_eq]
  exact reads_bind (reads_spanFrom hst) reads_pure

/-- What closes a type: brackets, each with an array length or without. -/
inductive Closings : List Token → String → String → Nat → Prop where
  | done {text : String} : Closings [] text text 0
  | vector {r : Token} {us : List Token} {text out : String} {depth : Nat} :
      r.kind = .mark .rightBracket → Closings us s!"[{text}]" out depth →
      Closings (r :: us) text out (depth + 1)
  | array {colon n r : Token} {us : List Token} {text out : String} {depth : Nat} :
      colon.kind = .mark .colon → n.kind = .intLiteral → r.kind = .mark .rightBracket →
      Closings us s!"[{text}:{n.lexeme}]" out depth →
      Closings (colon :: n :: r :: us) text out (depth + 1)

theorem complete_closings {us : List Token} {text out : String} {depth : Nat}
    (h : Closings us text out depth) {s t : Stream} (hst : s.Takes us t) :
    (closings depth text).Reads s out t := by
  induction h generalizing s with
  | done =>
    obtain rfl := hst.eq_of_nil
    exact reads_pure
  | vector hr _ ih =>
    obtain ⟨v, hsv, hvt⟩ := hst.uncons
    have hs : s.kind ≠ .mark .colon := by simp [hst.kind_eq, hr]
    refine reads_bind (reads_bind (reads_eat_of_ne hs) reads_pure) ?_
    exact reads_bind (reads_mark hr hsv) (ih hvt)
  | array hcolon hn hr _ ih =>
    obtain ⟨v, hsv, hvt⟩ := hst.uncons
    obtain ⟨w, hvw, hwt⟩ := hvt.uncons
    obtain ⟨y, hwy, hyt⟩ := hwt.uncons
    refine reads_bind (reads_bind (reads_eat hcolon hsv) (reads_map (reads_expect hn hvw))) ?_
    exact reads_bind (reads_mark hr hwy) (ih hyt)

theorem Closings.append {us vs : List Token} {elem text out : String} {m n : Nat}
    (h : Closings us elem text m) (k : Closings vs text out n) :
    Closings (us ++ vs) elem out (n + m) := by
  induction h with
  | done => exact k
  | vector hr _ ih => exact .vector hr (ih k)
  | array hcolon hn hr _ ih => exact .array hcolon hn hr (ih k)

/-- No dot stands where a type is closed, unless one follows the type. -/
theorem Closings.kind_ne {us : List Token} {text out : String} {depth : Nat}
    (h : Closings us text out depth) {s t : Stream} (hst : s.Takes us t)
    (ht : t.kind ≠ .mark .dot) : s.kind ≠ .mark .dot := by
  cases h with
  | done => rwa [← hst.eq_of_nil]
  | vector hr _ => simp [hst.kind_eq, hr]
  | array hcolon _ _ _ => simp [hst.kind_eq, hcolon]

/-- A type is a row of left brackets, a dotted name, and what closes the brackets, innermost
    first. -/
theorem exists_closings {ts : List Token} {text : String} (h : TypeText ts text) :
    ∃ ls ds us elem, ts = ls ++ (ds ++ us) ∧ (∀ l ∈ ls, l.kind = .mark .leftBracket) ∧
      Dotted ds elem ∧ Closings us elem text ls.length := by
  induction h with
  | @dotted ts text h => exact ⟨[], ts, [], text, by simp, by simp, h, .done⟩
  | @vector l r _ _ hl _ hr ih =>
    obtain ⟨ls, ds, us, elem, rfl, hls, hds, hus⟩ := ih
    refine ⟨l :: ls, ds, us ++ [r], elem, by simp, ?_, hds, ?_⟩
    · exact List.forall_mem_cons.mpr ⟨hl, hls⟩
    · rw [List.length_cons, Nat.add_comm]
      exact hus.append (.vector hr .done)
  | @array l colon n r _ _ hl _ hcolon hn hr ih =>
    obtain ⟨ls, ds, us, elem, rfl, hls, hds, hus⟩ := ih
    refine ⟨l :: ls, ds, us ++ [colon, n, r], elem, by simp, ?_, hds, ?_⟩
    · exact List.forall_mem_cons.mpr ⟨hl, hls⟩
    · rw [List.length_cons, Nat.add_comm]
      exact hus.append (.array hcolon hn hr .done)

theorem openings_append {ls rest : List Token} (hls : ∀ l ∈ ls, l.kind = .mark .leftBracket)
    (hrest : ∀ x ∈ rest.head?, x.kind ≠ .mark .leftBracket) :
    openings (ls ++ rest) = ls.length := by
  have htake : rest.takeWhile (·.kind == .mark .leftBracket) = [] := by
    cases rest with
    | nil => rfl
    | cons x r => exact List.takeWhile_cons_of_neg (by simpa using hrest x rfl)
  rw [openings, List.takeWhile_append_of_pos (by simpa using hls), htake, List.append_nil]

theorem complete_type {t : Stream} (ht : t.kind ≠ .mark .dot) :
    Reader.type.Complete (Spelled TypeText) t := by
  rintro ts ⟨text, span⟩ s ⟨htext, hspan⟩ hst
  obtain rfl : span = _ := hspan
  obtain ⟨ls, ds, us, elem, rfl, hls, hds, hus⟩ := exists_closings htext
  obtain ⟨x, r, rfl, hx⟩ := exists_cons_of_dotted hds
  obtain ⟨v, hsv, hvt⟩ := hst.split
  obtain ⟨w, hvw, hwt⟩ := hvt.split
  have hopenings : openings s.rest = ls.length := by
    rw [hsv.rest, openings_append hls]
    rintro y hy
    obtain rfl : x = y := by simpa [hvw.rest] using hy
    rcases hx with hx | ⟨k, hx⟩ <;> simp [hx]
  have helem : (dotted "type").Reads v ⟨elem, covering (x :: r)⟩ w :=
    complete_dotted _ (hus.kind_ne hwt ht) ⟨hds, rfl⟩ hvw
  have hskip : (skip ls.length).Reads s () v := congrArg (Outcome.mk _ · _) hsv.skip_length
  refine reads_bind reads_current (reads_bind (a := s.rest) rfl ?_)
  rw [hopenings]
  refine reads_bind hskip (reads_bind helem ?_)
  cases ls with
  | nil =>
    obtain rfl := hsv.eq_of_nil
    cases hus with
    | done =>
      obtain rfl := hwt.eq_of_nil
      simpa using reads_pure
  | cons l ls =>
    rw [if_neg (by simp), hst.current_eq]
    exact reads_bind (complete_closings hus hwt) (reads_bind (reads_spanFrom hst) reads_pure)

/-! ### Scalars and attributes -/

theorem isScalar_of_takesSign {k : TokenKind} (h : TakesSign k) (sign : String) :
    isScalar sign k = true := by
  rcases h with rfl | rfl | rfl | rfl | rfl <;> rfl

theorem isScalar_of_plain {k : TokenKind} (h : k = .intLiteral ∨ k = .floatLiteral ∨ IsName k) :
    isScalar "" k = true := by
  rcases h with rfl | rfl | rfl | ⟨w, rfl⟩
  · rfl
  · rfl
  · rfl
  · cases w <;> rfl

theorem reads_optionalSign {s t : Stream} {x : Token} (hx : IsSign x.kind) (h : s.Takes [x] t) :
    scalar.optionalSign.Reads s x.lexeme t := by
  refine reads_bind reads_kind ?_
  rw [h.kind_eq, if_pos (by simpa [IsSign] using hx)]
  exact reads_bind (reads_next h) reads_pure

theorem reads_optionalSign_of_not {s : Stream} (h : ¬ IsSign s.kind) :
    scalar.optionalSign.Reads s "" s := by
  refine reads_bind reads_kind ?_
  rw [if_neg (by simpa [IsSign] using h)]
  exact reads_pure

/-- A scalar of one token. -/
theorem reads_scalar_single (e : String) (quoting : Bool) {s t : Stream} {x : Token}
    (hx : isScalar "" x.kind = true) (h : s.Takes [x] t) :
    (scalar e quoting).Reads s
      ⟨if x.kind = .stringLiteral && quoting then s!"\"{x.lexeme}\"" else "" ++ x.lexeme,
        covering [x]⟩ t := by
  have hsign : ¬ IsSign s.kind := by
    rw [h.kind_eq]
    rintro (hk | hk) <;> simp [hk, isScalar] at hx
  refine reads_bind reads_current (reads_bind (reads_optionalSign_of_not hsign) ?_)
  refine reads_bind (reads_accept hx h) ?_
  rw [h.current_eq]
  exact reads_bind (reads_spanFrom h) reads_pure

theorem complete_scalar (e : String) (quoting : Bool) (t : Stream) :
    (scalar e quoting).Complete (Spelled (ScalarText quoting)) t := by
  rintro ts ⟨text, span⟩ s ⟨htext, hspan⟩ hst
  obtain rfl : span = _ := hspan
  change ScalarText quoting ts text at htext
  cases htext with
  | @string x hx =>
    have hread := reads_scalar_single e quoting (by rw [hx]; rfl) hst
    simpa [hx] using hread
  | @plain x hx =>
    have hread := reads_scalar_single e quoting (isScalar_of_plain hx) hst
    have hstring : x.kind ≠ .stringLiteral := by
      rintro hk
      simp [hk, IsName] at hx
    simpa [hstring] using hread
  | @signed sign x hsign hx =>
    obtain ⟨v, hsv, hvt⟩ := hst.uncons
    have hstring : x.kind ≠ .stringLiteral := by
      rintro hk
      simp [hk, TakesSign] at hx
    refine reads_bind reads_current (reads_bind (reads_optionalSign hsign hsv) ?_)
    refine reads_bind (reads_accept (isScalar_of_takesSign hx _) hvt) ?_
    rw [hst.current_eq, if_neg (by simp [hstring])]
    exact reads_bind (reads_spanFrom hst) reads_pure

theorem complete_metadataEntry {t : Stream} (ht : t.kind ≠ .mark .colon) :
    metadataEntry.Complete Grammar.Entry t := by
  rintro ts e s h hst
  obtain ⟨hkey, hvalue⟩ := h
  obtain ⟨v, hsv, hvt⟩ := hst.uncons
  have hread := complete_behind (complete_scalar "attribute value" false t) ht hvalue hvt
  refine reads_bind (reads_name hkey hsv) (reads_bind hread ?_)
  exact reads_bind (reads_spanFrom hst) reads_pure

/-- An attribute starts with a name. -/
theorem kind_of_entry {ts : List Token} {e : MetadataEntry} {s t : Stream}
    (h : Grammar.Entry ts e) (hst : s.Takes ts t) : IsName s.kind := by
  obtain ⟨hkey, -⟩ := h
  rwa [hst.kind_eq]

theorem complete_metadata {t : Stream} (ht : t.kind ≠ .mark .leftParen) :
    Reader.metadata.Complete Attributes t := by
  intro ts m s h hst
  cases h with
  | absent =>
    obtain rfl := hst.eq_of_nil
    exact reads_bind reads_current (reads_bind (reads_eat_of_ne ht) reads_pure)
  | empty hl hr =>
    obtain ⟨v, hsv, hvt⟩ := hst.uncons
    refine reads_bind reads_current (reads_bind (reads_eat hl hsv) (reads_bind reads_kind ?_))
    rw [if_pos (hvt.kind_eq.trans hr), hst.current_eq]
    refine reads_bind reads_pure (reads_bind (reads_mark hr hvt) ?_)
    exact reads_bind (reads_spanFrom hst) reads_pure
  | @entries l r ts es hl hes hr =>
    obtain ⟨v, hsv, hvt⟩ := Stream.Takes.uncons hst
    obtain ⟨w, hvw, hwt⟩ := hvt.split
    have hw : w.kind = .mark .rightParen := hwt.kind_eq.trans hr
    have hv : v.kind ≠ .mark .rightParen :=
      (kind_of_row (fun _ _ _ _ => kind_of_entry) hes hvw).ne_mark _
    have hrow : (row₁ metadataEntry .comma).Reads v es w := by
      refine complete_row₁ (fun u hu => ?_) ?_ ?_ hes hvw
      · exact complete_metadataEntry (by simp [hu])
      · exact complete_metadataEntry (by simp [hw])
      · simp [hw]
    refine reads_bind reads_current (reads_bind (reads_eat hl hsv) (reads_bind reads_kind ?_))
    rw [if_neg hv, hst.current_eq]
    refine reads_bind hrow (reads_bind (reads_mark hr hwt) ?_)
    exact reads_bind (reads_spanFrom hst) reads_pure

/-! ### Fields and values -/

/-- Behind the token that a phrase begins with, the reader that the token chooses reads the
    phrase. -/
def CompleteBehind (item : Token → Option (Reader α)) (P : List Token → α → Prop)
    (reports : α → List Diagnostic) : Prop :=
  ∀ ⦃ts a⦄ ⦃s t : Stream⦄, P ts a → s.Takes ts t → ∃ x r, s.Takes [x] (s.skip 1) ∧
    item x = some r ∧ r.read (s.skip 1) = ⟨.ok a, t, reports a⟩

/-- A phrase is read if the reader that its first token chooses reads the others. -/
theorem exists_read_behind {item : Token → Option (Reader α)} {x : Token} {ts : List Token}
    {r : Reader α} {s t : Stream} {o : Outcome α} (hst : s.Takes (x :: ts) t)
    (hitem : item x = some r)
    (hread : ∀ u, s.Takes [x] u → u.Takes ts t → r.read u = o) :
    ∃ x r, s.Takes [x] (s.skip 1) ∧ item x = some r ∧ r.read (s.skip 1) = o := by
  obtain ⟨u, hsu, hut⟩ := hst.uncons
  rw [hsu.skip_one]
  exact ⟨x, r, hsu, hitem, hread u hsu hut⟩

/-- Where a part in front of `t` is left out, what comes next is what comes at `t`. -/
theorem kind_of_behind {m n : Mark} {P : List Token → α → Prop} {ts : List Token} {o : Option α}
    {s t : Stream} (h : Behind m P ts o) (hst : s.Takes ts t) (hmn : m ≠ n)
    (ht : t.kind ≠ .mark n) : s.kind ≠ .mark n := by
  cases h with
  | absent => rwa [← hst.eq_of_nil]
  | present hx _ => simpa [hst.kind_eq, hx] using hmn

theorem kind_of_attributes {n : Mark} {ts : List Token} {m : Metadata} {s t : Stream}
    (h : Attributes ts m) (hst : s.Takes ts t) (hn : .leftParen ≠ n) (ht : t.kind ≠ .mark n) :
    s.kind ≠ .mark n := by
  cases h with
  | absent => rwa [← hst.eq_of_nil]
  | empty hl _ => simpa [hst.kind_eq, hl] using hn
  | entries hl _ _ =>
    rw [List.cons_append] at hst
    simpa [hst.kind_eq, hl] using hn

theorem completeBehind_field? : CompleteBehind field? Field fun _ => [] := by
  rintro ts f s t ⟨hx, hcolon, htype, hdefault, hmetadata, hsemicolon, rfl⟩ hst
  next x colon semicolon typeTokens defaultTokens metadataTokens type default metadata =>
  refine exists_read_behind hst (if_pos (isName_iff.mpr hx)) fun s₁ _ hrest => ?_
  obtain ⟨s₂, h₂, hrest⟩ := hrest.uncons
  obtain ⟨s₅, hrest, h₅⟩ := hrest.split
  obtain ⟨s₄, hrest, h₄⟩ := hrest.split
  obtain ⟨s₃, h₃, hdefaults⟩ := hrest.split
  have hk₅ : s₅.kind = .mark .semicolon := h₅.kind_eq.trans hsemicolon
  have hk₄ {n : Mark} (hn : .leftParen ≠ n) (hne : n ≠ .semicolon) : s₄.kind ≠ .mark n :=
    kind_of_attributes hmetadata h₄ hn (by simpa [hk₅] using Ne.symm hne)
  have hk₃ : s₃.kind ≠ .mark .dot :=
    kind_of_behind hdefault hdefaults (by simp) (hk₄ (by simp) (by simp))
  refine reads_bind (reads_mark hcolon h₂) (reads_bind (complete_type hk₃ htype h₃) ?_)
  refine reads_bind (complete_behind (complete_scalar _ true s₄) (hk₄ (by simp) (by simp))
    hdefault hdefaults) ?_
  refine reads_bind (complete_metadata (by simp [hk₅]) hmetadata h₄) ?_
  exact reads_bind (reads_mark hsemicolon h₅) (reads_bind (reads_spanFrom hst) reads_pure)

/-- The scalar of a value has a place too, which is not kept. -/
theorem exists_spelled_of_behind {m : Mark} {P : List Token → String → Prop} {ts : List Token}
    {o : Option String} (h : Behind m P ts o) :
    ∃ o', Behind m (Spelled P) ts o' ∧ o = o'.map Spelling.text := by
  cases h with
  | absent => exact ⟨none, .absent, rfl⟩
  | present hx ha => exact ⟨some ⟨_, covering _⟩, .present hx ⟨ha, rfl⟩, rfl⟩

theorem complete_enumValue {t : Stream} (hdot : t.kind ≠ .mark .dot)
    (hequal : t.kind ≠ .mark .equal) :
    enumValue.Complete Value t := by
  rintro ts v s ⟨hname, hscalar⟩ hst
  next nameTokens scalarTokens name scalar =>
  obtain ⟨o, hspelled, rfl⟩ := exists_spelled_of_behind hscalar
  obtain ⟨u, hsu, hut⟩ := hst.split
  have hu : u.kind ≠ .mark .dot := kind_of_behind hspelled hut (by simp) hdot
  have hdotted : Spelled Dotted nameTokens ⟨name, covering nameTokens⟩ := ⟨hname, rfl⟩
  have hlast : t.previous = (nameTokens ++ scalarTokens).getLastD default := by
    obtain ⟨x, r, rfl, -⟩ := exists_cons_of_dotted hname
    rw [hst.previous, List.cons_append, List.getLastD_cons, List.getLastD_cons]
  refine reads_bind (complete_dotted "enum value" hu hdotted hsu) ?_
  refine reads_bind (complete_behind (complete_scalar _ false t) hequal hspelled hut) ?_
  rw [← hlast]
  exact reads_bind (r := spanFrom _) rfl reads_pure

/-! ### Rows with recovery -/

section Items

variable {item : Token → Option (Reader α)} {closed : TokenKind → Bool} {s t : Stream}
  {P : List Token → α → Prop} {reports : α → List Diagnostic}

/-- What is read at a token depends on the reader that the token chooses. -/
theorem itemsFrom_eq (expected : String) (resumption : Resumption closed) {x : Token}
    (hs : closed s.kind = false) (hx : s.Takes [x] (s.skip 1)) :
    itemsFrom item expected resumption s =
      match item x with
      | none =>
        let tail := itemsFrom item expected resumption (resumption.resume s)
        { tail with reports := Fault.diagnostic ⟨expected, x⟩ :: tail.reports }
      | some r =>
        let o := r.read (s.skip 1)
        match o.result with
        | .ok a =>
          let tail := itemsFrom item expected resumption o.rest
          { tail with items := a :: tail.items, reports := o.reports ++ tail.reports }
        | .error f =>
          let tail := itemsFrom item expected resumption (resumption.resume o.rest)
          { tail with reports := o.reports ++ f.diagnostic :: tail.reports } := by
  rw [itemsFrom]
  split
  · next hnil => simp [hx.rest] at hnil
  · next y _ hcons =>
    obtain rfl : x = y := by
      have hrest := hx.rest
      rw [hcons] at hrest
      exact (List.cons.inj hrest).1.symm
    rewrite [dif_neg (by simp [hs])]
    cases item x with
    | none => rfl
    | some r => rfl

/-- A good item is the first of the items. -/
theorem itemsFrom_step (expected : String) (resumption : Resumption closed) {x : Token}
    {r : Reader α} {a : α} {ds : List Diagnostic} (hs : closed s.kind = false)
    (hx : s.Takes [x] (s.skip 1)) (hitem : item x = some r)
    (hread : r.read (s.skip 1) = ⟨.ok a, t, ds⟩) :
    itemsFrom item expected resumption s =
      { itemsFrom item expected resumption t with
        items := a :: (itemsFrom item expected resumption t).items
        reports := ds ++ (itemsFrom item expected resumption t).reports } := by
  rw [itemsFrom_eq expected resumption hs hx, hitem]
  simp only [hread]

/-- Where there is nothing to read, or the row is closed, there are no items. -/
theorem itemsFrom_of_closed (expected : String) (resumption : Resumption closed)
    (hend : t.rest = [] ∨ closed t.kind = true) :
    itemsFrom item expected resumption t = ⟨[], t, []⟩ := by
  rw [itemsFrom]
  split
  · rfl
  · next hcons =>
    have hclosed : closed t.kind = true := hend.resolve_left (by simp [hcons])
    rw [dif_pos hclosed]

/-- Good items one after the other are all read, whatever follows them. -/
theorem itemsFrom_append (expected : String) (resumption : Resumption closed)
    (h : CompleteBehind item P reports)
    (hopen : ∀ ts a (s t : Stream), P ts a → s.Takes ts t → closed s.kind = false)
    {rows : List (List Token)} {as : List α} (hall : List.Forall₂ P rows as)
    (hst : s.Takes rows.flatten t) :
    itemsFrom item expected resumption s =
      { itemsFrom item expected resumption t with
        items := as ++ (itemsFrom item expected resumption t).items
        reports := as.flatMap reports ++ (itemsFrom item expected resumption t).reports } := by
  induction hall generalizing s with
  | nil =>
    obtain rfl := hst.eq_of_nil
    rfl
  | cons ha _ ih =>
    obtain ⟨u, hsu, hut⟩ := hst.split
    obtain ⟨x, r, hx, hitem, hread⟩ := h ha hsu
    rw [itemsFrom_step expected resumption (hopen _ _ _ _ ha hsu) hx hitem hread, ih hut,
      List.flatMap_cons, List.append_assoc, List.cons_append]

/-- Good items one after the other are all read, up to where they are closed. -/
theorem itemsFrom_of_rows (expected : String) (resumption : Resumption closed)
    (h : CompleteBehind item P reports)
    (hopen : ∀ ts a (s t : Stream), P ts a → s.Takes ts t → closed s.kind = false)
    {rows : List (List Token)} {as : List α} (hall : List.Forall₂ P rows as)
    (hst : s.Takes rows.flatten t) (hend : t.rest = [] ∨ closed t.kind = true) :
    itemsFrom item expected resumption s = ⟨as, t, as.flatMap reports⟩ := by
  rw [itemsFrom_append expected resumption h hopen hall hst, itemsFrom_of_closed _ _ hend,
    List.append_nil, List.append_nil]

end Items

/-! ### Declarations -/

theorem complete_fields {t : Stream} (ht : t.kind = .mark .rightBrace) :
    fields.Complete (fun ts fs => ∃ rows : List (List Token), ts = rows.flatten ∧
      List.Forall₂ Field rows fs) t := by
  rintro ts fs s ⟨rows, rfl, hall⟩ hst
  have hopen : ∀ ts f (s t : Stream), Field ts f → s.Takes ts t → endsBlock s.kind = false := by
    rintro ts f s t ⟨hx, _, _, _, _, _, rfl⟩ hst
    rw [hst.kind_eq]
    rcases hx with hx | ⟨w, hx⟩ <;> rw [hx] <;> rfl
  have hread := itemsFrom_of_rows "field name" fieldResumption completeBehind_field? hopen hall hst
    (.inr (by rw [ht]; rfl))
  show (⟨.ok _, _, _⟩ : Outcome (List FieldDecl)) = _
  rw [hread]
  simp

theorem complete_values {t : Stream} (ht : t.kind = .mark .rightBrace) :
    (row enumValue .comma endsBlock).Complete (Listed Value .comma) t := by
  have hopen : ∀ ts v (s t : Stream), Value ts v → s.Takes ts t → endsBlock s.kind = false := by
    rintro ts v s t ⟨hname, -⟩ hst
    obtain ⟨x, r, rfl, hx⟩ := exists_cons_of_dotted hname
    rw [List.cons_append] at hst
    rw [hst.kind_eq]
    rcases hx with hx | ⟨w, hx⟩ <;> rw [hx] <;> rfl
  refine complete_row (fun u hu => ?_) hopen ?_ (by simp [ht]) (by rw [ht]; rfl)
  · exact complete_enumValue (by simp [hu]) (by simp [hu])
  · exact complete_enumValue (by simp [ht]) (by simp [ht])

/-- The right brace behind a balanced row is the one that closes the braces around it. -/
theorem untilClosed_append {body : List Token} (h : Balanced body) {r : Token}
    (hr : r.kind = .mark .rightBrace) (rest : List Token) (depth : Nat) :
    Stream.untilClosed (depth + 1) (body ++ r :: rest) =
      (Stream.untilClosed depth rest).map (· + (body.length + 1)) := by
  induction h generalizing depth rest r with
  | nil => simp [Stream.untilClosed, hr]
  | other hl hright _ ih =>
    rw [List.cons_append, Stream.untilClosed]
    split
    · next hx => exact absurd hx hl
    · next hx => exact absurd hx hright
    · simp [ih hr, Function.comp_def, Nat.add_assoc]
  | @block l r' inner ts hl _ hr' _ ihinner ihts =>
    -- first the brace of the block is looked for, one level deeper, then the one around it
    rw [List.cons_append, List.cons_append, List.append_assoc, List.cons_append, Stream.untilClosed]
    simp only [hl, ihinner hr', ihts hr, Option.map_map, Function.comp_def, List.length_cons,
      List.length_append]
    congr 1
    funext n
    omega

theorem reads_block {s t : Stream} {body : List Token} {r : Token} (hbody : Balanced body)
    (hr : r.kind = .mark .rightBrace) (hst : s.Takes (body ++ [r]) t) : block.Reads s () t := by
  have hclosed : Stream.untilClosed 1 s.rest = some (body ++ [r]).length := by
    rw [hst.rest, List.append_assoc, List.singleton_append, untilClosed_append hbody hr]
    simp [Stream.untilClosed]
  refine reads_bind (a := s.rest) rfl ?_
  rw [hclosed]
  exact congrArg (Outcome.mk _ · _) hst.skip_length

section Productions

variable {s t u : Stream} {word : Token} {ts : List Token}

theorem reads_directive {kind : Directive} {value : Reader String} {text : String}
    {semicolon : Token} (hvalue : value.Reads s text u)
    (hsemicolon : semicolon.kind = .mark .semicolon) (hut : u.Takes [semicolon] t) {v : Stream}
    (hall : v.Takes (word :: ts) t) :
    (directive kind word.span value).Reads s (.directive kind text (covering (word :: ts))) t :=
  reads_bind hvalue (reads_bind (reads_mark hsemicolon hut) (reads_bind (reads_spanFrom hall)
    reads_pure))

theorem complete_string {kind : Directive} (e : String)
    (hkind : kind = .includedFile ∨ kind = .fileIdentifier ∨ kind = .fileExtension) (t : Stream) :
    (string e).Complete (DirectiveText kind) t := by
  intro us text s htext hst
  obtain ⟨x, rfl, hx, rfl⟩ : ∃ x : Token, us = [x] ∧ x.kind = .stringLiteral ∧ text = x.lexeme := by
    rcases hkind with rfl | rfl | rfl <;> cases htext <;> exact ⟨_, rfl, by assumption, rfl⟩
  exact reads_map (reads_expect hx hst)

theorem complete_path {kind : Directive} (e : String)
    (hkind : kind = .namespacePath ∨ kind = .rootType) {t : Stream} (ht : t.kind ≠ .mark .dot) :
    (Spelling.text <$> dotted e).Complete (DirectiveText kind) t := by
  intro us text s htext hst
  have hdotted : Dotted us text := by
    rcases hkind with rfl | rfl <;> cases htext <;> assumption
  have hspelled : Spelled Dotted us ⟨text, covering us⟩ := ⟨hdotted, rfl⟩
  exact reads_map (complete_dotted e ht hspelled hst)

theorem complete_attributeName (t : Stream) :
    attributeName.Complete (DirectiveText .attributeName) t := by
  intro us text s htext hst
  cases htext
  next x hx =>
  refine reads_bind reads_kind ?_
  rw [hst.kind_eq]
  rcases hx with hx | hx
  · rw [if_pos hx]
    exact reads_map (reads_next hst)
  · rw [if_neg (by rcases hx with hx | ⟨w, hx⟩ <;> simp [hx])]
    exact reads_map (reads_name hx hst)

/-- A table or a struct is read whatever there is to report of its fields. -/
theorem read_typeDecl {kind : TypeKind} {name l r : Token} {metadataTokens fieldTokens : List Token}
    {metadata : Metadata} {fs : List FieldDecl} {ds : List Diagnostic} (hname : IsName name.kind)
    (hmetadata : Attributes metadataTokens metadata) (hl : l.kind = .mark .leftBrace)
    (hfields : ∀ v w : Stream, v.Takes fieldTokens w → w.kind = .mark .rightBrace →
      fields.read v = ⟨.ok fs, w, ds⟩)
    (hr : r.kind = .mark .rightBrace)
    (hts : ts = name :: (metadataTokens ++ l :: (fieldTokens ++ [r]))) (hsu : s.Takes [word] u)
    (hut : u.Takes ts t) :
    (typeDecl kind word.span).read u =
      ⟨.ok (.type ⟨kind, name.lexeme, metadata, fs, covering (word :: ts)⟩), t, ds⟩ := by
  have hall : s.Takes (word :: ts) t := hsu.trans hut
  subst hts
  obtain ⟨s₁, h₁, hrest⟩ := hut.uncons
  obtain ⟨s₂, h₂, hrest⟩ := hrest.split
  have hk₂ : s₂.kind ≠ .mark .leftParen := by simp [hrest.kind_eq, hl]
  obtain ⟨s₃, h₃, hrest⟩ := hrest.uncons
  obtain ⟨s₄, h₄, h₅⟩ := hrest.split
  rw [typeDecl, read_bind (reads_name hname h₁), read_bind (complete_metadata hk₂ hmetadata h₂),
    read_bind (reads_mark hl h₃), read_bind_ok (hfields s₃ s₄ h₄ (h₅.kind_eq.trans hr)),
    read_bind (reads_mark hr h₅), read_bind (reads_spanFrom hall)]
  exact congrArg (Outcome.mk _ _) (List.append_nil ds)

theorem reads_typeDecl {kind : TypeKind} {name l r : Token} {metadataTokens : List Token}
    {rows : List (List Token)} {metadata : Metadata} {fs : List FieldDecl}
    (hname : IsName name.kind) (hmetadata : Attributes metadataTokens metadata)
    (hl : l.kind = .mark .leftBrace) (hfields : List.Forall₂ Field rows fs)
    (hr : r.kind = .mark .rightBrace)
    (hts : ts = name :: (metadataTokens ++ l :: (rows.flatten ++ [r]))) (hsu : s.Takes [word] u)
    (hut : u.Takes ts t) :
    (typeDecl kind word.span).Reads u
      (.type ⟨kind, name.lexeme, metadata, fs, covering (word :: ts)⟩) t :=
  read_typeDecl hname hmetadata hl (fun _ _ hst ht => complete_fields ht ⟨rows, rfl, hfields⟩ hst)
    hr hts hsu hut

theorem reads_enumDecl {kind : EnumKind} {name l r : Token}
    {typeTokens metadataTokens valueTokens : List Token} {type : Option String}
    {metadata : Metadata} {values : List EnumValue} (hname : IsName name.kind)
    (htype : Behind .colon TypeText typeTokens type)
    (hmetadata : Attributes metadataTokens metadata) (hl : l.kind = .mark .leftBrace)
    (hvalues : Listed Value .comma valueTokens values) (hr : r.kind = .mark .rightBrace)
    (hts : ts = name :: (typeTokens ++ metadataTokens ++ l :: (valueTokens ++ [r])))
    (hsu : s.Takes [word] u) (hut : u.Takes ts t) :
    (enumDecl kind word.span).Reads u
      (.enum ⟨kind, name.lexeme, type, metadata, values, covering (word :: ts)⟩) t := by
  have hall : s.Takes (word :: ts) t := hsu.trans hut
  subst hts
  obtain ⟨type, hspelled, rfl⟩ := exists_spelled_of_behind htype
  obtain ⟨s₁, h₁, hrest⟩ := hut.uncons
  obtain ⟨s₃, hfront, hrest⟩ := hrest.split
  obtain ⟨s₂, h₂, h₃⟩ := hfront.split
  have hk₃ : s₃.kind = .mark .leftBrace := hrest.kind_eq.trans hl
  have hk₂ {n : Mark} (hn : .leftParen ≠ n) (hne : n ≠ .leftBrace) : s₂.kind ≠ .mark n :=
    kind_of_attributes hmetadata h₃ hn (by simpa [hk₃] using Ne.symm hne)
  obtain ⟨s₄, h₄, hrest⟩ := hrest.uncons
  obtain ⟨s₅, h₅, h₆⟩ := hrest.split
  have hk₅ : s₅.kind = .mark .rightBrace := h₆.kind_eq.trans hr
  have hdot : s₂.kind ≠ .mark .dot := hk₂ (by simp) (by simp)
  have hcolon : s₂.kind ≠ .mark .colon := hk₂ (by simp) (by simp)
  have hread := complete_behind (complete_type hdot) hcolon hspelled h₂
  refine reads_bind (reads_name hname h₁) (reads_bind hread ?_)
  refine reads_bind (complete_metadata (by simp [hk₃]) hmetadata h₃) ?_
  refine reads_bind (reads_mark hl h₄) (reads_bind (complete_values hk₅ hvalues h₅) ?_)
  exact reads_bind (reads_mark hr h₆) (reads_bind (reads_spanFrom hall) reads_pure)

/-- A service is the one declaration that is remarked on. -/
theorem read_service {name l r : Token} {body : List Token} (hname : IsName name.kind)
    (hl : l.kind = .mark .leftBrace) (hbody : Balanced body) (hr : r.kind = .mark .rightBrace)
    (hts : ts = name :: l :: (body ++ [r])) (hsu : s.Takes [word] u) (hut : u.Takes ts t) :
    (service word.span).read u = ⟨.ok (.service name.lexeme (covering (word :: ts))), t,
      (Declaration.service name.lexeme (covering (word :: ts))).remarks⟩ := by
  have hall : s.Takes (word :: ts) t := hsu.trans hut
  subst hts
  obtain ⟨s₁, h₁, hrest⟩ := hut.uncons
  obtain ⟨s₂, h₂, hrest⟩ := hrest.uncons
  rw [service, read_bind (reads_name hname h₁), read_bind (reads_mark hl h₂),
    read_bind (reads_block hbody hr hrest), read_bind (reads_spanFrom hall)]
  rfl

/-- A keyword chooses its production. -/
theorem declaration?_of_keyword {w : Keyword} (hw : word.kind = .keyword w) :
    declaration? word = production? w word.span := by
  rw [declaration?, hw]

/-- The text of a directive is read if no dot follows it. -/
theorem exists_complete_directive {kind : Directive}
    (hword : word.kind = .keyword (directiveWord kind)) :
    ∃ r, declaration? word = some (directive kind word.span r) ∧
      ∀ v : Stream, v.kind ≠ .mark .dot → r.Complete (DirectiveText kind) v := by
  rw [declaration?_of_keyword hword]
  cases kind
  · exact ⟨_, rfl, fun v hv => complete_path _ (by simp) hv⟩
  · exact ⟨_, rfl, fun v _ => complete_string _ (by simp) v⟩
  · exact ⟨_, rfl, fun v _ => complete_attributeName v⟩
  · exact ⟨_, rfl, fun v hv => complete_path _ (by simp) hv⟩
  · exact ⟨_, rfl, fun v _ => complete_string _ (by simp) v⟩
  · exact ⟨_, rfl, fun v _ => complete_string _ (by simp) v⟩

/-- The production that a keyword chooses reads every derivation that starts with it. -/
theorem completeBehind_declaration? :
    CompleteBehind declaration? Declared Declaration.remarks := by
  intro ts d s t h hst
  cases h with
  | @directive kind word semicolon valueTokens _ value hword hvalue hsemicolon hts =>
    subst hts
    obtain ⟨r, hr, hcomplete⟩ := exists_complete_directive hword
    refine exists_read_behind hst hr fun u _ hut => ?_
    obtain ⟨v, huv, hvt⟩ := hut.split
    have hv : v.kind ≠ .mark .dot := by simp [hvt.kind_eq, hsemicolon]
    exact reads_directive (hcomplete v hv hvalue huv) hsemicolon hvt hst
  | @type kind word _ _ _ _ _ _ _ _ hword hname hmetadata hl hfields hr hts =>
    subst hts
    have hitem : declaration? word = some (typeDecl kind word.span) := by
      rw [declaration?_of_keyword hword]
      cases kind <;> rfl
    exact exists_read_behind hst hitem fun u => reads_typeDecl hname hmetadata hl hfields hr rfl
  | @enum kind word _ _ _ _ _ _ _ _ _ _ hword hname htype hmetadata hl hvalues hr hts =>
    subst hts
    have hitem : declaration? word = some (enumDecl kind word.span) := by
      rw [declaration?_of_keyword hword]
      cases kind <;> rfl
    exact exists_read_behind hst hitem fun u =>
      reads_enumDecl hname htype hmetadata hl hvalues hr rfl
  | @service word _ _ _ _ _ hword hname hl hbody hr hts =>
    subst hts
    exact exists_read_behind hst (declaration?_of_keyword hword) fun u =>
      read_service hname hl hbody hr rfl

end Productions

end Reader

/-! ### Files -/

open Grammar

/-- Where the tokens before the end of the file are derivations one after the other, reading gives
    their declarations and the remarks on them. -/
theorem Parsed.ofTokens_of_derivations {tokens : List Token} {rows : List (List Token)}
    {ds : List Declaration} (htokens : tokens.takeWhile (·.kind != .eof) = rows.flatten)
    (hall : List.Forall₂ Declared rows ds) :
    (ofTokens tokens).schema.declarations = ds ∧
      (ofTokens tokens).diagnostics = ds.flatMap Declaration.remarks := by
  have hst : (Stream.ofTokens tokens).Takes rows.flatten
      ((Stream.ofTokens tokens).skip rows.flatten.length) :=
    .of_append (r := []) (by rw [List.append_nil]; exact htokens)
  have hend : ((Stream.ofTokens tokens).skip rows.flatten.length).rest = [] := by
    show (Stream.body tokens).drop _ = []
    rw [Stream.body, htokens, List.drop_length]
  have hread := Reader.itemsFrom_of_rows "declaration" Reader.declarationResumption
    Reader.completeBehind_declaration? (fun _ _ _ _ _ _ => rfl) hall hst (.inl hend)
  exact ⟨congrArg Reader.Items.items hread, congrArg Reader.Items.reports hread⟩

end FlatSchema
