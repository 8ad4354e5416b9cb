import FlatSchema.Proofs.Declaration.Fence
import FlatSchema.Proofs.Declaration.Scattered

/-!
How far a mistake reaches. Between semicolons whatever is wrong is one error, and what stands before
and behind it is read as if the mistake were not there.

        table T { hp: int;  hp int [;  mp: int; }      ; ) = ;  namespace a;
                  └field─┘  └error──┘  └field─┘        ╵ └─┘    └declared──┘

A row is isolated if reading it gives the same items and reports wherever it stands, and goes on
behind it. Isolated rows one after the other are read one by one.
-/

namespace FlatSchema

/-! ### Rows up to a semicolon -/

namespace Grammar

/-- Tokens of which `P` holds, none of them a semicolon, and a semicolon behind them. -/
inductive Ended (P : Token → Prop) : List Token → Prop where
  | mk {ts row : List Token} {semicolon : Token} :
      (∀ t ∈ ts, t.kind ≠ .mark .semicolon ∧ P t) → semicolon.kind = .mark .semicolon →
      row = ts ++ [semicolon] → Ended P row

theorem ended_iff {P : Token → Prop} {row : List Token} : Ended P row ↔
    (∃ last ∈ row.getLast?, last.kind = .mark .semicolon) ∧
      ∀ t ∈ row.dropLast, t.kind ≠ .mark .semicolon ∧ P t := by
  constructor
  · rintro ⟨hts, hsemicolon, rfl⟩
    exact ⟨⟨_, List.getLast?_concat, hsemicolon⟩, by rwa [List.dropLast_concat]⟩
  · rintro ⟨⟨last, hlast, hsemicolon⟩, hts⟩
    exact .mk hts hsemicolon (List.dropLast_append_getLast? last hlast).symm

instance {P : Token → Prop} [DecidablePred P] : DecidablePred (Ended P) :=
  fun _ => decidable_of_iff _ ended_iff.symm

/-- Any tokens up to a semicolon, but none that opens a declaration. -/
def Junk : List Token → Prop :=
  Ended fun t => t.kind ≠ .eof ∧ Stream.opensDeclaration t.kind = false

/-- Any tokens up to a semicolon that stand between braces; signs among them have their lexemes, as
    signs in a text do. -/
def Chunk : List Token → Prop :=
  Ended fun t => t.kind ≠ .mark .rightBrace ∧ t.kind ≠ .eof ∧ (IsSign t.kind → t.lexeme ≠ "")

instance : DecidablePred Junk := inferInstanceAs (DecidablePred (Ended _))

instance : DecidablePred Chunk := inferInstanceAs (DecidablePred (Ended _))

/-- What comes of a row: the item it is and no error, or one error at one of its tokens. -/
inductive Settled {α : Type} (P : List Token → α → Prop) (remarks : α → List Diagnostic)
    (row : List Token) : List α → List Diagnostic → Prop where
  | item {a : α} : P row a → (∀ d ∈ remarks a, d.isError = false) →
      Settled P remarks row [a] (remarks a)
  | fault {f : Fault} : (∀ a, ¬ P row a) → f.found ∈ row →
      Settled P remarks row [] [f.diagnostic]

variable {P : Token → Prop} {row : List Token}

theorem Ended.mono {Q : Token → Prop} (h : Ended P row) (hpq : ∀ t, P t → Q t) : Ended Q row := by
  obtain ⟨hts, hsemicolon, hrow⟩ := h
  exact ⟨fun t ht => ⟨(hts t ht).1, hpq t (hts t ht).2⟩, hsemicolon, hrow⟩

/-- What holds of semicolons too holds of the whole row. -/
theorem Ended.forall_mem (h : Ended P row) (hp : ∀ t : Token, t.kind = .mark .semicolon → P t) :
    ∀ t ∈ row, P t := by
  obtain ⟨hts, hsemicolon, rfl⟩ := h
  intro t ht
  rcases List.mem_append.mp ht with ht | ht
  · exact (hts t ht).2
  · rw [List.mem_singleton.mp ht]
    exact hp _ hsemicolon

/-- Nothing of the row stands behind a semicolon of it. -/
theorem Ended.eq_nil_of_append {ts rest : List Token} {semicolon : Token}
    (h : Ended P (ts ++ [semicolon] ++ rest)) (hsemicolon : semicolon.kind = .mark .semicolon) :
    rest = [] := by
  obtain ⟨hus, -, hrow⟩ := h
  next us last =>
  obtain rfl | ⟨init, x, rfl⟩ := rest.eq_nil_or_concat'
  · rfl
  · rw [← List.append_assoc] at hrow
    obtain ⟨rfl, -⟩ := List.append_inj' hrow rfl
    exact absurd hsemicolon (hus semicolon (by simp)).1

/-- What is left of the row, if anything, is such a row. -/
theorem Ended.of_append {ts rest : List Token} (h : Ended P (ts ++ rest)) (hne : rest ≠ []) :
    Ended P rest := by
  obtain ⟨hus, hsemicolon, hrow⟩ := h
  obtain rfl | ⟨init, x, rfl⟩ := rest.eq_nil_or_concat'
  · exact absurd rfl hne
  · rw [← List.append_assoc] at hrow
    obtain ⟨rfl, hx⟩ := List.append_inj' hrow rfl
    obtain rfl := List.singleton_inj.mp hx
    exact ⟨fun t ht => hus t (List.mem_append_right _ ht), hsemicolon, rfl⟩

/-- A row that goes on behind its first token. -/
theorem Ended.tail {x : Token} {ts : List Token} (h : Ended P (x :: ts))
    (hx : x.kind ≠ .mark .semicolon) : Ended P ts := by
  rw [← List.singleton_append] at h
  refine h.of_append ?_
  rintro rfl
  obtain ⟨-, hsemicolon, hrow⟩ := h
  rw [List.append_nil, ← List.nil_append [x]] at hrow
  obtain rfl := List.singleton_inj.mp (List.append_inj' hrow rfl).2
  exact hx hsemicolon

/-- A row with its semicolon still to come. -/
theorem Ended.fenced {s : Stream} (h : Ended P s.rest) : s.Fenced := by
  obtain ⟨-, hsemicolon, hrow⟩ := h
  exact ⟨_, by rw [hrow]; simp, hsemicolon⟩

end Grammar

open Grammar

namespace Stream

variable {s t : Stream} {row ts : List Token} {semicolon : Token}

theorem untilSemicolon_append
    (hts : ∀ x ∈ ts, x.kind ≠ .mark .semicolon ∧ x.kind ≠ .mark .rightBrace)
    (hsemicolon : semicolon.kind = .mark .semicolon) (more : List Token) :
    untilSemicolon (ts ++ semicolon :: more) = ts.length + 1 := by
  induction ts with
  | nil => simp [untilSemicolon, hsemicolon]
  | cons x ts ih =>
    obtain ⟨hx, hts⟩ := List.forall_mem_cons.mp hts
    rw [List.cons_append, untilSemicolon, if_neg hx.1, if_neg hx.2, ih hts, List.length_cons]

/-- Behind a semicolon reading resumes, whatever is there. -/
@[simp] theorem untilDeclaration_semicolon (more : List Token) :
    untilDeclaration (.mark .semicolon) more = 0 := by
  cases more <;> simp [untilDeclaration]

theorem untilDeclaration_append
    (hts : ∀ x ∈ ts, x.kind ≠ .mark .semicolon ∧ opensDeclaration x.kind = false)
    (hsemicolon : semicolon.kind = .mark .semicolon) {before : TokenKind}
    (hbefore : before ≠ .mark .semicolon) (more : List Token) :
    untilDeclaration before (ts ++ semicolon :: more) = ts.length + 1 := by
  induction ts generalizing before with
  | nil => simp [untilDeclaration, hbefore, hsemicolon, opensDeclaration]
  | cons x ts ih =>
    obtain ⟨hx, hts⟩ := List.forall_mem_cons.mp hts
    rw [List.cons_append, untilDeclaration, if_neg (by simp [hbefore, hx.2]), ih hts hx.1,
      List.length_cons]

/-- A stream goes on behind a row as `u` does with the row alone, and what `u` leaves of the row is
    left of it. -/
theorem Takes.append_of_takes {u v w : Stream} {lost : List Token} (h : v.Takes u.rest t)
    (hprevious : v.previous = u.previous) (hlost : u.Takes lost w) :
    v = u.append t ∧ (w.append t).Takes w.rest t := by
  refine ⟨?_, rfl, ?_, rfl⟩
  · obtain ⟨hrest, -, hstop⟩ := h
    cases v
    simp_all [append]
  · show t.previous = w.rest.getLastD w.previous
    rw [h.previous, hlost.rest, getLastD_append, hlost.previous, hprevious]

/-- A bad field is passed over up to its semicolon. -/
theorem pastSemicolon_eq (hrow : Ended (fun x => x.kind ≠ .mark .rightBrace) row)
    (hst : s.Takes row t) : s.pastSemicolon = t := by
  obtain ⟨hts, hsemicolon, rfl⟩ := hrow
  rw [pastSemicolon, hst.rest, List.append_assoc, List.singleton_append,
    untilSemicolon_append hts hsemicolon, ← hst.skip_length, List.length_append,
    List.length_singleton]

/-- Junk is passed over up to its semicolon. -/
theorem atDeclaration_eq (hrow : Junk row) (hst : s.Takes row t) : s.atDeclaration = t := by
  obtain ⟨hts, hsemicolon, rfl⟩ := hrow
  next ts semicolon =>
  cases ts with
  | nil =>
    have hskip : s.skip 1 = t := hst.skip_one
    have hbefore : t.previous = semicolon := hst.previous
    rw [atDeclaration, hskip, hbefore, hsemicolon, untilDeclaration_semicolon, skip_zero]
  | cons x ts =>
    obtain ⟨hx, hts⟩ := List.forall_mem_cons.mp hts
    rw [List.cons_append] at hst
    obtain ⟨u, hsu, hut⟩ := hst.uncons
    have hbefore : u.previous = x := hsu.previous
    rw [atDeclaration, hsu.skip_one, hbefore, hut.rest, List.append_assoc, List.singleton_append,
      untilDeclaration_append (fun y hy => ⟨(hts y hy).1, (hts y hy).2.2⟩) hsemicolon hx.1,
      ← hut.skip_length, List.length_append, List.length_singleton]

end Stream

/-! ### Isolated rows -/

namespace Reader

section Isolated

variable {α : Type} {item : Token → Option (Reader α)} {expected : String}
  {closed : TokenKind → Bool} {resumption : Resumption closed} {row : List Token} {as : List α}
  {ds : List Diagnostic} {s t : Stream}

/-- Wherever the row stands, reading it gives `as` and reports `ds`, and goes on behind it. -/
def Isolated (item : Token → Option (Reader α)) (expected : String) {closed : TokenKind → Bool}
    (resumption : Resumption closed) (row : List Token) (as : List α) (ds : List Diagnostic) :
    Prop :=
  ∀ ⦃s t : Stream⦄, s.Takes row t → itemsFrom item expected resumption s =
    { itemsFrom item expected resumption t with
      items := as ++ (itemsFrom item expected resumption t).items
      reports := ds ++ (itemsFrom item expected resumption t).reports }

/-- Isolated rows one after the other are read one by one. -/
theorem Isolated.flatten {rows : List (List Token)} {items : List Token → List α}
    {reports : List Token → List Diagnostic}
    (h : ∀ row ∈ rows, Isolated item expected resumption row (items row) (reports row)) :
    Isolated item expected resumption rows.flatten (rows.flatMap items) (rows.flatMap reports) := by
  induction rows with
  | nil =>
    intro s t hst
    obtain rfl := hst.eq_of_nil
    rfl
  | cons row rows ih =>
    obtain ⟨hrow, hrows⟩ := List.forall_mem_cons.mp h
    intro s t hst
    obtain ⟨u, hsu, hut⟩ := Stream.Takes.split hst
    rw [hrow hsu, ih hrows hut, List.flatMap_cons, List.flatMap_cons, List.append_assoc,
      List.append_assoc]

/-- An isolated row with nothing behind it. -/
theorem Isolated.itemsFrom_eq (h : Isolated item expected resumption row as ds)
    (hst : s.Takes row t) (hend : t.rest = [] ∨ closed t.kind = true) :
    itemsFrom item expected resumption s = ⟨as, t, ds⟩ := by
  rw [h hst, itemsFrom_of_closed _ _ hend, List.append_nil, List.append_nil]

/-- A good item is isolated. -/
theorem isolated_of_item {P : List Token → α → Prop} {remarks : α → List Diagnostic} {a : α}
    (h : CompleteBehind item P remarks) (hrow : P row a)
    (hopen : ∀ s t : Stream, s.Takes row t → closed s.kind = false) :
    Isolated item expected resumption row [a] (remarks a) := by
  intro s t hst
  obtain ⟨x, r, hx, hitem, hread⟩ := h hrow hst
  exact itemsFrom_step expected resumption (hopen s t hst) hx hitem hread

/-- A row that begins with a token that begins no item is isolated if it is what is passed over. -/
theorem isolated_of_none {x : Token} {ts : List Token} (hitem : item x = none)
    (hclosed : closed x.kind = false)
    (hresume : ∀ s t : Stream, s.Takes (x :: ts) t → resumption.resume s = t) :
    Isolated item expected resumption (x :: ts) [] [Fault.diagnostic ⟨expected, x⟩] := by
  intro s t hst
  obtain ⟨u, hsu, -⟩ := hst.uncons
  have hopen : closed s.kind = false := by rwa [hst.kind_eq]
  rw [Reader.itemsFrom_eq expected resumption hopen (hsu.skip_one ▸ hsu), hitem]
  simp only [hresume s t hst]
  rfl

end Isolated

/-! ### Declarations and junk -/

theorem declaration?_eq_none {x : Token} (h : Stream.opensDeclaration x.kind = false) :
    declaration? x = none := by
  rw [declaration?]
  split
  · next w hw =>
    rw [hw] at h
    cases w <;> first | rfl | cases h
  · rfl

/-- A token that opens a declaration is the first of every derivation. -/
theorem opensDeclaration_of_declared {x : Token} {ts : List Token} {d : Declaration}
    (h : Declared (x :: ts) d) : Stream.opensDeclaration x.kind = true := by
  cases h with
  | @directive kind _ _ _ _ _ hword _ _ hts =>
    obtain ⟨rfl, -⟩ := List.cons.inj hts
    cases kind <;> rw [hword] <;> rfl
  | @type kind _ _ _ _ _ _ _ _ _ hword _ _ _ _ _ hts =>
    obtain ⟨rfl, -⟩ := List.cons.inj hts
    cases kind <;> rw [hword] <;> rfl
  | @enum kind _ _ _ _ _ _ _ _ _ _ _ hword _ _ _ _ _ _ hts =>
    obtain ⟨rfl, -⟩ := List.cons.inj hts
    cases kind <;> rw [hword] <;> rfl
  | service hword _ _ _ _ hts =>
    obtain ⟨rfl, -⟩ := List.cons.inj hts
    rw [hword]
    rfl

theorem isolated_of_declared {row : List Token} {d : Declaration} (h : Declared row d) :
    Isolated declaration? "declaration" declarationResumption row [d] d.remarks :=
  isolated_of_item completeBehind_declaration? h fun _ _ _ => rfl

/-- Junk is one error, at its first token. -/
theorem exists_isolated_of_junk {row : List Token} (h : Junk row) : ∃ x ∈ row.head?,
    (∀ d, ¬ Declared row d) ∧ Isolated declaration? "declaration" declarationResumption row []
      [Fault.diagnostic ⟨"declaration", x⟩] := by
  have hopens : ∀ t ∈ row, Stream.opensDeclaration t.kind = false := by
    refine (h.mono fun t ht => ht.2).forall_mem fun t ht => ?_
    rw [ht]
    rfl
  cases row with
  | nil =>
    obtain ⟨-, -, hrow⟩ := h
    simp at hrow
  | cons x ts =>
    have hx := hopens x (List.mem_cons_self ..)
    refine ⟨x, rfl, fun d hd => ?_, ?_⟩
    · rw [opensDeclaration_of_declared hd] at hx
      cases hx
    · exact isolated_of_none (declaration?_eq_none hx) rfl fun _ _ => Stream.atDeclaration_eq h

/-! ### Fields and bad fields -/

/-- What is read of a row alone, as the fields of a table or a struct. -/
def fieldsOf (row : List Token) : Items FieldDecl :=
  itemsFrom field? "field name" fieldResumption (Stream.ofTokens row)

/-- A field ends with a semicolon. -/
theorem exists_concat_of_field {row : List Token} {f : FieldDecl} (h : Field row f) :
    ∃ ts semicolon, row = ts ++ [semicolon] ∧ semicolon.kind = .mark .semicolon := by
  obtain ⟨-, -, -, -, -, hsemicolon, hrow⟩ := h
  next name colon semicolon typeTokens defaultTokens metadataTokens type default metadata =>
  exact ⟨name :: colon :: (typeTokens ++ defaultTokens ++ metadataTokens), semicolon,
    by simpa using hrow, hsemicolon⟩

theorem endsBlock_of_isName {k : TokenKind} (h : k.isName = true) : endsBlock k = false := by
  rcases isName_iff.mp h with rfl | ⟨w, rfl⟩ <;> rfl

/-- A chunk that is no field is refused if nothing follows it. -/
theorem exists_refused {u : Stream} {r : Reader FieldDecl} (hchunk : Chunk (u.previous :: u.rest))
    (hitem : field? u.previous = some r) (hfield : ∀ f, ¬ Field (u.previous :: u.rest) f) :
    ∃ f, (r.read u).result = .error f := by
  cases hresult : (r.read u).result with
  | error f => exact ⟨f, rfl⟩
  | ok f =>
    exfalso
    have hfirst : Stream.Takes ⟨u.previous, u.previous :: u.rest, u.stop⟩ [u.previous] u :=
      ⟨rfl, rfl, rfl⟩
    have hsigned : Stream.Signed ⟨u.previous, u.previous :: u.rest, u.stop⟩ :=
      (hchunk.mono fun _ ht => ht.2.2).forall_mem fun t ht hsign => by
        rw [ht] at hsign
        rcases hsign with h | h <;> cases h
    have hyields : r.Yields u f (r.read u).rest :=
      Quiet.yields (Strict.quiet (strict_field? _ r hitem)) ⟨(r.read u).reports, by rw [← hresult]⟩
    obtain ⟨us, hus, hderived⟩ := sound_field? _ r hitem hsigned hfirst hyields
    have hcut : u.previous :: u.rest = u.previous :: us ++ (r.read u).rest.rest := hus.rest
    -- what was read ends with a semicolon, and the chunk has no other than its last token
    obtain ⟨init, semicolon, hinit, hsemicolon⟩ := exists_concat_of_field hderived
    have hnil : (r.read u).rest.rest = [] := by
      rw [hcut, hinit] at hchunk
      exact Ended.eq_nil_of_append hchunk hsemicolon
    rw [hnil, List.append_nil] at hcut
    exact hfield f (hcut ▸ hderived)

/-- A chunk that is no field is refused before its semicolon, whatever follows the chunk. -/
theorem isolated_of_refused {x : Token} {ts : List Token} {r : Reader FieldDecl}
    (hchunk : Chunk (x :: ts)) (hitem : field? x = some r) (hfield : ∀ f, ¬ Field (x :: ts) f) :
    ∃ f : Fault, f.found ∈ x :: ts ∧
      Isolated field? "field name" fieldResumption (x :: ts) [] [f.diagnostic] := by
  have hname : x.kind.isName = true := by
    simp only [field?, Option.ite_none_right_eq_some] at hitem
    exact hitem.1
  have hended := hchunk.tail fun hx => by simp [hx, TokenKind.isName, TokenKind.isKeyword] at hname
  obtain ⟨u, rfl, rfl⟩ : ∃ u : Stream, u.previous = x ∧ u.rest = ts := ⟨⟨x, ts, x⟩, rfl, rfl⟩
  obtain ⟨f, hresult⟩ := exists_refused hchunk hitem hfield
  obtain ⟨hsilent, hrefused⟩ := strict_field? _ r hitem u
  have hfenced (t : Stream) := fencedOnFault_field? _ r hitem t hended.fenced
  -- what is left of the chunk alone is its end
  obtain ⟨lost, hlost⟩ := (r.ahead u).exists_takes
  have hne : (r.read u).rest.rest ≠ [] := ((hfenced u).2 f hresult).ne_nil
  have hleft : Ended _ (r.read u).rest.rest := Ended.of_append (hlost.rest ▸ hended) hne
  refine ⟨f, ?_, fun s t hst => ?_⟩
  · obtain ⟨y, ys, hy⟩ := List.exists_cons_of_ne_nil hne
    rw [hrefused f hresult, Stream.current, hlost.rest, hy]
    simp
  · obtain ⟨v, hsv, hvt⟩ := hst.uncons
    obtain rfl := hsv.skip_one
    obtain ⟨hsame, hrest⟩ := hvt.append_of_takes hsv.previous hlost
    have hread : r.read (s.skip 1) = ⟨.error f, (r.read u).rest.append t, []⟩ := by
      rw [hsame, (hfenced t).1, Outcome.append, hresult, hsilent]
    have hopen : endsBlock s.kind = false := by
      rw [hst.kind_eq]
      exact endsBlock_of_isName hname
    have hresume : ((r.read u).rest.append t).pastSemicolon = t :=
      Stream.pastSemicolon_eq (hleft.mono fun _ h => h.1) hrest
    rw [itemsFrom_fault "field name" fieldResumption hopen hsv hitem hread]
    simp only [fieldResumption, hresume]
    rfl

/-- A chunk is a field or one error, wherever it stands. -/
theorem exists_isolated_of_chunk {row : List Token} (hchunk : Chunk row) : ∃ fs ds,
    Isolated field? "field name" fieldResumption row fs ds ∧
      Settled Field (fun _ => []) row fs ds := by
  by_cases hfield : ∃ f, Field row f
  · obtain ⟨f, hf⟩ := hfield
    refine ⟨[f], [], isolated_of_item completeBehind_field? hf fun s t hst => ?_,
      .item hf (by simp)⟩
    obtain ⟨hx, -, -, -, -, -, rfl⟩ := hf
    rw [hst.kind_eq]
    exact endsBlock_of_isName (isName_iff.mpr hx)
  · rw [not_exists] at hfield
    have hopen : ∀ t ∈ row, endsBlock t.kind = false := by
      refine (hchunk.mono fun t ht => ?_).forall_mem fun t ht => by rw [ht]; rfl
      simp [endsBlock, ht.1, ht.2.1]
    have hpast : Ended (fun t => t.kind ≠ .mark .rightBrace) row := hchunk.mono fun _ ht => ht.1
    cases row with
    | nil =>
      obtain ⟨-, -, hrow⟩ := hchunk
      simp at hrow
    | cons x ts =>
      cases hitem : field? x with
      | none =>
        refine ⟨[], _, isolated_of_none hitem (hopen x (List.mem_cons_self ..)) ?_,
          .fault hfield (List.mem_cons_self ..)⟩
        exact fun _ _ => Stream.pastSemicolon_eq hpast
      | some r =>
        obtain ⟨f, hf, hisolated⟩ := isolated_of_refused hchunk hitem hfield
        exact ⟨[], _, hisolated, .fault hfield hf⟩

theorem Isolated.fieldsOf_eq {row : List Token} {fs : List FieldDecl} {ds : List Diagnostic}
    (h : Isolated field? "field name" fieldResumption row fs ds) (heof : ∀ t ∈ row, t.kind ≠ .eof) :
    (fieldsOf row).items = fs ∧ (fieldsOf row).reports = ds := by
  have hbody : (Stream.ofTokens row).rest = row :=
    List.takeWhile_eq_self_iff.mpr (by simpa using heof)
  have hst := Stream.Takes.of_append (hbody.trans (List.append_nil row).symm)
  have hend : ((Stream.ofTokens row).skip row.length).rest = [] := by
    show (Stream.ofTokens row).rest.drop row.length = []
    rw [hbody, List.drop_length]
  rw [fieldsOf, h.itemsFrom_eq hst (.inl hend)]
  exact ⟨rfl, rfl⟩

/-- Chunks one after the other are read one by one, each as if it stood alone. -/
theorem isolated_chunks {rows : List (List Token)} (hrows : ∀ row ∈ rows, Chunk row) :
    Isolated field? "field name" fieldResumption rows.flatten
        (rows.flatMap fun row => (fieldsOf row).items)
        (rows.flatMap fun row => (fieldsOf row).reports) ∧
      ∀ row ∈ rows,
        Settled Field (fun _ => []) row (fieldsOf row).items (fieldsOf row).reports := by
  have halone : ∀ row ∈ rows,
      Isolated field? "field name" fieldResumption row (fieldsOf row).items (fieldsOf row).reports ∧
        Settled Field (fun _ => []) row (fieldsOf row).items (fieldsOf row).reports := by
    intro row hrow
    have heof : ∀ t ∈ row, t.kind ≠ .eof :=
      ((hrows row hrow).mono fun _ ht => ht.2.1).forall_mem fun t ht => by simp [ht]
    obtain ⟨fs, ds, hisolated, hsettled⟩ := exists_isolated_of_chunk (hrows row hrow)
    obtain ⟨rfl, rfl⟩ := hisolated.fieldsOf_eq heof
    exact ⟨hisolated, hsettled⟩
  exact ⟨.flatten fun row hrow => (halone row hrow).1, fun row hrow => (halone row hrow).2⟩

/-- A table or a struct of chunks is one declaration of the file, whatever the chunks are. -/
theorem isolated_typeDecl {kind : TypeKind} {word name l r : Token} {metadataTokens : List Token}
    {rows : List (List Token)} {metadata : Metadata} (hword : word.kind = .keyword (typeWord kind))
    (hname : IsName name.kind) (hmetadata : Attributes metadataTokens metadata)
    (hl : l.kind = .mark .leftBrace) (hrows : ∀ row ∈ rows, Chunk row)
    (hr : r.kind = .mark .rightBrace) {ts : List Token}
    (hts : ts = word :: name :: (metadataTokens ++ l :: (rows.flatten ++ [r]))) :
    Isolated declaration? "declaration" declarationResumption ts
      [.type ⟨kind, name.lexeme, metadata, rows.flatMap fun row => (fieldsOf row).items,
        covering ts⟩]
      (rows.flatMap fun row => (fieldsOf row).reports) := by
  subst hts
  have hitem : declaration? word = some (typeDecl kind word.span) := by
    rw [declaration?_of_keyword hword]
    cases kind <;> rfl
  have hfields (v w : Stream) (hvw : v.Takes rows.flatten w) (hw : w.kind = .mark .rightBrace) :
      fields.read v = ⟨.ok (rows.flatMap fun row => (fieldsOf row).items), w,
        rows.flatMap fun row => (fieldsOf row).reports⟩ := by
    have hread := (isolated_chunks hrows).1.itemsFrom_eq hvw (.inr (by rw [hw]; rfl))
    show (⟨.ok _, _, _⟩ : Outcome (List FieldDecl)) = _
    rw [hread]
  intro s t hst
  obtain ⟨u, hsu, hut⟩ := hst.uncons
  obtain rfl := hsu.skip_one
  exact itemsFrom_step "declaration" declarationResumption rfl hsu hitem
    (read_typeDecl hname hmetadata hl hfields hr rfl hsu hut)

end Reader

/-! ### Files -/

namespace Parsed

/-- An isolated row that begins a file: its items come first, and what follows it is read as a file
    of its own. -/
theorem ofTokens_of_isolated {tokens row more : List Token} {as : List Declaration}
    {ds : List Diagnostic}
    (h : Reader.Isolated Reader.declaration? "declaration" Reader.declarationResumption row as ds)
    (htokens : tokens.takeWhile (·.kind != .eof) = row ++ more) :
    (ofTokens tokens).schema.declarations =
        as ++ (ofTokens (more ++ [Stream.endOf tokens])).schema.declarations ∧
      (ofTokens tokens).diagnostics =
        ds ++ (ofTokens (more ++ [Stream.endOf tokens])).diagnostics := by
  have hst : (Stream.ofTokens tokens).Takes row _ := .of_append htokens
  generalize (Stream.ofTokens tokens).skip row.length = t at hst
  have hmore : t.rest = more := List.append_cancel_left (hst.rest.symm.trans htokens)
  have hstop : t.stop = Stream.endOf tokens := hst.stop
  have heof : ∀ x ∈ t.rest, x.kind ≠ .eof := by
    intro x hx
    have hmem : x ∈ tokens.takeWhile (·.kind != .eof) := by
      rw [htokens]
      exact List.mem_append_right _ (hmore ▸ hx)
    simpa using List.mem_takeWhile_imp hmem
  obtain ⟨hitems, hreports⟩ := ofTokens_of_stream heof (hstop ▸ Stream.kind_endOf tokens)
  rw [hmore, hstop] at hitems hreports
  rw [hitems, hreports]
  exact ⟨congrArg Reader.Items.items (h hst), congrArg Reader.Items.reports (h hst)⟩

/-- An isolated row that is a whole file. -/
theorem ofTokens_of_isolated_alone {tokens row : List Token} {as : List Declaration}
    {ds : List Diagnostic}
    (h : Reader.Isolated Reader.declaration? "declaration" Reader.declarationResumption row as ds)
    (htokens : tokens.takeWhile (·.kind != .eof) = row) :
    (ofTokens tokens).schema.declarations = as ∧ (ofTokens tokens).diagnostics = ds := by
  obtain ⟨hitems, hreports⟩ := ofTokens_stop (Stream.kind_endOf tokens)
  obtain ⟨hdeclarations, hdiagnostics⟩ :=
    ofTokens_of_isolated h (htokens.trans (List.append_nil row).symm)
  rw [hitems, List.append_nil] at hdeclarations
  rw [hreports, List.append_nil] at hdiagnostics
  exact ⟨hdeclarations, hdiagnostics⟩

/-- Between declarations every piece of junk is one error, at its first token, and every declaration
    is read as if it were a file of its own. -/
theorem ofTokens_of_declared_or_junk {tokens : List Token} {rows : List (List Token)}
    (hrows : ∀ row ∈ rows, (∃ d, Declared row d) ∨ Junk row)
    (htokens : tokens.takeWhile (·.kind != .eof) = rows.flatten) :
    (ofTokens tokens).schema.declarations = rows.flatMap (fun row =>
        (ofTokens (row ++ [Stream.endOf tokens])).schema.declarations) ∧
      (ofTokens tokens).diagnostics = rows.flatMap (fun row =>
        (ofTokens (row ++ [Stream.endOf tokens])).diagnostics) ∧
      ∀ row ∈ rows,
        Settled Declared Declaration.remarks row
          (ofTokens (row ++ [Stream.endOf tokens])).schema.declarations
          (ofTokens (row ++ [Stream.endOf tokens])).diagnostics ∧
        (Junk row → ∃ x ∈ row.head?, (ofTokens (row ++ [Stream.endOf tokens])).diagnostics =
          [Fault.diagnostic ⟨"declaration", x⟩]) := by
  have halone : ∀ row ∈ rows, ∃ as ds,
      Reader.Isolated Reader.declaration? "declaration" Reader.declarationResumption row as ds ∧
        Settled Declared Declaration.remarks row as ds ∧
        (Junk row → ∃ x ∈ row.head?, ds = [Fault.diagnostic ⟨"declaration", x⟩]) := by
    intro row hrow
    rcases hrows row hrow with ⟨d, hd⟩ | hjunk
    · refine ⟨_, _, Reader.isolated_of_declared hd, .item hd d.isError_of_mem_remarks, fun hj => ?_⟩
      obtain ⟨x, -, hnot, -⟩ := Reader.exists_isolated_of_junk hj
      exact absurd hd (hnot d)
    · obtain ⟨x, hx, hnot, hisolated⟩ := Reader.exists_isolated_of_junk hjunk
      exact ⟨_, _, hisolated, .fault hnot (List.mem_of_mem_head? hx), fun _ => ⟨x, hx, rfl⟩⟩
  have hfile : ∀ row ∈ rows, ∀ as ds,
      Reader.Isolated Reader.declaration? "declaration" Reader.declarationResumption row as ds →
      (ofTokens (row ++ [Stream.endOf tokens])).schema.declarations = as ∧
        (ofTokens (row ++ [Stream.endOf tokens])).diagnostics = ds := by
    intro row hrow as ds h
    refine ofTokens_of_isolated_alone h (Stream.body_concat (fun t ht => ?_) (Stream.kind_endOf _))
    have hmem : t ∈ tokens.takeWhile (·.kind != .eof) := by
      rw [htokens]
      exact List.mem_flatten_of_mem hrow ht
    simpa using List.mem_takeWhile_imp hmem
  have hisolated : ∀ row ∈ rows, Reader.Isolated Reader.declaration? "declaration"
      Reader.declarationResumption row
      (ofTokens (row ++ [Stream.endOf tokens])).schema.declarations
      (ofTokens (row ++ [Stream.endOf tokens])).diagnostics := by
    intro row hrow
    obtain ⟨as, ds, h, -⟩ := halone row hrow
    obtain ⟨rfl, rfl⟩ := hfile row hrow as ds h
    exact h
  obtain ⟨hdeclarations, hdiagnostics⟩ := ofTokens_of_isolated_alone (.flatten hisolated) htokens
  refine ⟨hdeclarations, hdiagnostics, fun row hrow => ?_⟩
  obtain ⟨as, ds, h, hsettled⟩ := halone row hrow
  obtain ⟨rfl, rfl⟩ := hfile row hrow as ds h
  exact hsettled

/-- The tokens of a namespace behind two pieces of junk, of which one is only a semicolon. -/
def junkTokens : List Token := (Lexed.ofSource "; ) = ; namespace a;" "t.fbs").tokens

def junkRows : List (List Token) :=
  [junkTokens.take 1, (junkTokens.drop 1).take 3, (junkTokens.drop 4).take 3]

theorem ofTokens_junk_namespace :
    (∀ row ∈ junkRows, (∃ d, Declared row d) ∨ Junk row) ∧
      junkTokens.takeWhile (·.kind != .eof) = junkRows.flatten ∧
      (ofTokens junkTokens).schema.declarations = junkRows.flatMap (fun row =>
        (ofTokens (row ++ [Stream.endOf junkTokens])).schema.declarations) ∧
      (ofTokens junkTokens).diagnostics = junkRows.flatMap (fun row =>
        (ofTokens (row ++ [Stream.endOf junkTokens])).diagnostics) := by
  obtain ⟨hword, hname, hsemicolon, hlone, hlong, htokens⟩ :
      (junkTokens.getD 4 default).kind = .keyword (directiveWord .namespacePath) ∧
      (junkTokens.getD 5 default).kind = .identifier ∧
      (junkTokens.getD 6 default).kind = .mark .semicolon ∧
      Junk (junkTokens.take 1) ∧ Junk ((junkTokens.drop 1).take 3) ∧
      junkTokens.takeWhile (·.kind != .eof) = junkRows.flatten := by decide +kernel
  have hdeclared : ∃ d, Declared ((junkTokens.drop 4).take 3) d :=
    ⟨_, .directive hword (.path ⟨_, .one (.mk (.inl hname)), rfl⟩) hsemicolon (by decide +kernel)⟩
  have hrows : ∀ row ∈ junkRows, (∃ d, Declared row d) ∨ Junk row := by
    intro row hrow
    simp only [junkRows, List.mem_cons, List.not_mem_nil, or_false] at hrow
    rcases hrow with rfl | rfl | rfl
    · exact .inr hlone
    · exact .inr hlong
    · exact .inl hdeclared
  obtain ⟨hdeclarations, hdiagnostics, -⟩ := ofTokens_of_declared_or_junk hrows htokens
  exact ⟨hrows, htokens, hdeclarations, hdiagnostics⟩

/-- Bad fields are errors of their own. Whatever stands between the semicolons in a table or a
    struct, it is a declaration; its fields are those of the chunks that are fields, in order and
    each as if it stood alone, and every other chunk is one error at one of its tokens. What stands
    behind the declaration is read as a file of its own. -/
theorem ofTokens_of_chunks {tokens metadataTokens more ts : List Token} {rows : List (List Token)}
    {kind : TypeKind} {word name l r : Token} {metadata : Metadata}
    (hword : word.kind = .keyword (typeWord kind)) (hname : IsName name.kind)
    (hmetadata : Attributes metadataTokens metadata) (hl : l.kind = .mark .leftBrace)
    (hrows : ∀ row ∈ rows, Chunk row) (hr : r.kind = .mark .rightBrace)
    (hts : ts = word :: name :: (metadataTokens ++ l :: (rows.flatten ++ [r])))
    (htokens : tokens.takeWhile (·.kind != .eof) = ts ++ more) :
    (ofTokens tokens).schema.declarations =
        .type ⟨kind, name.lexeme, metadata,
          rows.flatMap fun row => (Reader.fieldsOf row).items, covering ts⟩ ::
          (ofTokens (more ++ [Stream.endOf tokens])).schema.declarations ∧
      (ofTokens tokens).diagnostics =
        (rows.flatMap fun row => (Reader.fieldsOf row).reports) ++
          (ofTokens (more ++ [Stream.endOf tokens])).diagnostics ∧
      ∀ row ∈ rows, Settled Field (fun _ => []) row (Reader.fieldsOf row).items
        (Reader.fieldsOf row).reports := by
  obtain ⟨hdeclarations, hdiagnostics⟩ := ofTokens_of_isolated
    (Reader.isolated_typeDecl hword hname hmetadata hl hrows hr hts) htokens
  exact ⟨hdeclarations, hdiagnostics, (Reader.isolated_chunks hrows).2⟩

/-- The tokens of a table with a field that lacks its colon between two that lack nothing. -/
def chunkTokens : List Token :=
  (Lexed.ofSource "table T \x7b hp: int; mp int; xp: int; \x7d" "t.fbs").tokens

def chunkRows : List (List Token) :=
  [(chunkTokens.drop 3).take 4, (chunkTokens.drop 7).take 3, (chunkTokens.drop 10).take 4]

def chunkDecl : List Token :=
  chunkTokens.getD 0 default :: chunkTokens.getD 1 default ::
    ([] ++ chunkTokens.getD 2 default :: (chunkRows.flatten ++ [chunkTokens.getD 14 default]))

theorem ofTokens_missing_colon :
    (chunkTokens.getD 0 default).kind = .keyword (typeWord .table) ∧
    IsName (chunkTokens.getD 1 default).kind ∧ Attributes [] {} ∧
    (chunkTokens.getD 2 default).kind = .mark .leftBrace ∧ (∀ row ∈ chunkRows, Chunk row) ∧
    (chunkTokens.getD 14 default).kind = .mark .rightBrace ∧
    chunkTokens.takeWhile (·.kind != .eof) = chunkDecl ++ [] ∧
    ∀ row ∈ chunkRows, Settled Field (fun _ => []) row (Reader.fieldsOf row).items
      (Reader.fieldsOf row).reports := by
  obtain ⟨hword, hname, hl, hrows, hr, htokens⟩ :
      (chunkTokens.getD 0 default).kind = .keyword (typeWord .table) ∧
      (chunkTokens.getD 1 default).kind = .identifier ∧
      (chunkTokens.getD 2 default).kind = .mark .leftBrace ∧ (∀ row ∈ chunkRows, Chunk row) ∧
      (chunkTokens.getD 14 default).kind = .mark .rightBrace ∧
      chunkTokens.takeWhile (·.kind != .eof) = chunkDecl ++ [] := by decide +kernel
  obtain ⟨-, -, hsettled⟩ :=
    ofTokens_of_chunks hword (.inl hname) .absent hl hrows hr rfl htokens
  exact ⟨hword, .inl hname, .absent, hl, hrows, hr, htokens, hsettled⟩

end Parsed

end FlatSchema
