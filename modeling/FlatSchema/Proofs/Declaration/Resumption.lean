import FlatSchema.Proofs.Declaration.Completeness
import FlatSchema.Proofs.Declaration.Strict
import Mathlib.Data.List.TakeWhile

/-!
Where reading goes on behind a declaration that turned out bad. The token that was refused is given
up, whatever it is, and so is everything up to the first place where a declaration may begin: behind
a semicolon, or before a token that opens a declaration.

        namespace a   table T { x: int ; } enum E { Red }
                      └─────lost───────┘ └─────kept─────┘

What stands before the bad declaration is read as if it were alone, and what follows the place of
resumption is read as if it were a file of its own. A directive without its semicolon is the
smallest such declaration.
-/

namespace FlatSchema

/-- A declaration may begin between two rows: at the end, behind a semicolon, or before a token that
    opens one. -/
def Resumable (lost kept : List Token) : Prop :=
  kept = [] ∨ (∃ t ∈ lost.getLast?, t.kind = .mark .semicolon) ∨
    ∃ t ∈ kept.head?, Stream.opensDeclaration t.kind = true

/-- Of the tokens from the refused one on, `lost` are given up and `kept` are kept: the refused
    token is lost, and then reading resumes as soon as it may. -/
structure GivenUp (tokens lost kept : List Token) : Prop where
  cut : tokens = lost ++ kept
  progress : tokens ≠ [] → lost ≠ []
  resumable : Resumable lost kept
  earliest : ∀ l m, l ≠ [] → m ≠ [] → lost = l ++ m → ¬ Resumable l (m ++ kept)

theorem resumable_cons {t : Token} {lost kept : List Token} (hlost : lost ≠ []) :
    Resumable (t :: lost) kept ↔ Resumable lost kept := by
  obtain ⟨x, lost, rfl⟩ := List.exists_cons_of_ne_nil hlost
  rw [Resumable, Resumable, List.getLast?_cons_cons]

theorem resumable_singleton {t x : Token} {rest : List Token} : Resumable [t] (x :: rest) ↔
    t.kind = .mark .semicolon ∨ Stream.opensDeclaration x.kind = true := by
  simp [Resumable]

theorem singleton_ne_append {t : Token} {l m : List Token} (hl : l ≠ []) (hm : m ≠ []) :
    [t] ≠ l ++ m := by
  obtain ⟨x, l, rfl⟩ := List.exists_cons_of_ne_nil hl
  simp [hm]

namespace Stream

/-- The first token is given up, and then the others up to where reading may resume. -/
theorem givenUp_untilDeclaration (refused : Token) (tokens : List Token) :
    GivenUp (refused :: tokens)
      (refused :: tokens.take (untilDeclaration refused.kind tokens))
      (tokens.drop (untilDeclaration refused.kind tokens)) := by
  induction tokens generalizing refused with
  | nil =>
    exact ⟨rfl, by simp, .inl rfl, fun l m hl hm h => absurd h (singleton_ne_append hl hm)⟩
  | cons t rest ih =>
    rw [untilDeclaration]
    split
    · next hresume =>
      have hresumable : Resumable [refused] (t :: rest) := by
        rw [resumable_singleton]
        simpa using hresume
      exact ⟨rfl, by simp, hresumable, fun l m hl hm h => absurd h (singleton_ne_append hl hm)⟩
    · next hgo =>
      have hnot (more : List Token) : ¬ Resumable [refused] (t :: more) := by
        rw [resumable_singleton]
        simpa using hgo
      obtain ⟨hcut, -, hresumable, hearliest⟩ := ih t
      rw [List.take_succ_cons, List.drop_succ_cons]
      refine ⟨congrArg (refused :: ·) hcut, by simp, ?_, ?_⟩
      · rwa [resumable_cons (by simp)]
      · intro l m hl hm h
        obtain ⟨x, l, rfl⟩ := List.exists_cons_of_ne_nil hl
        obtain ⟨rfl, htail⟩ := List.cons.inj h
        cases l with
        | nil =>
          obtain rfl : _ = m := htail
          exact hnot _
        | cons y l =>
          rw [resumable_cons (by simp)]
          exact hearliest _ m (by simp) hm htail

/-- Resuming gives up the refused token, and then as little as it may. -/
theorem givenUp_atDeclaration (s : Stream) : ∃ lost, GivenUp s.rest lost s.atDeclaration.rest := by
  cases hrest : s.rest with
  | nil =>
    have hskip : (s.skip 1).rest = [] := by rw [skip, hrest, List.drop_nil]
    have hkept : s.atDeclaration.rest = [] := by
      show (s.skip 1).rest.drop _ = []
      rw [hskip, List.drop_nil]
    rw [hkept]
    exact ⟨[], rfl, by simp, .inl rfl, fun l m hl _ h =>
      absurd (List.append_eq_nil_iff.mp h.symm).1 hl⟩
  | cons t rest =>
    have hskip : s.skip 1 = ⟨t, rest, s.stop⟩ := by simp [skip, hrest]
    rw [atDeclaration, hskip]
    exact ⟨_, givenUp_untilDeclaration t rest⟩

/-! ### Streams as tokens -/

theorem kind_endOf (tokens : List Token) : (endOf tokens).kind = .eof := by
  rw [endOf]
  cases h : tokens.find? (·.kind == .eof) with
  | none => rfl
  | some t => simpa using List.find?_some h

theorem body_append {tokens : List Token} (h : ∀ t ∈ tokens, t.kind ≠ .eof) (more : List Token) :
    body (tokens ++ more) = tokens ++ body more :=
  List.takeWhile_append_of_pos (by simpa using h)

theorem body_concat {tokens : List Token} (h : ∀ t ∈ tokens, t.kind ≠ .eof) {stop : Token}
    (hstop : stop.kind = .eof) : body (tokens ++ [stop]) = tokens := by
  rw [body_append h, body, List.takeWhile_cons_of_neg (by simp [hstop]), List.append_nil]

theorem endOf_append {tokens : List Token} (h : ∀ t ∈ tokens, t.kind ≠ .eof) {more : List Token}
    {stop : Token} (hstop : more.find? (·.kind == .eof) = some stop) :
    endOf (tokens ++ more) = stop := by
  have hnone : tokens.find? (·.kind == .eof) = none := by simpa using h
  rw [endOf, List.find?_append, hnone, Option.none_or, hstop, Option.getD_some]

end Stream

/-! ### Bad items -/

open Grammar

namespace Reader

section Items

variable {α : Type} {item : Token → Option (Reader α)} {closed : TokenKind → Bool} {s t : Stream}
  {x : Token}

/-- A bad item is reported, and reading resumes where it was left. -/
theorem itemsFrom_fault (expected : String) (resumption : Resumption closed) {r : Reader α}
    {f : Fault} {ds : List Diagnostic} (hs : closed s.kind = false)
    (hx : s.Takes [x] (s.skip 1)) (hitem : item x = some r)
    (hread : r.read (s.skip 1) = ⟨.error f, t, ds⟩) :
    itemsFrom item expected resumption s =
      { itemsFrom item expected resumption (resumption.resume t) with
        reports := ds ++ f.diagnostic ::
          (itemsFrom item expected resumption (resumption.resume t)).reports } := by
  rw [itemsFrom_eq expected resumption hs hx, hitem]
  simp only [hread]

end Items

/-- What is read of a stream does not depend on the token before it. -/
theorem declarations_congr {s t : Stream} (hrest : s.rest = t.rest) (hstop : s.stop = t.stop) :
    (declarations s).items = (declarations t).items ∧
      (declarations s).reports = (declarations t).reports := by
  cases h : t.rest with
  | nil =>
    have hs : declarations s = ⟨[], s, []⟩ := itemsFrom_of_closed _ _ (.inl (hrest.trans h))
    have ht : declarations t = ⟨[], t, []⟩ := itemsFrom_of_closed _ _ (.inl h)
    rw [hs, ht]
    exact ⟨rfl, rfl⟩
  | cons x rest =>
    have hskip : s.skip 1 = t.skip 1 := by simp [Stream.skip, hrest, h, hstop]
    have hresume : s.atDeclaration = t.atDeclaration := by
      rw [Stream.atDeclaration, Stream.atDeclaration, hskip]
    have heq : declarations s = declarations t := by
      rw [declarations, declarations,
        itemsFrom_eq _ _ rfl (Stream.Takes.of_cons (hrest.trans h)),
        itemsFrom_eq _ _ rfl (Stream.Takes.of_cons h), hskip]
      simp only [declarationResumption, hresume]
    rw [heq]
    exact ⟨rfl, rfl⟩

/-- A mark that does not come next is missed. -/
theorem read_mark_of_ne {s : Stream} {m : Mark} (h : s.kind ≠ .mark m) :
    (mark m).read s = ⟨.error ⟨m.quoted, s.current⟩, s, []⟩ := by
  show ((kind >>= fun k => if k == .mark m then next else fail m.quoted) : Reader Token).read s = _
  rw [read_bind reads_kind, if_neg (by simpa using h)]
  rfl

/-- A directive without its semicolon is refused at the token behind its text. -/
theorem read_directive_unended (kind : Directive) (start : Span) {value : Reader String}
    {text : String} {s t : Stream} (hvalue : value.Reads s text t)
    (ht : t.kind ≠ .mark .semicolon) :
    (directive kind start value).read s = ⟨.error ⟨"';'", t.current⟩, t, []⟩ := by
  show (value >>= _).read s = _
  rw [read_bind hvalue]
  show ((mark .semicolon).read t).andThen _ = _
  rw [read_mark_of_ne ht]
  rfl

/-- A bad declaration behind declarations that are all right: they are read, it is reported, and
    reading resumes where it stopped. -/
theorem declarations_fault {s u v : Stream} {rows : List (List Token)} {ds : List Declaration}
    {word : Token} {r : Reader Declaration} {f : Fault} {reports : List Diagnostic}
    (hall : List.Forall₂ Declared rows ds) (hitem : declaration? word = some r)
    (hsu : s.Takes (rows.flatten ++ [word]) u) (hread : r.read u = ⟨.error f, v, reports⟩) :
    (declarations s).items = ds ++ (declarations v.atDeclaration).items ∧
      (declarations s).reports = ds.flatMap Declaration.remarks ++
        (reports ++ f.diagnostic :: (declarations v.atDeclaration).reports) := by
  obtain ⟨t, hst, htu⟩ := hsu.split
  obtain rfl := htu.skip_one
  have hfault := itemsFrom_fault "declaration" declarationResumption rfl htu hitem hread
  have happend := itemsFrom_append "declaration" declarationResumption
    completeBehind_declaration? (fun _ _ _ _ _ _ => rfl) hall hst
  rw [hfault] at happend
  exact ⟨congrArg Items.items happend, congrArg Items.reports happend⟩

end Reader

/-! ### Files -/

namespace Parsed

/-- What is left of a stream is read as a file of its own. -/
theorem ofTokens_of_stream {s : Stream} (hrest : ∀ t ∈ s.rest, t.kind ≠ .eof)
    (hstop : s.stop.kind = .eof) :
    (ofTokens (s.rest ++ [s.stop])).schema.declarations = (Reader.declarations s).items ∧
      (ofTokens (s.rest ++ [s.stop])).diagnostics = (Reader.declarations s).reports := by
  have hbody : (Stream.ofTokens (s.rest ++ [s.stop])).rest = s.rest :=
    Stream.body_concat hrest hstop
  have hend : (Stream.ofTokens (s.rest ++ [s.stop])).stop = s.stop :=
    Stream.endOf_append hrest (List.find?_cons_of_pos (by simp [hstop]))
  exact Reader.declarations_congr hbody hend

/-- In front of the end there is nothing to read. -/
theorem ofTokens_stop {stop : Token} (hstop : stop.kind = .eof) :
    (ofTokens ([] ++ [stop])).schema.declarations = [] ∧
      (ofTokens ([] ++ [stop])).diagnostics = [] := by
  obtain ⟨hitems, hreports⟩ := ofTokens_of_stream (s := ⟨stop, [], stop⟩) (by simp) hstop
  have hread : Reader.declarations ⟨stop, [], stop⟩ = ⟨[], ⟨stop, [], stop⟩, []⟩ :=
    Reader.itemsFrom_of_closed _ _ (.inl rfl)
  rw [hread] at hitems hreports
  exact ⟨hitems, hreports⟩

/-- Where reading goes on behind a bad declaration, whichever it is. The declarations before it are
    read as if nothing were wrong. It is one error, at the token before which its reader stops. That
    token is given up with those behind it up to where a declaration may begin, and what is kept is
    read as a file of its own. -/
theorem ofTokens_of_fault {tokens more : List Token} {rows : List (List Token)}
    {ds : List Declaration} {word : Token} {r : Reader Declaration} {f : Fault} {v : Stream}
    {reports : List Diagnostic} (hall : List.Forall₂ Declared rows ds)
    (hitem : Reader.declaration? word = some r)
    (htokens : tokens.takeWhile (·.kind != .eof) = rows.flatten ++ word :: more)
    (hread : r.read ⟨word, more, Stream.endOf tokens⟩ = ⟨.error f, v, reports⟩) :
    v.rest <:+ more ∧ f.found = v.rest.headD (Stream.endOf tokens) ∧
      ∃ lost kept, GivenUp v.rest lost kept ∧
        (ofTokens tokens).schema.declarations =
          ds ++ (ofTokens (kept ++ [Stream.endOf tokens])).schema.declarations ∧
        (ofTokens tokens).diagnostics = ds.flatMap Declaration.remarks ++ (reports ++
          f.diagnostic :: (ofTokens (kept ++ [Stream.endOf tokens])).diagnostics) := by
  have hahead : Stream.Ahead ⟨word, more, Stream.endOf tokens⟩ v := by
    have hrest := r.ahead ⟨word, more, Stream.endOf tokens⟩
    rwa [hread] at hrest
  obtain ⟨n, hv⟩ := hahead
  have hstop : v.stop = Stream.endOf tokens := by
    rw [hv]
    rfl
  have hsuffix : v.rest <:+ more := by
    rw [hv]
    exact List.drop_suffix n more
  have hfound : f.found = v.current := by
    have hrefused := Reader.refusing_declaration? word r hitem ⟨word, more, Stream.endOf tokens⟩ f
    rw [hread] at hrefused
    exact hrefused rfl
  refine ⟨hsuffix, by rw [hfound, Stream.current, hstop], ?_⟩
  have htakes : (Stream.ofTokens tokens).Takes (rows.flatten ++ [word])
      ⟨word, more, Stream.endOf tokens⟩ := by
    refine ⟨?_, ?_, rfl⟩
    · show tokens.takeWhile (·.kind != .eof) = _
      simpa using htokens
    · rw [List.getLastD_concat]
  obtain ⟨hdeclarations, hdiagnostics⟩ := Reader.declarations_fault hall hitem htakes hread
  obtain ⟨lost, hgiven⟩ := v.givenUp_atDeclaration
  have hkept : ∀ t ∈ v.atDeclaration.rest, t.kind ≠ .eof := by
    intro t ht
    have hmore : t ∈ v.rest := by
      rw [hgiven.cut]
      exact List.mem_append_right _ ht
    have hmem : t ∈ tokens.takeWhile (·.kind != .eof) := by
      rw [htokens]
      exact List.mem_append_right _ (List.mem_cons_of_mem _ (hsuffix.subset hmore))
    simpa using List.mem_takeWhile_imp hmem
  have hend : v.atDeclaration.stop = Stream.endOf tokens := hstop
  obtain ⟨hitems, hreports⟩ := ofTokens_of_stream hkept (hend ▸ Stream.kind_endOf tokens)
  rw [hend] at hitems hreports
  exact ⟨lost, _, hgiven, hitems ▸ hdeclarations, hreports ▸ hdiagnostics⟩

/-- A directive without its semicolon is one error, at the token where the semicolon should be, and
    that token is given up with those behind it up to where a declaration may begin. The
    declarations before it are read as if nothing were wrong, and what is kept is read as a file of
    its own. Only at the end of the file is there nothing to give up. -/
theorem ofTokens_of_unended_directive {tokens valueTokens more : List Token}
    {rows : List (List Token)} {ds : List Declaration} {kind : Directive} {word : Token}
    {value : String} (hall : List.Forall₂ Declared rows ds)
    (hword : word.kind = .keyword (directiveWord kind))
    (hvalue : DirectiveText kind valueTokens value)
    (hmore : ∀ t ∈ more.head?, t.kind ≠ .mark .semicolon ∧ t.kind ≠ .mark .dot)
    (htokens : tokens.takeWhile (·.kind != .eof) = rows.flatten ++ word :: (valueTokens ++ more)) :
    ∃ lost kept, GivenUp more lost kept ∧
      (ofTokens tokens).schema.declarations =
        ds ++ (ofTokens (kept ++ [Stream.endOf tokens])).schema.declarations ∧
      (ofTokens tokens).diagnostics = ds.flatMap Declaration.remarks ++
        Fault.diagnostic ⟨"';'", more.headD (Stream.endOf tokens)⟩ ::
          (ofTokens (kept ++ [Stream.endOf tokens])).diagnostics ∧
      (more = [] → (ofTokens tokens).schema.declarations = ds ∧
        (ofTokens tokens).diagnostics = ds.flatMap Declaration.remarks ++
          [Fault.diagnostic ⟨"';'", Stream.endOf tokens⟩]) := by
  obtain ⟨r, hitem, hcomplete⟩ := Reader.exists_complete_directive hword
  have htaken : Stream.Takes ⟨word, valueTokens ++ more, Stream.endOf tokens⟩ valueTokens
      ⟨valueTokens.getLastD word, more, Stream.endOf tokens⟩ := ⟨rfl, rfl, rfl⟩
  generalize hv : (⟨valueTokens.getLastD word, more, Stream.endOf tokens⟩ : Stream) = v at htaken
  have hvkind : v.kind ≠ .mark .semicolon ∧ v.kind ≠ .mark .dot := by
    rw [← hv, Stream.kind]
    cases more with
    | nil => simp
    | cons t more => exact hmore t rfl
  have hread := Reader.read_directive_unended kind word.span
    (hcomplete v hvkind.2 hvalue htaken) hvkind.1
  obtain ⟨-, -, lost, kept, hgiven, hdeclarations, hdiagnostics⟩ :=
    ofTokens_of_fault hall hitem htokens hread
  subst hv
  refine ⟨lost, kept, hgiven, hdeclarations, hdiagnostics, ?_⟩
  rintro rfl
  obtain rfl : kept = [] := (List.append_eq_nil_iff.mp hgiven.cut.symm).2
  obtain ⟨hnone, hsilent⟩ := ofTokens_stop (Stream.kind_endOf tokens)
  rw [hnone, List.append_nil] at hdeclarations
  rw [hsilent] at hdiagnostics
  exact ⟨hdeclarations, hdiagnostics⟩

/-- The tokens of a namespace without its semicolon and a table behind it. -/
def unendedTokens : List Token :=
  (Lexed.ofSource "namespace a\ntable T \x7b\x7d" "t.fbs").tokens

theorem ofTokens_unended_namespace :
    (unendedTokens.headD default).kind = .keyword (directiveWord .namespacePath) ∧
    DirectiveText .namespacePath [unendedTokens.getD 1 default] "a" ∧
    (∀ t ∈ ((unendedTokens.drop 2).take 4).head?, t.kind ≠ .mark .semicolon ∧ t.kind ≠ .mark .dot) ∧
    unendedTokens.takeWhile (·.kind != .eof) = ([] : List (List Token)).flatten ++
      unendedTokens.headD default ::
        ([unendedTokens.getD 1 default] ++ (unendedTokens.drop 2).take 4) ∧
    ∃ lost kept, GivenUp ((unendedTokens.drop 2).take 4) lost kept ∧
      (ofTokens unendedTokens).schema.declarations =
        [] ++ (ofTokens (kept ++ [Stream.endOf unendedTokens])).schema.declarations := by
  have hword : (unendedTokens.headD default).kind = .keyword (directiveWord .namespacePath) := by
    decide +kernel
  have hvalue : DirectiveText .namespacePath [unendedTokens.getD 1 default] "a" := by
    have hkind : (unendedTokens.getD 1 default).kind = .identifier := by decide +kernel
    have hlexeme : (unendedTokens.getD 1 default).lexeme = "a" := by decide +kernel
    rw [← hlexeme]
    exact .path ⟨_, .one (.mk (.inl hkind)), by decide +kernel⟩
  have hmore : ∀ t ∈ ((unendedTokens.drop 2).take 4).head?,
      t.kind ≠ .mark .semicolon ∧ t.kind ≠ .mark .dot := by decide +kernel
  have htokens : unendedTokens.takeWhile (·.kind != .eof) = ([] : List (List Token)).flatten ++
      unendedTokens.headD default ::
        ([unendedTokens.getD 1 default] ++ (unendedTokens.drop 2).take 4) := by decide +kernel
  obtain ⟨lost, kept, hgiven, hdeclarations, -⟩ :=
    ofTokens_of_unended_directive .nil hword hvalue hmore htokens
  exact ⟨hword, hvalue, hmore, htokens, lost, kept, hgiven, hdeclarations⟩

/-- The table behind a namespace without its semicolon is lost. -/
theorem ofSource_unended_namespace :
    (ofSource "table T \x7b\x7d" "t.fbs").diagnostics = [] ∧
      (ofSource "table T \x7b\x7d" "t.fbs").schema.declarations.length = 1 ∧
      (ofSource "namespace a\ntable T \x7b\x7d" "t.fbs").schema.declarations = [] := by
  decide +kernel

end Parsed

end FlatSchema
