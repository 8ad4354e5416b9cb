import FlatSchema.Diagnostic
import FlatSchema.Proofs.Source.Position
import FlatSchema.Text.Blank
import FlatSchema.Token

/-!
How tokens lie in a text. A text is a row of gaps and tokens with nothing between them: a gap is
one white space character, one comment or one illegal character, and a token other than a string
is written as its lexeme. Every gap and token comes with the diagnostics that belong to it, and
every illegal character is put down with its place.

        hp /*!*/ : # "a\n" ;
        token gap gap gap token gap stray gap token gap token end

Nothing here reads: a text together with its tokens either has such a layout or it has none.
-/

namespace FlatSchema

namespace Layout

/-- What a backslash and a character stand for. -/
def escapes : List (Char × Char) :=
  [('n', '\n'), ('t', '\t'), ('r', '\r'), ('0', '\x00'), ('\\', '\\'), ('"', '"')]

/-- A character that no gap, no comment and no token starts with. A slash is one unless a second
    slash or a star follows. -/
def Illegal (c : Char) (rest : List Char) : Prop :=
  isBlank c = false ∧ c.isAlphanum = false ∧
    c ∉ ['_', '(', ')', '\x7b', '\x7d', '[', ']', ',', ';', ':', '=', '.', '+', '-', '"'] ∧
    (c = '/' → rest.head? ≠ some '/' ∧ rest.head? ≠ some '*')

/-- The error about an illegal character. -/
def unexpected (c : Char) (span : Span) : Diagnostic :=
  .errorAt s!"unexpected character '{c}'" span

/-- Whether a diagnostic is about an illegal character, by its message. -/
def isUnexpected (d : Diagnostic) : Bool :=
  "unexpected character".toList.isPrefixOf d.message.toList

/-- `Literal file start p text value rest reports`: a string literal that starts at `start` goes on
    at `p` with `text`, its closing quote included, and ends before `rest`; `text` stands for
    `value`. Without a closing quote it ends at a line feed or at the end. -/
inductive Literal (file : String) (start : Position) :
    Position → List Char → List Char → List Char → List Diagnostic → Prop where
  | closed {p : Position} {rest : List Char} : Literal file start p ['"'] [] rest []
  | lineFeed {p : Position} {rest : List Char} : Literal file start p ['\n'] [] rest
      [.errorAt "unterminated string literal" ⟨file, start, p.next '\n'⟩]
  | ended {p : Position} : Literal file start p [] [] []
      [.errorAt "unterminated string literal" ⟨file, start, p⟩]
  | endedBehindBackslash {p : Position} : Literal file start p ['\\'] [] []
      [.errorAt "unterminated string literal" ⟨file, start, p.next '\\'⟩]
  | plain {p : Position} {c : Char} {text value rest : List Char} {reports : List Diagnostic} :
      c ≠ '"' → c ≠ '\\' → c ≠ '\n' → Literal file start (p.next c) text value rest reports →
      Literal file start p (c :: text) (c :: value) rest reports
  | escape {p : Position} {c v : Char} {text value rest : List Char} {reports : List Diagnostic} :
      (c, v) ∈ escapes → Literal file start ((p.next '\\').next c) text value rest reports →
      Literal file start p ('\\' :: c :: text) (v :: value) rest reports
  | unknown {p : Position} {c : Char} {text value rest : List Char} {reports : List Diagnostic} :
      (∀ v, (c, v) ∉ escapes) →
      Literal file start ((p.next '\\').next c) text value rest reports →
      Literal file start p ('\\' :: c :: text) (c :: value) rest
        (.errorAt s!"unknown escape sequence '\\{c}'" ⟨file, start, (p.next '\\').next c⟩ ::
          reports)

/-- `Gap file p text rest strays reports`: at `p` stands the gap `text`, before `rest`. -/
inductive Gap (file : String) (p : Position) :
    List Char → List Char → List (Char × Span) → List Diagnostic → Prop where
  | blank {c : Char} {rest : List Char} : isBlank c = true → Gap file p [c] rest [] []
  | lineComment {body rest : List Char} : '\n' ∉ body → (rest = [] ∨ rest.head? = some '\n') →
      Gap file p ('/' :: '/' :: body) rest [] []
  | blockComment {body rest : List Char} : ¬ ['*', '/'] <:+: body →
      Gap file p ('/' :: '*' :: (body ++ ['*', '/'])) rest [] []
  | openComment {body : List Char} : ¬ ['*', '/'] <:+: body →
      Gap file p ('/' :: '*' :: body) [] []
        [.errorAt "unterminated block comment" ⟨file, p, p.after ('/' :: '*' :: body)⟩]
  | stray {c : Char} {rest : List Char} : Illegal c rest →
      Gap file p [c] rest [(c, ⟨file, p, p.next c⟩)] [unexpected c ⟨file, p, p.next c⟩]

/-- `Placed file p text rest t reports`: at `p` stands the token `t`, written as `text`, before
    `rest`. -/
inductive Placed (file : String) (p : Position) :
    List Char → List Char → Token → List Diagnostic → Prop where
  | plain {kind : TokenKind} {text rest : List Char} : text ≠ [] →
      text ∉ [['0', 'x'], ['0', 'X']] → kind ≠ .stringLiteral → kind ≠ .eof →
      Placed file p text rest ⟨kind, String.ofList text, ⟨file, p, p.after text⟩⟩ []
  | digitless {x : Char} {rest : List Char} : x = 'x' ∨ x = 'X' →
      Placed file p ['0', x] rest
        ⟨.intLiteral, String.ofList ['0', x], ⟨file, p, p.after ['0', x]⟩⟩
        [.errorAt "expected hex digits after '0x'" ⟨file, p, p.after ['0', x]⟩]
  | string {text value rest : List Char} {reports : List Diagnostic} :
      Literal file p (p.next '"') text value rest reports →
      Placed file p ('"' :: text) rest
        ⟨.stringLiteral, String.ofList value, ⟨file, p, p.after ('"' :: text)⟩⟩ reports

end Layout

/-- `Layout file p text tokens strays reports`: from `p` on `text` is a row of gaps and of `tokens`,
    the last of which is the end of the file behind all of it. The illegal characters in the gaps
    are `strays`, and all there is to report is `reports`, both in order. -/
inductive Layout (file : String) :
    Position → List Char → List Token → List (Char × Span) → List Diagnostic → Prop where
  | done {p : Position} : Layout file p [] [⟨.eof, "", ⟨file, p, p⟩⟩] [] []
  | gap {p : Position} {text rest : List Char} {tokens : List Token}
      {strays strays' : List (Char × Span)} {reports reports' : List Diagnostic} :
      Layout.Gap file p text rest strays reports →
      Layout file (p.after text) rest tokens strays' reports' →
      Layout file p (text ++ rest) tokens (strays ++ strays') (reports ++ reports')
  | token {p : Position} {text rest : List Char} {t : Token} {tokens : List Token}
      {strays : List (Char × Span)} {reports reports' : List Diagnostic} :
      Layout.Placed file p text rest t reports →
      Layout file (p.after text) rest tokens strays reports' →
      Layout file p (text ++ rest) (t :: tokens) strays (reports ++ reports')

namespace Layout

variable {file : String} {p : Position} {text : List Char} {tokens : List Token}
  {strays : List (Char × Span)} {reports : List Diagnostic}

/-- The last token, and only it, is the end of the file, behind all of the text. -/
theorem exists_eof (h : Layout file p text tokens strays reports) :
    ∃ init, tokens = init ++ [⟨.eof, "", ⟨file, p.after text, p.after text⟩⟩] ∧
      ∀ t ∈ init, t.kind ≠ .eof := by
  induction h with
  | done => exact ⟨[], rfl, by simp⟩
  | gap _ _ ih =>
    obtain ⟨init, rfl, hinit⟩ := ih
    exact ⟨init, by rw [Position.after_append], hinit⟩
  | token hp _ ih =>
    obtain ⟨init, rfl, hinit⟩ := ih
    refine ⟨_ :: init, by rw [Position.after_append]; rfl, ?_⟩
    intro t ht
    rcases List.mem_cons.mp ht with rfl | ht
    · cases hp with
      | plain _ _ _ h => exact h
      | digitless => simp
      | string => simp
    · exact hinit t ht

/-- How a token is written: a string between quotes of which the second may be missing, the end
    not at all, and any other token as its lexeme. -/
def WrittenAs (t : Token) (text : List Char) : Prop :=
  match t.kind with
  | .stringLiteral => ∃ body, text = '"' :: body
  | .eof => text = []
  | _ => text = t.lexeme.toList ∧ text ≠ []

/-- Every token stands in the text where its span says. -/
theorem exists_written (h : Layout file p text tokens strays reports) {t : Token}
    (ht : t ∈ tokens) :
    ∃ before written after, text = before ++ written ++ after ∧ WrittenAs t written ∧
      t.span = ⟨file, p.after before, p.after (before ++ written)⟩ := by
  induction h with
  | done =>
    obtain rfl := List.mem_singleton.mp ht
    exact ⟨[], [], [], rfl, rfl, rfl⟩
  | @gap p gap rest _ _ _ _ _ _ _ ih =>
    obtain ⟨before, written, after, rfl, hw, hspan⟩ := ih ht
    refine ⟨gap ++ before, written, after, by simp, hw, ?_⟩
    rw [hspan, List.append_assoc, Position.after_append p gap, Position.after_append p gap]
  | @token p written rest _ _ _ _ _ hp _ ih =>
    rcases List.mem_cons.mp ht with rfl | ht
    · refine ⟨[], written, rest, rfl, ?_, ?_⟩
      · cases hp with
        | @plain kind _ _ hne _ hstring heof => cases kind <;> simp_all [WrittenAs]
        | digitless => simp [WrittenAs]
        | string => exact ⟨_, rfl⟩
      · cases hp <;> rfl
    · obtain ⟨before, w, after, rfl, hw, hspan⟩ := ih ht
      refine ⟨written ++ before, w, after, by simp, hw, ?_⟩
      rw [hspan, List.append_assoc, Position.after_append p written,
        Position.after_append p written]

theorem offset_le_start (h : Layout file p text tokens strays reports) {t : Token}
    (ht : t ∈ tokens) :
    p.offset ≤ t.span.start.offset ∧ t.span.start.offset ≤ t.span.stop.offset := by
  obtain ⟨before, written, after, -, -, hspan⟩ := h.exists_written ht
  rw [hspan]
  refine ⟨Position.offset_le_after _ _, ?_⟩
  rw [Position.after_append]
  exact Position.offset_le_after _ _

/-- A token ends where the next one starts, or before. -/
theorem pairwise (h : Layout file p text tokens strays reports) :
    tokens.Pairwise fun a b => a.span.stop.offset ≤ b.span.start.offset := by
  induction h with
  | done => exact List.pairwise_singleton _ _
  | gap _ _ ih => exact ih
  | token hp hl ih =>
    refine List.pairwise_cons.mpr ⟨?_, ih⟩
    intro t ht
    have hstop := (hl.offset_le_start ht).1
    cases hp <;> exact hstop

/-! ### Errors about illegal characters -/

theorem isUnexpected_unexpected (c : Char) (span : Span) :
    isUnexpected (unexpected c span) = true := by
  have hmessage : (unexpected c span).message.toList =
      "unexpected character".toList ++ (" '".toList ++ [c] ++ ['\'']) := by
    simp [unexpected, Diagnostic.errorAt, String.toList_append, toString]
  rw [isUnexpected, hmessage, List.isPrefixOf_iff_prefix]
  exact List.prefix_append _ _

theorem isUnexpected_errorAt {message : String} (span : Span)
    (h : "unexpected character".toList.isPrefixOf message.toList = false) :
    isUnexpected (.errorAt message span) = false := h

theorem isUnexpected_unknown (c : Char) (span : Span) :
    isUnexpected (.errorAt s!"unknown escape sequence '\\{c}'" span) = false := by
  have hmessage : (s!"unknown escape sequence '\\{c}'").toList =
      "unk".toList ++ ("nown escape sequence '\\".toList ++ [c] ++ ['\'']) := by
    simp [String.toList_append, toString]
  refine isUnexpected_errorAt span ?_
  rw [hmessage]
  rfl

theorem Literal.not_isUnexpected {start : Position} {value rest : List Char}
    (h : Literal file start p text value rest reports) :
    ∀ d ∈ reports, isUnexpected d = false := by
  have hopen : ∀ span, isUnexpected (.errorAt "unterminated string literal" span) = false :=
    fun span => isUnexpected_errorAt span (by decide)
  induction h with
  | closed => simp
  | lineFeed => simp [hopen]
  | ended => simp [hopen]
  | endedBehindBackslash => simp [hopen]
  | plain _ _ _ _ ih => exact ih
  | escape _ _ ih => exact ih
  | unknown _ _ ih =>
    intro d hd
    rcases List.mem_cons.mp hd with rfl | hd
    · exact isUnexpected_unknown _ _
    · exact ih d hd

/-- There is one error about an illegal character for each of them, and no other. -/
theorem filter_isUnexpected (h : Layout file p text tokens strays reports) :
    reports.filter isUnexpected = strays.map fun (c, span) => unexpected c span := by
  induction h with
  | done => rfl
  | gap hg _ ih =>
    rw [List.filter_append, List.map_append, ih]
    congr 1
    cases hg with
    | stray => simp [isUnexpected_unexpected]
    | openComment =>
      have hd (span : Span) : isUnexpected (.errorAt "unterminated block comment" span) = false :=
        isUnexpected_errorAt span (by decide)
      simp [hd]
    | _ => rfl
  | token hp _ ih =>
    rw [List.filter_append, ih, List.append_left_eq_self]
    cases hp with
    | plain => rfl
    | digitless =>
      have hd (span : Span) :
          isUnexpected (.errorAt "expected hex digits after '0x'" span) = false :=
        isUnexpected_errorAt span (by decide)
      simp [hd]
    | string hl => exact List.filter_eq_nil_iff.mpr fun d hd => by simp [hl.not_isUnexpected d hd]

end Layout

end FlatSchema
