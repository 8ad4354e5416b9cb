import FlatSchema.Proofs.Token.Cutting
import FlatSchema.Proofs.Token.Layout
import FlatSchema.Token.Lexed
import Mathlib.Data.List.TakeWhile

/-!
The pieces of a text lay it out. Each piece is a row of gaps or one token, and what it has to report
is what belongs to it; along the pieces these put together a layout of the whole text, so that
tokens and gaps partition the source.
-/

namespace FlatSchema

open Layout

/-! ### Strings -/

theorem Piece.mem_escapes_iff {c v : Char} : (c, v) ∈ escapes ↔ unescape? c = some v := by
  unfold unescape? escapes
  split <;> simp_all [eq_comm]

/-- The error about a flaw that shows behind `reach` characters of a text. -/
def Flaw.report (file : String) (start : Position) (text : List Char) (f : Flaw × Nat) :
    Diagnostic :=
  .errorAt f.1.message ⟨file, start, start.after (text.take f.2)⟩

/-- A flaw that shows behind `done` is reported with the place there. -/
theorem Flaw.report_append (file : String) (start : Position) {n : Nat} {done : List Char}
    (hn : done.length = n) (text : List Char) (f : Flaw) :
    Flaw.report file start (done ++ text) (f, n) =
      .errorAt f.message ⟨file, start, start.after done⟩ := by
  rw [report, ← hn, List.take_left]

theorem Position.after_concat (p : Position) (text : List Char) (c : Char) :
    p.after (text ++ [c]) = (p.after text).next c := by
  rw [after_append, after_cons, after_nil]

/-- What is read of a string literal behind `done` is the rest of the literal, with its flaws
    counted from its start. -/
theorem Piece.literal_stringBody (file : String) (start : Position) (n : Nat) (text : List Char) :
    ∀ done tail, done.length = n → text = (stringBody n text).text ++ tail →
      Literal file start (start.after done) (stringBody n text).text (stringBody n text).value tail
        ((stringBody n text).flaws.map (Flaw.report file start (done ++ text))) := by
  fun_induction stringBody n text <;> intro done tail hn ht
  case case1 n =>
    obtain rfl : [] = tail := ht
    simp only [List.map_cons, List.map_nil, Flaw.report_append file start hn]
    exact .ended
  case case2 n rest => exact .closed
  case case3 n rest =>
    have hn' : (done ++ ['\n']).length = n + 1 := by simp [hn]
    simp only [List.map_cons, List.map_nil, List.append_cons done '\n' rest,
      Flaw.report_append file start hn', Position.after_concat]
    exact .lineFeed
  case case4 n =>
    have hn' : (done ++ ['\\']).length = n + 1 := by simp [hn]
    obtain rfl : [] = tail := by simpa using ht
    have hreport := Flaw.report_append file start hn' [] .openString
    rw [List.append_nil] at hreport
    simp only [List.map_cons, List.map_nil, hreport, Position.after_concat]
    exact .endedBehindBackslash
  case case5 n c rest body v hv ih =>
    have hn' : (done ++ ['\\', c]).length = n + 2 := by simp [hn]
    have hdone : done ++ '\\' :: c :: rest = (done ++ ['\\', c]) ++ rest := by simp
    have hrest : rest = body.text ++ tail := by simpa using ht
    have htail := ih _ _ hn' hrest
    rw [Position.after_append] at htail
    rw [hdone]
    exact .escape (mem_escapes_iff.mpr hv) htail
  case case6 n c rest body hv ih =>
    have hn' : (done ++ ['\\', c]).length = n + 2 := by simp [hn]
    have hdone : done ++ '\\' :: c :: rest = (done ++ ['\\', c]) ++ rest := by simp
    have hrest : rest = body.text ++ tail := by simpa using ht
    have hunknown : ∀ v, (c, v) ∉ escapes := by simp [mem_escapes_iff, hv]
    have htail := ih _ _ hn' hrest
    rw [Position.after_append] at htail
    rw [hdone, List.map_cons, Flaw.report_append file start hn', Position.after_append]
    exact .unknown hunknown htail
  case case7 n c rest hquote hfeed hlast hback body ih =>
    have hn' : (done ++ [c]).length = n + 1 := by simp [hn]
    have hrest : rest = body.text ++ tail := by simpa using ht
    have hplain : c ≠ '\\' := by
      rintro rfl
      cases rest with
      | nil => exact hlast rfl rfl
      | cons d rest => exact hback d rest rfl rfl
    have htail := ih _ _ hn' hrest
    rw [Position.after_concat] at htail
    rw [List.append_cons]
    exact .plain hquote hplain hfeed htail

/-! ### Comments -/

/-- A block comment ends at the first `*/` behind its opening, or at the end if there is none. -/
theorem Piece.blockBody_spec (text : List Char) :
    (∃ body tail, blockBody text = (body ++ ['*', '/'], true) ∧
      text = body ++ ['*', '/'] ++ tail ∧ ¬ ['*', '/'] <:+: body) ∨
    (blockBody text = (text, false) ∧ ¬ ['*', '/'] <:+: text) := by
  have hcons : ∀ (c : Char) (body : List Char), ¬ ['*', '/'] <:+: body →
      (c = '*' → body.head? ≠ some '/') → ¬ ['*', '/'] <:+: c :: body := by
    intro c body hbody hhead hin
    rcases List.infix_cons_iff.mp hin with ⟨tail, htail⟩ | hin
    · rw [List.cons_append, List.cons_append, List.cons.injEq] at htail
      exact hhead htail.1.symm (by rw [← htail.2]; rfl)
    · exact hbody hin
  fun_induction blockBody text with
  | case1 => exact .inr ⟨rfl, by simp⟩
  | case2 tail => exact .inl ⟨[], tail, rfl, rfl, by simp⟩
  | case3 c rest h ih =>
    rcases ih with ⟨body, tail, hbody, hrest, hin⟩ | ⟨hopen, hin⟩
    · refine .inl ⟨c :: body, tail, by rw [hbody]; rfl, by rw [hrest]; rfl, hcons c body hin ?_⟩
      rintro rfl hhead
      cases body with
      | nil => cases hhead
      | cons d body =>
        obtain rfl : d = '/' := by simpa using hhead
        exact h (body ++ ['*', '/'] ++ tail) rfl hrest
    · refine .inr ⟨by rw [hopen], hcons c rest hin ?_⟩
      rintro rfl hhead
      cases rest with
      | nil => cases hhead
      | cons d rest =>
        obtain rfl : d = '/' := by simpa using hhead
        exact h rest rfl rfl

/-! ### Single pieces -/

/-- A piece at `p` that is the front of `text` and stands before `tail` is white space, another gap
    or a token, with its flaws as what there is to report. -/
inductive Piece.Laid (file : String) (p : Position) (text tail : List Char) : Piece → Prop where
  | blanks {run : List Char} : (∀ c ∈ run, isBlank c = true) →
      Laid file p text tail ⟨.blank, run, []⟩
  | gap {q : Piece} {strays : List (Char × Span)} : (∀ kind lexeme, q.role ≠ .token kind lexeme) →
      Gap file p q.text tail strays (q.flaws.map (Flaw.report file p text)) →
      Laid file p text tail q
  | token {q : Piece} {kind : TokenKind} {lexeme : String} : q.role = .token kind lexeme →
      Placed file p q.text tail ⟨kind, lexeme, ⟨file, p, p.after q.text⟩⟩
        (q.flaws.map (Flaw.report file p text)) →
      Laid file p text tail q

namespace Piece

variable {file : String} {p : Position} {tail : List Char}

/-- A piece without flaws whose lexeme is its text is a token placed where it starts. -/
theorem Laid.of_lexeme {text run : List Char} {kind : TokenKind} (hne : run ≠ [])
    (hhex : run ∉ [['0', 'x'], ['0', 'X']]) (hstring : kind ≠ .stringLiteral) (heof : kind ≠ .eof) :
    Laid file p text tail ⟨.token kind (String.ofList run), run, []⟩ :=
  .token rfl (.plain hne hhex hstring heof)

theorem laid_stringLiteral {rest : List Char}
    (h : '"' :: rest = (stringLiteral rest).text ++ tail) :
    Laid file p ('"' :: rest) tail (stringLiteral rest) := by
  have hrest : rest = (stringBody 1 rest).text ++ tail := (List.cons.inj h).2
  exact .token rfl (.string (literal_stringBody file p 1 rest ['"'] tail rfl hrest))

theorem laid_blockComment {rest : List Char}
    (h : '/' :: '*' :: rest = (blockComment rest).text ++ tail) :
    Laid file p ('/' :: '*' :: rest) tail (blockComment rest) := by
  have hrole : ∀ kind lexeme, (blockComment rest).role ≠ .token kind lexeme := by
    intro kind lexeme hrole
    cases hrole
  rcases blockBody_spec rest with ⟨body, behind, hbody, hrest, hin⟩ | ⟨hopen, hin⟩
  · have hgap : Gap file p (blockComment rest).text tail []
        ((blockComment rest).flaws.map (Flaw.report file p ('/' :: '*' :: rest))) := by
      simp only [blockComment, hbody, if_true]
      exact .blockComment hin
    exact .gap hrole hgap
  · have htail : tail = [] := by simpa [blockComment, hopen] using h
    have hgap : Gap file p (blockComment rest).text tail []
        ((blockComment rest).flaws.map (Flaw.report file p ('/' :: '*' :: rest))) := by
      simp only [blockComment, hopen, htail, Bool.false_eq_true, if_false, List.map_cons,
        List.map_nil, Flaw.report, List.take_length]
      exact .openComment hin
    exact .gap hrole hgap

theorem laid_lineComment {rest : List Char} (h : rest = rest.takeWhile (· != '\n') ++ tail) :
    Laid file p ('/' :: '/' :: rest) tail
      ⟨.lineComment, '/' :: '/' :: rest.takeWhile (· != '\n'), []⟩ := by
  have hbody : '\n' ∉ rest.takeWhile (· != '\n') := by
    intro hin
    simpa using List.mem_takeWhile_imp hin
  have hend : tail = [] ∨ tail.head? = some '\n' := by
    have htail : tail = rest.dropWhile (· != '\n') := by
      have hall := List.takeWhile_append_dropWhile (p := (· != '\n')) (l := rest)
      exact List.append_cancel_left (h.symm.trans hall.symm)
    have hhead := List.head?_dropWhile_not (· != '\n') rest
    rw [← htail] at hhead
    cases tail with
    | nil => exact .inl rfl
    | cons d tail => exact .inr (by simpa using hhead)
  exact .gap (by simp) (.lineComment hbody hend)

/-- A number that is not a hexadecimal one is written as its lexeme. -/
theorem laid_decimal {text : List Char} (hne : (decimal text).text ≠ [])
    (hx : ∀ x rest, text = '0' :: x :: rest → x ≠ 'x' ∧ x ≠ 'X') :
    Laid file p text tail (decimal text) := by
  obtain ⟨behind, hbehind⟩ := decimal_front text
  refine .of_lexeme hne ?_ ?_ ?_
  · intro hin
    simp only [List.mem_cons, List.not_mem_nil, or_false] at hin
    rcases hin with hin | hin
    · exact (hx 'x' behind (by rw [← hbehind]; exact congrArg (· ++ behind) hin)).1 rfl
    · exact (hx 'X' behind (by rw [← hbehind]; exact congrArg (· ++ behind) hin)).2 rfl
  · split <;> simp
  · split <;> simp

theorem laid_hexadecimal {x : Char} (hx : x = 'x' ∨ x = 'X') (rest : List Char) :
    Laid file p ('0' :: x :: rest) tail (hexadecimal x rest) := by
  cases hdigits : rest.takeWhile isHexDigit with
  | nil =>
    refine .token rfl ?_
    simp only [hexadecimal, hdigits, List.isEmpty_nil, if_true, List.map_cons, List.map_nil]
    exact .digitless hx
  | cons d digits =>
    simp only [hexadecimal, hdigits, List.isEmpty_cons, Bool.false_eq_true, if_false]
    exact .of_lexeme (by simp) (by simp) (by simp) (by simp)

theorem laid_word {text run : List Char} {c : Char} (hc : startsIdentifier c = true) :
    Laid file p text tail (word (c :: run)) := by
  have hzero : c ≠ '0' := by
    rintro rfl
    exact absurd hc (by decide)
  refine .of_lexeme (by simp) (by simp [hzero]) ?_ ?_
  · split <;> simp
  · split <;> simp

theorem laid_plain {c : Char} {rest : List Char} (h : Mark.ofChar? c = none → Illegal c rest) :
    Laid file p (c :: rest) rest (plain c) := by
  unfold plain
  cases hm : Mark.ofChar? c with
  | some m => exact .of_lexeme (by simp) (by simp) (by simp) (by simp)
  | none => exact .gap (by simp) (.stray (h hm))

theorem laid_number {text : List Char} (hne : (number text).text ≠ []) :
    Laid file p text tail (number text) := by
  revert hne
  unfold number
  split
  · exact fun _ => laid_hexadecimal (.inl rfl) _
  · exact fun _ => laid_hexadecimal (.inr rfl) _
  · next hx hX =>
    refine fun hne => laid_decimal hne fun x behind htext => ⟨?_, ?_⟩
    · rintro rfl
      exact hx behind htext
    · rintro rfl
      exact hX behind htext

/-- A character that starts no other piece is a mark or an illegal character. -/
theorem laid_plain_of_not {c : Char} {rest : List Char} (hblank : isBlank c = false)
    (hdigit : c.isDigit = false) (hstart : startsIdentifier c = false) (hquote : c ≠ '"')
    (hline : c = '/' → rest.head? ≠ some '/') (hblock : c = '/' → rest.head? ≠ some '*') :
    Laid file p (c :: rest) rest (plain c) := by
  simp only [startsIdentifier, Bool.or_eq_false_iff, beq_eq_false_iff_ne] at hstart
  refine laid_plain fun hmark => ⟨hblank, ?_, ?_, fun hc => ⟨hline hc, hblock hc⟩⟩
  · rw [Char.isAlphanum, hstart.1, hdigit, Bool.false_or]
  · intro hin
    have hmem : c ∈ '_' :: (Mark.all.map Mark.char ++ ['"']) := hin
    rcases List.mem_cons.mp hmem with rfl | hmem
    · exact hstart.2 rfl
    rcases List.mem_append.mp hmem with hmem | hmem
    · obtain ⟨m, hm, rfl⟩ := List.mem_map.mp hmem
      simpa using List.find?_eq_none.mp hmark m hm
    · exact hquote (List.mem_singleton.mp hmem)

theorem laid_first {c : Char} {rest : List Char} (h : c :: rest = (first c rest).text ++ tail) :
    Laid file p (c :: rest) tail (first c rest) := by
  have hne := first_ne_nil c rest
  revert h hne
  unfold first
  split
  · next hblank =>
    refine fun _ _ => .blanks ?_
    intro d hd
    rcases List.mem_cons.mp hd with rfl | hd
    · exact hblank
    · exact List.mem_takeWhile_imp hd
  next hblank =>
  split
  · exact fun _ hne => laid_number hne
  next hdigit =>
  split
  · next hstart => exact fun _ _ => laid_word hstart
  next hstart =>
  split
  · intro h _
    exact laid_lineComment (List.cons.inj (List.cons.inj h).2).2
  · exact fun h _ => laid_blockComment h
  · exact fun h _ => laid_stringLiteral h
  · split
    · refine fun _ hne => laid_decimal hne ?_
      rintro x behind htext
      cases htext
    · intro h _
      obtain rfl : _ = tail := (List.cons.inj h).2
      exact laid_plain_of_not (by decide) (by decide) (by decide) (by decide) (by simp) (by simp)
  · next hquote hline hblock _ =>
    intro h _
    rw [text_plain] at h
    obtain rfl : rest = tail := (List.cons.inj h).2
    refine laid_plain_of_not (by simpa using hblank) (by simpa using hdigit) (by simpa using hstart)
      hquote ?_ ?_
    · intro hc hhead
      cases rest with
      | nil => cases hhead
      | cons d rest => exact hline rest hc (by rw [Option.some.inj hhead])
    · intro hc hhead
      cases rest with
      | nil => cases hhead
      | cons d rest => exact hblock rest hc (by rw [Option.some.inj hhead])

end Piece

/-! ### Whole texts -/

/-- White space in front of a layout belongs to it. -/
theorem Layout.blanks {file : String} {p : Position} {run rest : List Char} {tokens : List Token}
    {strays : List (Char × Span)} {reports : List Diagnostic} (hrun : ∀ c ∈ run, isBlank c = true)
    (h : Layout file (p.after run) rest tokens strays reports) :
    Layout file p (run ++ rest) tokens strays reports := by
  induction run generalizing p with
  | nil => exact h
  | cons c run ih =>
    have htail := ih (fun d hd => hrun d (List.mem_cons_of_mem _ hd)) h
    exact .gap (.blank (hrun c (List.mem_cons_self ..))) htail

/-- A cursor moves over a piece of the text in front of it. -/
theorem Cursor.skip_text {file : String} {p : Position} {text run tail : List Char}
    (h : text = run ++ tail) :
    (⟨file, p, text⟩ : Cursor).skip run.length = ⟨file, p.after run, tail⟩ := by
  subst h
  simp only [Cursor.skip, List.take_left, List.drop_left]

/-- A laid piece in front of a layout belongs to it, with its token and its diagnostics. -/
theorem Piece.Laid.exists_layout {file : String} {p : Position} {text tail : List Char} {q : Piece}
    {tokens : List Token} {strays : List (Char × Span)} {reports : List Diagnostic}
    (hq : Laid file p text tail q) (htext : text = q.text ++ tail)
    (h : Layout file (p.after q.text) tail tokens strays reports) :
    ∃ strays', Layout file p text ((Lexed.tokenAt ⟨file, p, text⟩ q).toList ++ tokens) strays'
      (Lexed.flawsAt ⟨file, p, text⟩ q ++ reports) := by
  have hflaws : Lexed.flawsAt ⟨file, p, text⟩ q = q.flaws.map (Flaw.report file p text) := rfl
  cases hq with
  | @blanks run hrun =>
    have hlayout := Layout.blanks hrun h
    rw [← htext] at hlayout
    exact ⟨strays, hlayout⟩
  | @gap q strays' hrole hgap =>
    have htoken : Lexed.tokenAt ⟨file, p, text⟩ q = none := by
      unfold Lexed.tokenAt
      split
      · next kind lexeme h => exact absurd h (hrole kind lexeme)
      · rfl
    rw [hflaws, htoken]
    have hlayout := Layout.gap hgap h
    rw [← htext] at hlayout
    exact ⟨strays' ++ strays, hlayout⟩
  | @token q kind lexeme hrole hplaced =>
    have htoken : Lexed.tokenAt ⟨file, p, text⟩ q =
        some ⟨kind, lexeme, ⟨file, p, p.after q.text⟩⟩ := by
      rw [Lexed.tokenAt, hrole, Cursor.skip_text htext]
      rfl
    rw [hflaws, htoken]
    have hlayout := Layout.token hplaced h
    rw [← htext] at hlayout
    exact ⟨strays, hlayout⟩

/-- The pieces of a text lay it out. -/
theorem Lexed.exists_layout (file : String) (p : Position) (text : List Char) :
    ∃ strays, Layout file p text (ofPieces ⟨file, p, text⟩ (Piece.split text)).tokens strays
      (ofPieces ⟨file, p, text⟩ (Piece.split text)).diagnostics := by
  induction text using Piece.split_induction generalizing p with
  | nil =>
    rw [Piece.split]
    exact ⟨[], .done⟩
  | cons c rest tail htext hsplit ih =>
    obtain ⟨strays, hlayout⟩ := ih (p.after (Piece.first c rest).text)
    rw [hsplit, ofPieces, Cursor.skip_text htext]
    exact (Piece.laid_first htext).exists_layout htext hlayout

/-- Tokens and gaps partition a text whose illegal characters are `strays`. -/
structure Lexed.Partition (file : String) (text : List Char) (lexed : Lexed)
    (strays : List (Char × Span)) : Prop where
  /-- The text is a row of gaps and tokens, and only they are reported on. -/
  layout : Layout file .first text lexed.tokens strays lexed.diagnostics
  /-- The last token, and only it, is the end of the file, behind everything. -/
  ends : ∃ init, lexed.tokens = init ++
      [⟨.eof, "", ⟨file, Position.first.after text, Position.first.after text⟩⟩] ∧
    ∀ t ∈ init, t.kind ≠ .eof
  /-- A token ends where the next one starts, or before. -/
  ordered : lexed.tokens.Pairwise fun a b => a.span.stop.offset ≤ b.span.start.offset
  /-- Every token is written where its span says. -/
  written : ∀ t ∈ lexed.tokens, ∃ before run behind, text = before ++ run ++ behind ∧
    WrittenAs t run ∧
    t.span = ⟨file, Position.first.after before, Position.first.after (before ++ run)⟩
  /-- Every illegal character has one error on its own span, and there is no other such error. -/
  reported : lexed.diagnostics.filter isUnexpected = strays.map fun (c, span) => unexpected c span
  /-- No place in the text goes beyond 32 bits. -/
  fits : ∀ before, before <+: text → (Position.first.after before).Fits32

/-- Reading a text of less than 2³² - 1 bytes partitions it. -/
theorem Lexed.partitions_source (source file : String) (hsize : source.utf8ByteSize < 2 ^ 32 - 1) :
    ∃ strays, Partition file source.toList (ofSource source file) strays := by
  obtain ⟨strays, hlayout⟩ := exists_layout file .first source.toList
  refine ⟨strays, hlayout, hlayout.exists_eof, hlayout.pairwise,
    fun t ht => hlayout.exists_written ht, hlayout.filter_isUnexpected, ?_⟩
  rintro before ⟨behind, hbehind⟩
  have hlength : source.utf8ByteSize = String.utf8Len before + String.utf8Len behind := by
    rw [← String.utf8Len_append, hbehind, String.utf8Len_toList]
  exact Position.fits32_after_first (by omega)

theorem Lexed.partitions_hp_source :
    "hp: /*!*/ 0x # \"\\q\";".utf8ByteSize < 2 ^ 32 - 1 ∧
      ∃ strays, Partition "hp.fbs" "hp: /*!*/ 0x # \"\\q\";".toList
        (ofSource "hp: /*!*/ 0x # \"\\q\";" "hp.fbs") strays :=
  ⟨by decide, partitions_source "hp: /*!*/ 0x # \"\\q\";" "hp.fbs" (by decide)⟩

end FlatSchema
