import FlatSchema.Proofs.Source.Shift
import FlatSchema.Proofs.Token.Writing

/-!
Tokens of two texts with a line feed between them. No piece reads over a line feed, apart from
comments and strings that are still open there; so the first text keeps its pieces, whatever comes
behind the line feed, and the second text begins as if it were alone, on a line of its own.

        first    hp: int  // points
        second   mana: int
        ↦        hp : int mana : int        the last three one line further down
-/

namespace FlatSchema

namespace Piece

/-! ### Pieces before a line feed -/

/-- A line feed ends a run of characters that it is not one of. -/
theorem takeWhile_lineFeed {p : Char → Bool} (hp : p '\n' = false) (text more : List Char) :
    (text ++ '\n' :: more).takeWhile p = text.takeWhile p := by
  induction text with
  | nil => exact List.takeWhile_cons_of_neg (by simp [hp])
  | cons c text ih =>
    rw [List.cons_append, List.takeWhile_cons, List.takeWhile_cons, ih]

theorem fraction_lineFeed (text more : List Char) :
    fraction (text ++ '\n' :: more) = fraction text := by
  have htake := takeWhile_lineFeed (p := Char.isDigit) (by decide)
  match text with
  | [] => rfl
  | [c] => by_cases hc : c = '.' <;> simp [fraction, hc]
  | c :: d :: rest => by_cases hc : c = '.' <;> simp [fraction, hc, htake]

theorem exponent_lineFeed (text more : List Char) :
    exponent (text ++ '\n' :: more) = exponent text := by
  have htake := takeWhile_lineFeed (p := Char.isDigit) (by decide)
  match text with
  | [] => cases more <;> simp [exponent, isExponentLetter]
  | [c] => simp [exponent, isSign]
  | c :: d :: rest => simp [exponent, htake]

theorem decimal_lineFeed (text more : List Char) :
    decimal (text ++ '\n' :: more) = decimal text := by
  have hwhole := takeWhile_lineFeed (p := Char.isDigit) (by decide) text more
  obtain ⟨a, ha⟩ := List.takeWhile_prefix (l := text) Char.isDigit
  obtain ⟨b, hb⟩ := fraction_front a
  generalize hw : text.takeWhile Char.isDigit = whole at ha hwhole
  generalize hf : fraction a = fractional at hb
  subst hb ha
  have hf' : fraction (fractional ++ (b ++ '\n' :: more)) = fractional := by
    rw [← List.append_assoc, fraction_lineFeed, hf]
  rw [List.append_assoc, List.append_assoc] at hwhole ⊢
  rw [decimal_eq hw hf, decimal_eq hwhole hf', exponent_lineFeed]

theorem number_of_not_hexadecimal {text : List Char}
    (h : ∀ x rest, x = 'x' ∨ x = 'X' → text ≠ '0' :: x :: rest) : number text = decimal text := by
  unfold number
  split
  · exact absurd rfl (h _ _ (.inl rfl))
  · exact absurd rfl (h _ _ (.inr rfl))
  · rfl

theorem hexadecimal_lineFeed (x : Char) (text more : List Char) :
    hexadecimal x (text ++ '\n' :: more) = hexadecimal x text := by
  rw [hexadecimal, hexadecimal, takeWhile_lineFeed (by decide)]

theorem number_lineFeed (text more : List Char) :
    number (text ++ '\n' :: more) = number text := by
  by_cases h : ∃ x rest, (x = 'x' ∨ x = 'X') ∧ text = '0' :: x :: rest
  · obtain ⟨x, rest, hx, rfl⟩ := h
    rcases hx with rfl | rfl
    · exact hexadecimal_lineFeed 'x' rest more
    · exact hexadecimal_lineFeed 'X' rest more
  · have hnot (x : Char) (rest : List Char) (hx : x = 'x' ∨ x = 'X') : text ≠ '0' :: x :: rest :=
      fun htext => h ⟨x, rest, hx, htext⟩
    rw [number_of_not_hexadecimal hnot, number_of_not_hexadecimal, decimal_lineFeed]
    intro x rest hx htext
    match text with
    | [] => exact absurd (List.cons.inj htext).1 (by decide)
    | [c] =>
      obtain rfl : '\n' = x := (List.cons.inj (List.cons.inj htext).2).1
      exact absurd hx (by decide)
    | c :: d :: text =>
      obtain ⟨rfl, htail⟩ := List.cons.inj htext
      obtain ⟨rfl, -⟩ := List.cons.inj htail
      exact hnot d text hx rfl

/-- A string literal without flaws is closed, and ends there. -/
theorem stringBody_append {n : Nat} {text : List Char} (h : (stringBody n text).flaws = [])
    (more : List Char) : stringBody n (text ++ more) = stringBody n text := by
  fun_induction stringBody n text with
  | case1 => cases h
  | case2 => rfl
  | case3 => cases h
  | case4 => cases h
  | case5 n c rest body v hv ih =>
    rw [List.cons_append, List.cons_append, stringBody, ih h, hv]
  | case6 n c rest hv body ih => cases h
  | case7 n c rest hquote hfeed hlast hback body ih =>
    have hplain : c ≠ '\\' := by
      rintro rfl
      cases rest with
      | nil => exact hlast rfl rfl
      | cons d rest => exact hback d rest rfl rfl
    rw [List.cons_append, stringBody, ih h]
    · exact hquote
    · exact hfeed
    · exact fun h => absurd h hplain
    · exact fun _ _ h => absurd h hplain

/-- A block comment that is closed ends there. -/
theorem blockBody_append {text : List Char} (h : (blockBody text).2 = true) (more : List Char) :
    blockBody (text ++ more) = blockBody text := by
  fun_induction blockBody text with
  | case1 => cases h
  | case2 => rfl
  | case3 c rest hc ih =>
    rw [List.cons_append, blockBody, ih h]
    rintro r rfl hr
    cases rest with
    | nil => cases h
    | cons d rest => exact hc _ rfl (by rw [(List.cons.inj hr).1])

theorem blockComment_append {rest : List Char} (h : (blockComment rest).flaws = [])
    (more : List Char) : blockComment (rest ++ more) = blockComment rest := by
  have hclosed : (blockBody rest).2 = true := by
    by_contra hopen
    simp [blockComment, hopen] at h
  rw [blockComment, blockBody_append hclosed]
  rfl

theorem stringLiteral_append {rest : List Char} (h : (stringLiteral rest).flaws = [])
    (more : List Char) : stringLiteral (rest ++ more) = stringLiteral rest := by
  rw [stringLiteral, stringBody_append h]
  rfl

/-- The dot of a fraction, the start of a comment and a quote apart, any other character is a piece
    by itself. -/
theorem first_eq_plain {c : Char} {rest : List Char} (hblank : isBlank c = false)
    (hdigit : c.isDigit = false) (hstart : startsIdentifier c = false) (hquote : c ≠ '"')
    (hslash : c = '/' → ∀ d ∈ rest.head?, d ≠ '/' ∧ d ≠ '*')
    (hdot : c = '.' → ∀ d ∈ rest.head?, d.isDigit = false) : first c rest = plain c := by
  unfold first
  rw [if_neg (by simp [hblank]), if_neg (by simp [hdigit]), if_neg (by simp [hstart])]
  split
  · exact absurd rfl (hslash rfl _ rfl).1
  · exact absurd rfl (hslash rfl _ rfl).2
  · exact absurd rfl hquote
  · rw [if_neg (by simp [hdot rfl _ rfl])]
  · rfl

theorem forall_head?_lineFeed {p : Char → Prop} {text : List Char} (h : ∀ d ∈ text.head?, p d)
    (hp : p '\n') (more : List Char) : ∀ d ∈ (text ++ '\n' :: more).head?, p d := by
  cases text with
  | nil =>
    rintro d hd
    obtain rfl : '\n' = d := Option.some.inj hd
    exact hp
  | cons c text => exact h

/-- A piece without flaws that is not white space does not change with what follows the next line
    feed. -/
theorem first_lineFeed {c : Char} {text : List Char} (hblank : isBlank c = false)
    (h : (first c text).flaws = []) (more : List Char) :
    first c (text ++ '\n' :: more) = first c text := by
  by_cases hdigit : c.isDigit = true
  · rw [first_of_digit hdigit, first_of_digit hdigit]
    exact number_lineFeed (c :: text) more
  by_cases hstart : startsIdentifier c = true
  · unfold first
    rw [takeWhile_lineFeed (p := continuesIdentifier) (by decide)]
    simp [hblank, hdigit, hstart]
  by_cases hquote : c = '"'
  · subst hquote
    exact stringLiteral_append h _
  by_cases hslash : c = '/' ∧ ∃ d rest, text = d :: rest ∧ (d = '/' ∨ d = '*')
  · obtain ⟨rfl, d, rest, rfl, rfl | rfl⟩ := hslash
    · have htake := takeWhile_lineFeed (p := (· != '\n')) (by decide) ('/' :: rest) more
      exact congrArg (fun run => Piece.mk .lineComment ('/' :: run) []) htake
    · exact blockComment_append h _
  by_cases hdot : c = '.' ∧ ∃ d rest, text = d :: rest ∧ d.isDigit = true
  · obtain ⟨rfl, d, rest, rfl, hd⟩ := hdot
    rw [List.cons_append, first_dot, first_dot, if_pos hd, if_pos hd]
    exact decimal_lineFeed ('.' :: d :: rest) more
  rw [Bool.not_eq_true] at hdigit hstart
  have hslash (hc : c = '/') : ∀ d ∈ text.head?, d ≠ '/' ∧ d ≠ '*' := by
    intro d hd
    obtain ⟨rest, rfl⟩ := List.head?_eq_some_iff.mp hd
    exact not_or.mp fun hor => hslash ⟨hc, d, rest, rfl, hor⟩
  have hdot (hc : c = '.') : ∀ d ∈ text.head?, d.isDigit = false := by
    intro d hd
    obtain ⟨rest, rfl⟩ := List.head?_eq_some_iff.mp hd
    exact Bool.eq_false_iff.mpr fun hor => hdot ⟨hc, d, rest, rfl, hor⟩
  rw [first_eq_plain hblank hdigit hstart hquote hslash hdot,
    first_eq_plain hblank hdigit hstart hquote]
  · exact fun hc => forall_head?_lineFeed (hslash hc) (by decide) more
  · exact fun hc => forall_head?_lineFeed (hdot hc) (by decide) more

end Piece

namespace Lexed

/-! ### Texts at a place -/

section Texts

variable {file : String} {p : Position} {c : Char} {text rest tail : List Char} {q : Piece}

/-- The tokens of a text that begins at a place. -/
def ofText (file : String) (p : Position) (text : List Char) : Lexed :=
  ofPieces ⟨file, p, text⟩ (Piece.split text)

/-- The first piece gives its token and its flaws, and what is left is read behind it. -/
theorem ofText_cons (h : c :: rest = (Piece.first c rest).text ++ tail) :
    ofText file p (c :: rest) =
      ⟨(tokenAt ⟨file, p, c :: rest⟩ (Piece.first c rest)).toList ++
          (ofText file (p.after (Piece.first c rest).text) tail).tokens,
        flawsAt ⟨file, p, c :: rest⟩ (Piece.first c rest) ++
          (ofText file (p.after (Piece.first c rest).text) tail).diagnostics⟩ := by
  rw [ofText, Piece.split_cons h, ofPieces, Cursor.skip_text h]
  rfl

/-- The token of a piece does not depend on what stands behind the piece. -/
theorem tokenAt_congr (file : String) (p : Position) {text' tail' : List Char}
    (h : text = q.text ++ tail) (h' : text' = q.text ++ tail') :
    tokenAt ⟨file, p, text⟩ q = tokenAt ⟨file, p, text'⟩ q := by
  unfold tokenAt
  rw [Cursor.skip_text h, Cursor.skip_text h']
  rfl

/-- White space only moves what follows it. -/
theorem ofText_blank (hc : isBlank c = true) (text : List Char) :
    ofText file p (c :: text) = ofText file (p.next c) text := by
  have hrun {p : Position} {c : Char} (hc : isBlank c = true) (text : List Char) :
      ofText file p (c :: text) =
        ofText file ((p.next c).after (text.takeWhile isBlank)) (text.dropWhile isBlank) := by
    have hfirst := Piece.first_blank hc text
    have hcut : c :: text = (Piece.first c text).text ++ text.dropWhile isBlank := by
      rw [hfirst, List.cons_append, List.takeWhile_append_dropWhile]
    rw [ofText_cons hcut, hfirst]
    rfl
  rw [hrun hc]
  cases text with
  | nil => rfl
  | cons d rest =>
    by_cases hd : isBlank d = true
    · rw [hrun hd, List.takeWhile_cons_of_pos hd, List.dropWhile_cons_of_pos hd,
        Position.after_cons]
    · rw [List.takeWhile_cons_of_neg hd, List.dropWhile_cons_of_neg hd, Position.after_nil]

theorem ofText_blanks {run : List Char} (hrun : ∀ c ∈ run, isBlank c = true) (text : List Char) :
    ofText file p (run ++ text) = ofText file (p.after run) text := by
  induction run generalizing p with
  | nil => rfl
  | cons c run ih =>
    obtain ⟨hc, hrun⟩ := List.forall_mem_cons.mp hrun
    rw [List.cons_append, ofText_blank hc, ih hrun, Position.after_cons]

/-- A text without flaws keeps its tokens, and what stands behind a line feed is read by itself. -/
theorem exists_ofText_lineFeed (h : (ofText file p text).diagnostics = []) (more : List Char) :
    ∃ init, (ofText file p text).tokens = init ++ [.eof ⟨file, p.after text, p.after text⟩] ∧
      ofText file p (text ++ '\n' :: more) =
        ⟨init ++ (ofText file ((p.after text).next '\n') more).tokens,
          (ofText file ((p.after text).next '\n') more).diagnostics⟩ := by
  induction text using Piece.split_induction generalizing p with
  | nil =>
    refine ⟨[], ?_, ofText_blank (by decide) more⟩
    rw [ofText, Piece.split]
    rfl
  | cons c rest tail htext _ ih =>
    by_cases hc : isBlank c = true
    · have hrun : ∀ d ∈ (Piece.first c rest).text, isBlank d = true := by
        rw [Piece.first_blank hc]
        exact List.forall_mem_cons.mpr ⟨hc, fun d hd => List.mem_takeWhile_imp hd⟩
      rw [htext, ofText_blanks hrun] at h
      rw [htext, List.append_assoc, ofText_blanks hrun, ofText_blanks hrun, Position.after_append]
      exact ih h
    · rw [ofText_cons htext, List.append_eq_nil_iff] at h
      have hflaws : (Piece.first c rest).flaws = [] := List.map_eq_nil_iff.mp h.1
      have hfirst := Piece.first_lineFeed (by simpa using hc) hflaws more
      have htext' : c :: (rest ++ '\n' :: more) =
          (Piece.first c (rest ++ '\n' :: more)).text ++ (tail ++ '\n' :: more) := by
        rw [hfirst, ← List.append_assoc, ← htext, List.cons_append]
      obtain ⟨init, htokens, hmore⟩ := ih h.2
      have hafter : p.after (c :: rest) = (p.after (Piece.first c rest).text).after tail := by
        rw [htext, Position.after_append]
      have hflawsAt : flawsAt ⟨file, p, c :: (rest ++ '\n' :: more)⟩ (Piece.first c rest) = [] := by
        rw [flawsAt, hflaws]
        rfl
      have htoken := tokenAt_congr file p htext (hfirst ▸ htext')
      rw [ofText_cons htext, List.cons_append, ofText_cons htext', hfirst, hflawsAt, hmore, hafter,
        ← htoken, htokens]
      exact ⟨_, (List.append_assoc ..).symm, by simp⟩

end Texts

/-! ### Moving -/

/-- Tokens and diagnostics with every span changed. -/
def mapSpans (f : Span → Span) (l : Lexed) : Lexed :=
  ⟨l.tokens.map (Token.mapSpan f), l.diagnostics.map (Diagnostic.mapSpans f)⟩

/-- A text that is moved has its tokens and its diagnostics moved. -/
theorem ofPieces_shift (m : Shift) (file : String) (p : Position) (text : List Char)
    (ps : List Piece) :
    ofPieces ⟨file, m.position p, text⟩ ps = (ofPieces ⟨file, p, text⟩ ps).mapSpans m.span := by
  have hskip (p : Position) (text : List Char) (n : Nat) :
      (⟨file, m.position p, text⟩ : Cursor).skip n =
        ⟨file, m.position (p.after (text.take n)), text.drop n⟩ := by
    rw [Cursor.skip, m.position_after]
  induction ps generalizing p text with
  | nil => rfl
  | cons q ps ih =>
    have htoken : tokenAt ⟨file, m.position p, text⟩ q =
        (tokenAt ⟨file, p, text⟩ q).map (Token.mapSpan m.span) := by
      unfold tokenAt
      rw [hskip]
      cases q.role <;> rfl
    have hflaws : flawsAt ⟨file, m.position p, text⟩ q =
        (flawsAt ⟨file, p, text⟩ q).map (Diagnostic.mapSpans m.span) := by
      rw [flawsAt, flawsAt, List.map_map]
      refine List.map_congr_left fun f _ => ?_
      simp only [hskip]
      rfl
    rw [ofPieces, ofPieces, htoken, hflaws, hskip, ih, mapSpans, mapSpans, List.map_append,
      List.map_append, Option.toList_map]
    rfl

/-- The tokens of two texts with a line feed between them, if the first one has no flaws: those of
    the first without its end, and those of the second moved behind it. -/
theorem exists_ofSource_append {first : String} (second file : String)
    (h : (ofSource first file).diagnostics = []) :
    ∃ init stop, (ofSource first file).tokens = init ++ [stop] ∧ stop.kind = .eof ∧
      (∀ t ∈ init, t.kind ≠ .eof) ∧
      ofSource (first ++ "\n" ++ second) file =
        ⟨init ++ (ofSource second file).tokens.map (Token.mapSpan (Shift.behind first).span),
          (ofSource second file).diagnostics.map
            (Diagnostic.mapSpans (Shift.behind first).span)⟩ := by
  obtain ⟨init, htokens, hmore⟩ := exists_ofText_lineFeed h second.toList
  obtain ⟨strays, hlayout⟩ := exists_layout file .first first.toList
  obtain ⟨init', htokens', hinit⟩ := hlayout.exists_eof
  obtain rfl : init = init' := List.append_cancel_right (htokens.symm.trans htokens')
  refine ⟨init, _, htokens, rfl, hinit, ?_⟩
  have htext : (first ++ "\n" ++ second).toList = first.toList ++ '\n' :: second.toList := by
    simp [String.toList_append]
  have hshift := ofPieces_shift (Shift.behind first) file .first second.toList
    (Piece.split second.toList)
  rw [← Position.first_after_line] at hshift
  show ofText file .first (first ++ "\n" ++ second).toList = _
  rw [htext, hmore, ofText, hshift]
  rfl

/-! ### Errors -/

/-- All that the tokens of a text have wrong with them are errors. -/
theorem isError_of_mem {c : Cursor} {ps : List Piece} {d : Diagnostic}
    (hd : d ∈ (ofPieces c ps).diagnostics) : d.isError = true := by
  induction ps generalizing c with
  | nil => cases hd
  | cons q ps ih =>
    rcases List.mem_append.mp hd with hd | hd
    · obtain ⟨f, -, rfl⟩ := List.mem_map.mp hd
      rfl
    · exact ih hd

/-- Without errors there is nothing to report. -/
theorem diagnostics_eq_nil {source file : String}
    (h : ∀ d ∈ (ofSource source file).diagnostics, d.isError = false) :
    (ofSource source file).diagnostics = [] := by
  refine List.eq_nil_iff_forall_not_mem.mpr fun d hd => ?_
  have herror := isError_of_mem hd
  rw [h d hd] at herror
  cases herror

end Lexed

end FlatSchema
