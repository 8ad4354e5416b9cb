import FlatSchema.Proofs.Token.Partition

/-!
Writing lexemes down. A lexeme is a token without a place: a word, a number, a string or a mark. It
can be written in several ways, since a string may escape more of its characters than it must, and
between two lexemes any white space and any complete comments may stand, but not nothing. However
lexemes are written, reading the text gives back exactly them, and nothing is reported.

        hp : "a⏎b"      ↦   hp /*!*/ : "a\nb"
-/

namespace FlatSchema

/-! ### Lexemes -/

/-- A letter or an underscore, and then letters, digits and underscores. -/
def IsWord (text : List Char) : Prop :=
  ∃ c run, text = c :: run ∧ Piece.startsIdentifier c = true ∧
    ∀ d ∈ run, Piece.continuesIdentifier d = true

theorem Keyword.isWord_text (k : Keyword) : IsWord k.text.toList := by
  cases k <;> exact ⟨_, _, rfl, rfl, List.all_eq_true.mp rfl⟩

/-- A word, which may be a keyword. -/
structure Word where
  text : List Char
  isWord : IsWord text

/-- An exponent with at least one digit, or none at all. -/
inductive IsExponent : List Char → Prop where
  | none : IsExponent []
  | some {e : Char} {sign digits : List Char} : e = 'e' ∨ e = 'E' →
      sign ∈ [[], ['+'], ['-']] → digits ≠ [] → (∀ d ∈ digits, d.isDigit = true) →
      IsExponent (e :: (sign ++ digits))

/-- A number in one of its forms, and the kind of its token. -/
inductive IsNumber : TokenKind → List Char → Prop where
  | decimal {digits : List Char} : digits ≠ [] → (∀ d ∈ digits, d.isDigit = true) →
      IsNumber .intLiteral digits
  | hexadecimal {x : Char} {digits : List Char} : x = 'x' ∨ x = 'X' → digits ≠ [] →
      (∀ d ∈ digits, Piece.isHexDigit d = true) → IsNumber .intLiteral ('0' :: x :: digits)
  | fraction {whole digits exponent : List Char} : (∀ d ∈ whole, d.isDigit = true) →
      digits ≠ [] → (∀ d ∈ digits, d.isDigit = true) → IsExponent exponent →
      IsNumber .floatLiteral (whole ++ '.' :: digits ++ exponent)
  | exponent {whole exponent : List Char} : whole ≠ [] → (∀ d ∈ whole, d.isDigit = true) →
      exponent ≠ [] → IsExponent exponent → IsNumber .floatLiteral (whole ++ exponent)

/-- A number of some kind. -/
structure Numeral where
  kind : TokenKind
  text : List Char
  isNumber : IsNumber kind text

/-- A token without a place. -/
inductive Lexeme where
  | word (w : Word)
  | number (n : Numeral)
  | string (value : List Char)
  | mark (m : Mark)

/-- A word is a keyword if it spells one. -/
def Word.kind (w : Word) : TokenKind :=
  match Keyword.ofText? (String.ofList w.text) with
  | some k => .keyword k
  | none => .identifier

namespace Lexeme

def kind : Lexeme → TokenKind
  | word w => w.kind
  | number n => n.kind
  | string _ => .stringLiteral
  | mark m => .mark m

def lexeme : Lexeme → String
  | word w => String.ofList w.text
  | number n => String.ofList n.text
  | string value => String.ofList value
  | mark m => String.singleton m.char

/-- Kind and lexeme together. -/
def glyph (x : Lexeme) : TokenKind × String := (x.kind, x.lexeme)

end Lexeme

/-- What a token is without its place. -/
def Token.glyph (t : Token) : TokenKind × String := (t.kind, t.lexeme)

/-! ### Texts -/

/-- The characters of a string between its quotes. Quotes, backslashes and line feeds are escaped,
    other characters may be. -/
inductive Quoted : List Char → List Char → Prop where
  | nil : Quoted [] []
  | plain {c : Char} {value text : List Char} : c ≠ '"' → c ≠ '\\' → c ≠ '\n' →
      Quoted value text → Quoted (c :: value) (c :: text)
  | escape {c v : Char} {value text : List Char} : (c, v) ∈ Layout.escapes →
      Quoted value text → Quoted (v :: value) ('\\' :: c :: text)

/-- The ways to write a lexeme. -/
inductive Lexeme.Writes : Lexeme → List Char → Prop where
  | word {w : Word} : Writes (.word w) w.text
  | number {n : Numeral} : Writes (.number n) n.text
  | string {value text : List Char} : Quoted value text →
      Writes (.string value) ('"' :: (text ++ ['"']))
  | mark {m : Mark} : Writes (.mark m) [m.char]

/-- White space and complete comments. -/
inductive IsGap : List Char → Prop where
  | blank {c : Char} : isBlank c = true → IsGap [c]
  | lineComment {body : List Char} : '\n' ∉ body → IsGap ('/' :: '/' :: (body ++ ['\n']))
  | blockComment {body : List Char} : ¬ ['*', '/'] <:+: body →
      IsGap ('/' :: '*' :: (body ++ ['*', '/']))

/-- Lexemes written one after the other, with gaps around them and at least one gap between two. -/
inductive Rendered : List Lexeme → List Char → Prop where
  | done : Rendered [] []
  | gap {gap text : List Char} {xs : List Lexeme} : IsGap gap → Rendered xs text →
      Rendered xs (gap ++ text)
  | last {x : Lexeme} {run : List Char} : x.Writes run → Rendered [x] run
  | more {x : Lexeme} {run gap text : List Char} {xs : List Lexeme} : x.Writes run → IsGap gap →
      Rendered xs text → Rendered (x :: xs) (run ++ (gap ++ text))

/-! ### One way to write -/

/-- A character between quotes, escaped only if it must be. -/
def quotedChar (c : Char) : List Char :=
  if c = '"' then ['\\', '"'] else if c = '\\' then ['\\', '\\']
  else if c = '\n' then ['\\', 'n'] else [c]

theorem quoted_flatMap (value : List Char) : Quoted value (value.flatMap quotedChar) := by
  induction value with
  | nil => exact .nil
  | cons c value ih =>
    rw [List.flatMap_cons]
    by_cases hquote : c = '"'
    · subst hquote
      exact .escape (by decide) ih
    by_cases hback : c = '\\'
    · subst hback
      exact .escape (by decide) ih
    by_cases hfeed : c = '\n'
    · subst hfeed
      exact .escape (by decide) ih
    rw [quotedChar, if_neg hquote, if_neg hback, if_neg hfeed]
    exact .plain hquote hback hfeed ih

/-- The shortest way to write a lexeme. -/
def Lexeme.plain : Lexeme → List Char
  | word w => w.text
  | number n => n.text
  | string value => '"' :: (value.flatMap quotedChar ++ ['"'])
  | mark m => [m.char]

theorem Lexeme.writes_plain (x : Lexeme) : x.Writes x.plain := by
  cases x with
  | word => exact .word
  | number => exact .number
  | string value => exact .string (quoted_flatMap value)
  | mark => exact .mark

/-- Lexemes with a space behind each. -/
def spaced (xs : List Lexeme) : List Char := xs.flatMap fun x => x.plain ++ [' ']

/-- All lexemes can be written down. -/
theorem rendered_spaced (xs : List Lexeme) : Rendered xs (spaced xs) := by
  induction xs with
  | nil => exact .done
  | cons x xs ih =>
    rw [spaced, List.flatMap_cons, List.append_assoc]
    exact .more x.writes_plain (.blank (by decide)) ih

/-! ### Where a token ends -/

/-- A text that goes on with white space or a comment, if it goes on. -/
def Ends (text : List Char) : Prop := ∀ c ∈ text.head?, isBlank c = true ∨ c = '/'

/-- No token goes on with white space or a slash. -/
theorem ends_token {c : Char} (h : isBlank c = true ∨ c = '/') :
    Piece.continuesIdentifier c = false ∧ c.isDigit = false ∧ Piece.isHexDigit c = false ∧
      Piece.isExponentLetter c = false ∧ c ≠ '.' := by
  rcases h with h | rfl
  · have hall : blanks.all (fun c => !Piece.continuesIdentifier c && !c.isDigit &&
        !Piece.isHexDigit c && !Piece.isExponentLetter c && c != '.') = true := by decide
    have hc := List.all_eq_true.mp hall c (by simpa [isBlank] using h)
    simpa [and_assoc] using hc
  · decide

theorem IsGap.ends {gap : List Char} (h : IsGap gap) (text : List Char) : Ends (gap ++ text) := by
  cases h with
  | blank hc =>
    rintro d hd
    obtain rfl : _ = d := by simpa using hd
    exact .inl hc
  | lineComment =>
    rintro d hd
    obtain rfl : '/' = d := by simpa using hd
    exact .inr rfl
  | blockComment =>
    rintro d hd
    obtain rfl : '/' = d := by simpa using hd
    exact .inr rfl

/-- A run of characters of one kind ends where another character comes. -/
theorem takeWhile_append {p : Char → Bool} {run tail : List Char} (hrun : ∀ c ∈ run, p c = true)
    (htail : ∀ c ∈ tail.head?, p c = false) : (run ++ tail).takeWhile p = run := by
  have hnil : tail.takeWhile p = [] := by
    cases tail with
    | nil => rfl
    | cons c tail => exact List.takeWhile_cons_of_neg (by simp [htail c rfl])
  rw [List.takeWhile_append_of_pos hrun, hnil, List.append_nil]

/-! ### Reading -/

namespace Piece

/-- What a piece is as a token, if it is one. -/
def glyph? (q : Piece) : Option (TokenKind × String) :=
  match q.role with
  | .token kind lexeme => some (kind, lexeme)
  | _ => none

/-- The pieces of a text are the lexemes `xs` and gaps, and nothing is wrong with them. -/
structure Spells (text : List Char) (xs : List Lexeme) : Prop where
  glyphs : (split text).filterMap glyph? = xs.map Lexeme.glyph
  flawless : ∀ q ∈ split text, q.flaws = []

variable {c : Char} {rest text tail : List Char} {xs : List Lexeme} {q : Piece}

theorem spells_nil : Spells [] [] := by
  constructor <;> simp [split]

theorem split_of_first (hq : first c rest = q) (h : c :: rest = q.text ++ tail) :
    split (c :: rest) = q :: split tail := by
  subst hq
  exact split_cons h

/-- A piece in front that is a gap changes nothing. -/
theorem spells_gap_iff (hq : first c rest = q) (h : c :: rest = q.text ++ tail)
    (hflaws : q.flaws = []) (hrole : q.glyph? = none) :
    Spells (c :: rest) xs ↔ Spells tail xs := by
  have hsplit := split_of_first hq h
  constructor
  · rintro ⟨hglyphs, hflawless⟩
    rw [hsplit] at hglyphs hflawless
    rw [List.filterMap_cons_none hrole] at hglyphs
    exact ⟨hglyphs, fun p hp => hflawless p (List.mem_cons_of_mem _ hp)⟩
  · rintro ⟨hglyphs, hflawless⟩
    refine ⟨?_, ?_⟩ <;> rw [hsplit]
    · rw [List.filterMap_cons_none hrole, hglyphs]
    · exact List.forall_mem_cons.mpr ⟨hflaws, hflawless⟩

/-- A piece in front that is a token is the first lexeme. -/
theorem spells_token {x : Lexeme} (hq : first c rest = q) (h : c :: rest = q.text ++ tail)
    (hflaws : q.flaws = []) (hrole : q.glyph? = some x.glyph) (htail : Spells tail xs) :
    Spells (c :: rest) (x :: xs) := by
  have hsplit := split_of_first hq h
  refine ⟨?_, ?_⟩ <;> rw [hsplit]
  · rw [List.filterMap_cons_some hrole, htail.glyphs]
    rfl
  · exact List.forall_mem_cons.mpr ⟨hflaws, htail.flawless⟩

theorem first_blank (hc : isBlank c = true) (rest : List Char) :
    first c rest = ⟨.blank, c :: rest.takeWhile isBlank, []⟩ := by
  unfold first
  rw [if_pos hc]

/-- White space in front changes nothing, also where more white space follows. -/
theorem spells_blank (hc : isBlank c = true) (h : Spells text xs) : Spells (c :: text) xs := by
  have hcut (d : Char) (rest : List Char) :
      d :: rest = (d :: rest.takeWhile isBlank) ++ rest.dropWhile isBlank := by simp
  rw [spells_gap_iff (first_blank hc text) (hcut c text) rfl rfl]
  cases text with
  | nil => exact h
  | cons d rest =>
    by_cases hd : isBlank d = true
    · rw [List.dropWhile_cons_of_pos hd]
      exact (spells_gap_iff (first_blank hd rest) (hcut d rest) rfl rfl).mp h
    · rwa [List.dropWhile_cons_of_neg hd]

theorem blockBody_closed {body : List Char} (h : ¬ ['*', '/'] <:+: body) (tail : List Char) :
    blockBody (body ++ ('*' :: '/' :: tail)) = (body ++ ['*', '/'], true) := by
  induction body with
  | nil => rfl
  | cons c body ih =>
    have hbody : ¬ ['*', '/'] <:+: body := fun hin => h (List.infix_cons hin)
    have hfirst : ∀ r, c = '*' → body ++ ('*' :: '/' :: tail) ≠ '/' :: r := by
      rintro r rfl heq
      cases body with
      | nil => cases heq
      | cons d body =>
        obtain rfl : d = '/' := (List.cons.inj heq).1
        exact h ⟨[], body, rfl⟩
    rw [List.cons_append, blockBody, ih hbody]
    · rfl
    · exact hfirst

/-- A gap in front changes nothing. -/
theorem spells_gap {gap : List Char} (hgap : IsGap gap) (h : Spells text xs) :
    Spells (gap ++ text) xs := by
  cases hgap with
  | blank hc => exact spells_blank hc h
  | @lineComment body hbody =>
    have htake : (body ++ ('\n' :: text)).takeWhile (· != '\n') = body := by
      refine takeWhile_append ?_ ?_
      · intro c hc
        simpa using fun heq : c = '\n' => hbody (heq ▸ hc)
      · simp
    have hfirst : first '/' ('/' :: (body ++ ('\n' :: text))) =
        ⟨.lineComment, '/' :: '/' :: body, []⟩ := by
      show Piece.mk .lineComment
        ('/' :: ('/' :: (body ++ ('\n' :: text))).takeWhile (· != '\n')) [] = _
      rw [List.takeWhile_cons_of_pos (by decide), htake]
    have htext : '/' :: '/' :: (body ++ ('\n' :: text)) =
        ('/' :: '/' :: body) ++ ('\n' :: text) := rfl
    have hspells := (spells_gap_iff hfirst htext rfl rfl).mpr (spells_blank (by decide) h)
    simpa using hspells
  | @blockComment body hbody =>
    have hfirst : first '/' ('*' :: (body ++ ('*' :: '/' :: text))) =
        ⟨.blockComment, '/' :: '*' :: (body ++ ['*', '/']), []⟩ := by
      show blockComment _ = _
      rw [blockComment, blockBody_closed hbody]
      rfl
    have htext : '/' :: '*' :: (body ++ ('*' :: '/' :: text)) =
        ('/' :: '*' :: (body ++ ['*', '/'])) ++ text := by simp
    have hspells := (spells_gap_iff hfirst htext rfl rfl).mpr h
    rwa [htext] at hspells

theorem stringBody_quoted {value text : List Char} (h : Quoted value text) (n : Nat)
    (tail : List Char) :
    stringBody n (text ++ ('"' :: tail)) = ⟨text ++ ['"'], value, []⟩ := by
  induction h generalizing n with
  | nil => rfl
  | @plain c value text hquote hback hfeed _ ih =>
    rw [List.cons_append, stringBody, ih]
    · rfl
    · exact hquote
    · exact hfeed
    · exact fun h => absurd h hback
    · exact fun _ _ h => absurd h hback
  | @escape c v value text hv _ ih =>
    rw [List.cons_append, List.cons_append, stringBody, ih]
    simp only [mem_escapes_iff.mp hv]
    rfl

/-! ### Single lexemes -/

/-- No token starts with white space. -/
theorem not_blank {c : Char} (h : startsIdentifier c = true ∨ c.isDigit = true) :
    isBlank c = false := by
  by_contra hblank
  obtain ⟨hcontinues, hdigit, -⟩ := ends_token (.inl (Bool.not_eq_false _ ▸ hblank))
  rcases h with h | h
  · have hcontinue : continuesIdentifier c = true := by
      simp only [startsIdentifier, Bool.or_eq_true] at h
      rcases h with h | h <;> simp [continuesIdentifier, Char.isAlphanum, h]
    simp [hcontinues] at hcontinue
  · simp [hdigit] at h

theorem not_digit_of_startsIdentifier {c : Char} (h : startsIdentifier c = true) :
    c.isDigit = false := by
  rw [Bool.eq_false_iff]
  intro hdigit
  have hbelow : c.val.toNat ≤ 57 := of_decide_eq_true (Bool.and_eq_true_iff.mp hdigit).2
  rcases Bool.or_eq_true_iff.mp h with hletter | hline
  · rcases Bool.or_eq_true_iff.mp hletter with hcase | hcase
    · have habove : 65 ≤ c.val.toNat := (of_decide_eq_true hcase).1
      omega
    · have habove : 97 ≤ c.val.toNat := of_decide_eq_true (Bool.and_eq_true_iff.mp hcase).1
      omega
  · obtain rfl : c = '_' := eq_of_beq hline
    exact absurd hbelow (by decide)

theorem first_word (w : Word) (htail : Ends tail) :
    ∃ c rest, w.text ++ tail = c :: rest ∧
      first c rest = ⟨.token w.kind (String.ofList w.text), w.text, []⟩ := by
  obtain ⟨_, c, run, rfl, hc, hrun⟩ := w
  have hblank := not_blank (.inl hc)
  have hdigit := not_digit_of_startsIdentifier hc
  refine ⟨c, run ++ tail, rfl, ?_⟩
  have htake : (run ++ tail).takeWhile continuesIdentifier = run :=
    takeWhile_append hrun fun d hd => (ends_token (htail d hd)).1
  unfold first
  rw [if_neg (by simp [hblank]), if_neg (by simp [hdigit]), if_pos hc, htake]
  rfl

theorem first_dot (d : Char) (rest : List Char) :
    first '.' (d :: rest) = if d.isDigit then decimal ('.' :: d :: rest) else plain '.' := rfl

theorem first_mark (m : Mark) (htail : Ends tail) :
    first m.char tail = ⟨.token (.mark m) (String.singleton m.char), [m.char], []⟩ := by
  have hplain : plain m.char = ⟨.token (.mark m) (String.singleton m.char), [m.char], []⟩ := by
    cases m <;> rfl
  rw [← hplain]
  cases m with
  | dot =>
    -- a dot is a mark only where no digit follows
    cases tail with
    | nil => rfl
    | cons d tail =>
      have hd : d.isDigit = false := (ends_token (htail d rfl)).2.1
      rw [Mark.char, first_dot, if_neg (by simp [hd])]
  | _ => cases tail <;> rfl

theorem first_string {value text : List Char} (h : Quoted value text) (tail : List Char) :
    first '"' (text ++ ('"' :: tail)) =
      ⟨.token .stringLiteral (String.ofList value), '"' :: (text ++ ['"']), []⟩ := by
  show stringLiteral _ = _
  rw [stringLiteral, stringBody_quoted h]

/-! ### Numbers -/

theorem head_of_exponent {e : List Char} (he : IsExponent e) (htail : Ends tail) :
    ∀ c ∈ (e ++ tail).head?, c.isDigit = false ∧ c ≠ '.' := by
  intro c hc
  cases he with
  | none => exact ⟨(ends_token (htail c hc)).2.1, (ends_token (htail c hc)).2.2.2.2⟩
  | @some letter _ _ hletter =>
    obtain rfl : letter = c := by simpa using hc
    rcases hletter with rfl | rfl <;> decide

theorem exponent_append {e : List Char} (he : IsExponent e) (htail : Ends tail) :
    exponent (e ++ tail) = e := by
  have htake {digits : List Char} (hdigits : ∀ d ∈ digits, d.isDigit = true) :
      (digits ++ tail).takeWhile Char.isDigit = digits :=
    takeWhile_append hdigits fun c hc => (ends_token (htail c hc)).2.1
  cases he with
  | none =>
    rw [List.nil_append]
    unfold exponent
    split
    · next c _ _ =>
      have hletter : isExponentLetter c = false := (ends_token (htail c rfl)).2.2.2.1
      rw [if_neg (by simp [hletter])]
    · rfl
  | @some letter sign digits hletter hsign hne hdigits =>
    have hletter : isExponentLetter letter = true := by rcases hletter with rfl | rfl <;> decide
    simp only [List.mem_cons, List.not_mem_nil, or_false] at hsign
    rcases hsign with rfl | rfl | rfl
    · obtain ⟨d, digits, rfl⟩ := List.exists_cons_of_ne_nil hne
      obtain ⟨hd, hdigits⟩ := List.forall_mem_cons.mp hdigits
      simp [exponent, hletter, hd, htake hdigits]
    · simp [exponent, hletter, isSign, htake hdigits]
    · simp [exponent, hletter, isSign, htake hdigits]

/-- A point with digits behind it, or nothing. -/
inductive IsFraction : List Char → Prop where
  | none : IsFraction []
  | some {digits : List Char} : digits ≠ [] → (∀ d ∈ digits, d.isDigit = true) →
      IsFraction ('.' :: digits)

theorem fraction_append {f rest : List Char} (hf : IsFraction f)
    (hrest : ∀ c ∈ rest.head?, c.isDigit = false ∧ c ≠ '.') : fraction (f ++ rest) = f := by
  cases hf with
  | none =>
    rw [List.nil_append]
    unfold fraction
    split
    · exact absurd rfl (hrest '.' rfl).2
    · rfl
  | @some digits hne hdigits =>
    obtain ⟨d, digits, rfl⟩ := List.exists_cons_of_ne_nil hne
    obtain ⟨hd, hdigits⟩ := List.forall_mem_cons.mp hdigits
    have htake := takeWhile_append hdigits fun c hc => (hrest c hc).1
    simp [fraction, hd, htake]

theorem decimal_append {whole f e : List Char} (hwhole : ∀ d ∈ whole, d.isDigit = true)
    (hf : IsFraction f) (he : IsExponent e) (htail : Ends tail) :
    decimal (whole ++ f ++ e ++ tail) =
      ⟨.token (if f.isEmpty && e.isEmpty then .intLiteral else .floatLiteral)
        (String.ofList (whole ++ f ++ e)), whole ++ f ++ e, []⟩ := by
  have hhead := head_of_exponent he htail
  have hnot : ∀ c ∈ (f ++ (e ++ tail)).head?, c.isDigit = false := by
    intro c hc
    cases hf with
    | none => exact (hhead c hc).1
    | some =>
      obtain rfl : '.' = c := by simpa using hc
      decide
  rw [List.append_assoc, List.append_assoc, decimal_eq (takeWhile_append hwhole hnot)
    (fraction_append hf hhead), exponent_append he htail]

/-- A decimal number that ends where it should is not the start of a hexadecimal one. -/
theorem number_eq_decimal {run : List Char} {role : Role} (htail : Ends tail)
    (h : decimal (run ++ tail) = ⟨role, run, []⟩) : number (run ++ tail) = ⟨role, run, []⟩ := by
  have hnot {x : Char} {r : List Char} (hx : x = 'x' ∨ x = 'X') : run ++ tail ≠ '0' :: x :: r := by
    intro htext
    have hzero : (decimal ('0' :: x :: r)).text = ['0'] := by
      rcases hx with rfl | rfl <;> cases r <;> rfl
    obtain rfl : run = ['0'] := by
      rw [← htext, h] at hzero
      exact hzero
    obtain rfl : tail = x :: r := (List.cons.inj htext).2
    have hends := htail x rfl
    rcases hx with rfl | rfl <;> exact absurd hends (by decide)
  unfold number
  split
  · next htext => exact absurd htext (hnot (.inl rfl))
  · next htext => exact absurd htext (hnot (.inr rfl))
  · exact h

/-- A number in front is read as its first character tells. -/
theorem first_of_digit {c : Char} (hc : c.isDigit = true) (rest : List Char) :
    first c rest = number (c :: rest) := by
  unfold first
  rw [if_neg (by simp [not_blank (.inr hc)]), if_pos hc]

/-- A number that begins with a digit is read as a number. -/
theorem exists_first_of_digit {c : Char} {run : List Char} {role : Role} (hc : c.isDigit = true)
    (h : number (c :: run ++ tail) = ⟨role, c :: run, []⟩) :
    ∃ d rest, c :: run ++ tail = d :: rest ∧ first d rest = ⟨role, c :: run, []⟩ :=
  ⟨c, run ++ tail, rfl, (first_of_digit hc _).trans h⟩

theorem first_number (n : Numeral) (htail : Ends tail) :
    ∃ c rest, n.text ++ tail = c :: rest ∧
      first c rest = ⟨.token n.kind (String.ofList n.text), n.text, []⟩ := by
  obtain ⟨kind, text, hnumber⟩ := n
  cases hnumber with
  | decimal hne hdigits =>
    have hdecimal := decimal_append hdigits .none .none htail
    simp only [List.append_nil] at hdecimal
    obtain ⟨c, digits, rfl⟩ := List.exists_cons_of_ne_nil hne
    have hc : c.isDigit = true := hdigits c (List.mem_cons_self ..)
    exact exists_first_of_digit hc (number_eq_decimal htail hdecimal)
  | @hexadecimal x digits hx hne hdigits =>
    have htake : (digits ++ tail).takeWhile isHexDigit = digits :=
      takeWhile_append hdigits fun c hc => (ends_token (htail c hc)).2.2.1
    have hnumber : number ('0' :: x :: digits ++ tail) = hexadecimal x (digits ++ tail) := by
      rcases hx with rfl | rfl <;> rfl
    refine exists_first_of_digit (by decide) (hnumber.trans ?_)
    simp [hexadecimal, htake, hne]
  | @fraction whole digits e hwhole hne hdigits he =>
    have hdecimal := decimal_append hwhole (.some hne hdigits) he htail
    cases whole with
    | nil =>
      -- without a digit in front the point itself begins the number
      obtain ⟨d, digits, rfl⟩ := List.exists_cons_of_ne_nil hne
      refine ⟨'.', d :: digits ++ e ++ tail, rfl, ?_⟩
      rw [List.cons_append, List.cons_append, first_dot, if_pos (hdigits d (List.mem_cons_self ..))]
      exact hdecimal
    | cons c whole =>
      have hc : c.isDigit = true := hwhole c (List.mem_cons_self ..)
      exact exists_first_of_digit hc (number_eq_decimal htail hdecimal)
  | @exponent whole e hwholene hwhole hne he =>
    have hdecimal := decimal_append hwhole .none he htail
    obtain ⟨c, whole, rfl⟩ := List.exists_cons_of_ne_nil hwholene
    have hc : c.isDigit = true := hwhole c (List.mem_cons_self ..)
    simp only [List.append_nil, List.isEmpty_nil, Bool.true_and, List.isEmpty_iff, hne, if_false]
      at hdecimal
    exact exists_first_of_digit hc (number_eq_decimal htail hdecimal)

/-- A lexeme in front is read as it was written. -/
theorem spells_lexeme {x : Lexeme} {run : List Char} (hx : x.Writes run) (htail : Ends tail)
    (h : Spells tail xs) : Spells (run ++ tail) (x :: xs) := by
  cases hx with
  | @word w =>
    obtain ⟨c, rest, htext, hfirst⟩ := first_word w htail
    rw [htext]
    exact spells_token hfirst htext.symm rfl rfl h
  | @number n =>
    obtain ⟨c, rest, htext, hfirst⟩ := first_number n htail
    rw [htext]
    exact spells_token hfirst htext.symm rfl rfl h
  | @string value text hquoted =>
    have htext : '"' :: (text ++ ('"' :: tail)) = '"' :: (text ++ ['"']) ++ tail := by simp
    rw [← htext]
    exact spells_token (first_string hquoted tail) htext rfl rfl h
  | @mark m => exact spells_token (first_mark m htail) rfl rfl rfl h

/-- Lexemes are read back, however they are written. -/
theorem spells_of_rendered {text : List Char} (h : Rendered xs text) : Spells text xs := by
  induction h with
  | done => exact spells_nil
  | gap hgap _ ih => exact spells_gap hgap ih
  | @last x run hx =>
    have hends : Ends [] := by rintro _ ⟨⟩
    have hspells := spells_lexeme hx hends spells_nil
    rwa [List.append_nil] at hspells
  | more hx hgap _ ih => exact spells_lexeme hx (hgap.ends _) (spells_gap hgap ih)

end Piece

namespace Lexed

/-- The tokens of pieces, without their places, are what the pieces are as tokens. -/
theorem glyphs_ofPieces (c : Cursor) (ps : List Piece) :
    (ofPieces c ps).tokens.map Token.glyph = ps.filterMap Piece.glyph? ++ [(.eof, "")] := by
  induction ps generalizing c with
  | nil => rfl
  | cons q ps ih =>
    rw [ofPieces, List.map_append, ih, ← List.append_assoc]
    congr 1
    unfold tokenAt Piece.glyph?
    cases hrole : q.role <;> simp [hrole, Token.glyph]

theorem diagnostics_ofPieces (c : Cursor) {ps : List Piece} (h : ∀ q ∈ ps, q.flaws = []) :
    (ofPieces c ps).diagnostics = [] := by
  induction ps generalizing c with
  | nil => rfl
  | cons q ps ih =>
    obtain ⟨hq, hps⟩ := List.forall_mem_cons.mp h
    rw [ofPieces, flawsAt, hq, ih _ hps]
    rfl

/-- Reading lexemes that are written down gives them back and reports nothing. -/
theorem glyphs_ofSource {source : String} {xs : List Lexeme} (h : Rendered xs source.toList)
    (file : String) :
    (ofSource source file).tokens.map Token.glyph = xs.map Lexeme.glyph ++ [(.eof, "")] ∧
      (ofSource source file).diagnostics = [] := by
  have hspells := Piece.spells_of_rendered h
  refine ⟨?_, diagnostics_ofPieces _ hspells.flawless⟩
  rw [ofSource, glyphs_ofPieces, hspells.glyphs]

end Lexed

end FlatSchema
