import FlatSchema.Token

/-!
A stream is a row of tokens with a reading point. Tokens behind the first end-of-file token do not
belong to it, and where the end is missing the last token lends it its span.

        tokens  table T { } ⟨eof⟩ x      rest  table T { }      stop  ⟨eof⟩

All movement is a `skip` over some number of tokens. One stream is ahead of another if a skip leads
there; being ahead is the invariant of everything that reads tokens.
-/

namespace FlatSchema

/-- Tokens with a reading point: the token read last (before reading: the one to be read first), the
    tokens before the end that are still to be read, and the end. -/
structure Stream where
  previous : Token
  rest : List Token
  stop : Token
deriving DecidableEq, Inhabited

namespace Stream

/-- The tokens before the first end of file. -/
def body (tokens : List Token) : List Token := tokens.takeWhile (·.kind != .eof)

/-- The first end of file; where there is none, one at the last token, and at no place if there is
    no token either. -/
def endOf (tokens : List Token) : Token :=
  (tokens.find? (·.kind == .eof)).getD (.eof ((tokens.getLast?.map Token.span).getD .empty))

/-- The stream before the first of some tokens. -/
def ofTokens (tokens : List Token) : Stream where
  previous := (body tokens).headD (endOf tokens)
  rest := body tokens
  stop := endOf tokens

/-- Move over the next `n` tokens, or over all of them if there are fewer. -/
def skip (n : Nat) (s : Stream) : Stream :=
  { s with previous := (s.rest.take n).getLastD s.previous, rest := s.rest.drop n }

/-- The token to be read next, which at the end is the end of file. -/
def current (s : Stream) : Token := s.rest.headD s.stop

/-- The kind of the token to be read next. -/
def kind (s : Stream) : TokenKind :=
  match s.rest with
  | t :: _ => t.kind
  | [] => .eof

/-- How many tokens are still to be read. -/
def size (s : Stream) : Nat := s.rest.length

/-- A skip leads from the stream `s` to the stream `t`. -/
def Ahead (s t : Stream) : Prop := ∃ n, t = s.skip n

@[simp] theorem skip_zero (s : Stream) : s.skip 0 = s := by simp [skip]

theorem skip_skip (m n : Nat) (s : Stream) : (s.skip m).skip n = s.skip (m + n) := by
  simp only [skip, List.drop_drop, List.take_add, mk.injEq, and_true]
  cases h : (s.rest.drop m).take n with
  | nil => simp
  | cons t ts => simp [List.getLastD_eq_getLast?, List.getLast?_append]

@[simp] theorem size_skip (n : Nat) (s : Stream) : (s.skip n).size = s.size - n := by
  simp [size, skip]

theorem Ahead.refl (s : Stream) : s.Ahead s := ⟨0, (skip_zero s).symm⟩

theorem ahead_skip (n : Nat) (s : Stream) : s.Ahead (s.skip n) := ⟨n, rfl⟩

theorem Ahead.trans {s t u : Stream} : s.Ahead t → t.Ahead u → s.Ahead u := by
  rintro ⟨m, rfl⟩ ⟨n, rfl⟩
  exact ⟨m + n, skip_skip m n s⟩

theorem Ahead.size_le {s t : Stream} : s.Ahead t → t.size ≤ s.size := by
  rintro ⟨n, rfl⟩
  simp

theorem size_pos_of_kind_ne {s : Stream} (h : s.kind ≠ .eof) : 0 < s.size := by
  cases hr : s.rest with
  | nil => simp [kind, hr] at h
  | cons t r => simp [size, hr]

/-! ### Resuming after a fault -/

/-- How many tokens to skip to stand behind the next semicolon, or before a right brace if one comes
    first. -/
def untilSemicolon : List Token → Nat
  | [] => 0
  | t :: rest =>
    if t.kind = .mark .semicolon then 1
    else if t.kind = .mark .rightBrace then 0
    else untilSemicolon rest + 1

/-- The kinds of token that open a declaration. -/
def opensDeclaration : TokenKind → Bool
  | .keyword k => k.opensDeclaration
  | _ => false

/-- How many tokens to skip to stand behind a semicolon or before a token that opens a declaration,
    where `before` is the kind of the token read last. -/
def untilDeclaration (before : TokenKind) : List Token → Nat
  | [] => 0
  | t :: rest =>
    if before = .mark .semicolon || opensDeclaration t.kind then 0
    else untilDeclaration t.kind rest + 1

/-- The stream behind the next semicolon, or before a right brace if one comes first. -/
def pastSemicolon (s : Stream) : Stream := s.skip (untilSemicolon s.rest)

/-- The stream where the next declaration may start. The current token is always given up. -/
def atDeclaration (s : Stream) : Stream :=
  let t := s.skip 1
  t.skip (untilDeclaration t.previous.kind t.rest)

/-- How many tokens to skip to stand behind the brace that closes the `depth` open ones; none if
    that brace is missing. -/
def untilClosed : Nat → List Token → Option Nat
  | 0, _ => some 0
  | _ + 1, [] => none
  | depth + 1, t :: rest =>
    let depth := match t.kind with
      | .mark .leftBrace => depth + 2
      | .mark .rightBrace => depth
      | _ => depth + 1
    (untilClosed depth rest).map (· + 1)

theorem ahead_pastSemicolon (s : Stream) : s.Ahead s.pastSemicolon := ahead_skip _ s

theorem ahead_atDeclaration (s : Stream) : s.Ahead s.atDeclaration :=
  (ahead_skip 1 s).trans (ahead_skip _ _)

theorem size_pastSemicolon_lt {s : Stream} (h : 0 < s.size) (hb : s.kind ≠ .mark .rightBrace) :
    s.pastSemicolon.size < s.size := by
  cases hr : s.rest with
  | nil => simp [size, hr] at h
  | cons t r =>
    simp only [kind, hr] at hb
    have : 0 < untilSemicolon s.rest := by
      simp only [hr, untilSemicolon, if_neg hb]
      split <;> omega
    simp only [pastSemicolon, size_skip]
    omega

theorem size_atDeclaration_lt {s : Stream} (h : 0 < s.size) : s.atDeclaration.size < s.size := by
  simp only [atDeclaration, size_skip]
  omega

end Stream

end FlatSchema
