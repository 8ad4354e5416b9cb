import FlatSchema.Declaration.Stream
import FlatSchema.Diagnostic

/-!
A reader takes what it understands from the front of a token stream. It answers with a value or
with a fault, with the diagnostics it had to report on the way, and with the stream that is left,
which is ahead of the one it began with. That invariant is part of the type: it composes, and every
loop over a stream ends by it.

A fault is not yet a report. Whoever goes on after it reports it, so a row of items yields one
report for each item that could not be read.
-/

namespace FlatSchema

/-- Reading met a token where something else was expected. -/
structure Fault where
  expected : String
  found : Token
deriving DecidableEq, Inhabited

namespace Fault

def message (f : Fault) : String :=
  let found := if f.found.kind = .eof then "end of file" else s!"'{f.found.lexeme}'"
  s!"expected {f.expected}, found {found}"

/-- A fault is reported as an error at the token that was found. -/
def diagnostic (f : Fault) : Diagnostic := .errorAt f.message f.found.span

end Fault

/-- What comes of reading. -/
structure Outcome (α : Type) where
  result : Except Fault α
  rest : Stream
  reports : List Diagnostic := []

namespace Outcome

/-- Go on with the stream that is left, unless there was a fault. -/
def andThen {α β : Type} (o : Outcome α) (next : α → Stream → Outcome β) : Outcome β :=
  match o.result with
  | .error f => ⟨.error f, o.rest, o.reports⟩
  | .ok a => { next a o.rest with reports := o.reports ++ (next a o.rest).reports }

theorem ahead_andThen {α β : Type} {s : Stream} {o : Outcome α} {next : α → Stream → Outcome β}
    (ho : s.Ahead o.rest) (hn : ∀ a (t : Stream), t.Ahead (next a t).rest) :
    s.Ahead (o.andThen next).rest := by
  unfold andThen
  split
  · exact ho
  · exact ho.trans (hn _ _)

end Outcome

/-- A reader of tokens. -/
structure Reader (α : Type) where
  read : Stream → Outcome α
  ahead : ∀ s : Stream, s.Ahead (read s).rest

namespace Reader

variable {α β : Type}

instance : Monad Reader where
  pure a := ⟨fun s => ⟨.ok a, s, []⟩, Stream.Ahead.refl⟩
  bind r next := ⟨fun s => (r.read s).andThen fun a t => (next a).read t,
    fun s => Outcome.ahead_andThen (r.ahead s) fun a t => (next a).ahead t⟩

/-! ### Single steps -/

/-- The token to be read next. It is not taken. -/
def current : Reader Token := ⟨fun s => ⟨.ok s.current, s, []⟩, Stream.Ahead.refl⟩

/-- The kind of the token to be read next. -/
def kind : Reader TokenKind := ⟨fun s => ⟨.ok s.kind, s, []⟩, Stream.Ahead.refl⟩

/-- All tokens still to come. None is taken. -/
def upcoming : Reader (List Token) := ⟨fun s => ⟨.ok s.rest, s, []⟩, Stream.Ahead.refl⟩

/-- Take the next `n` tokens. -/
def skip (n : Nat) : Reader Unit := ⟨fun s => ⟨.ok (), s.skip n, []⟩, Stream.ahead_skip n⟩

/-- Take the next token. -/
def next : Reader Token := ⟨fun s => ⟨.ok s.current, s.skip 1, []⟩, fun s => s.ahead_skip 1⟩

/-- Refuse the next token: `expected` says what should be there. -/
def fail (expected : String) : Reader α :=
  ⟨fun s => ⟨.error ⟨expected, s.current⟩, s, []⟩, Stream.Ahead.refl⟩

/-- Report a diagnostic and go on. -/
def report (d : Diagnostic) : Reader Unit := ⟨fun s => ⟨.ok (), s, [d]⟩, Stream.Ahead.refl⟩

/-- The span from a start up to the token read last. -/
def spanFrom (start : Span) : Reader Span :=
  ⟨fun s => ⟨.ok (start.merge s.previous.span), s, []⟩, Stream.Ahead.refl⟩

/-- Take the next token if its kind is welcome. -/
def accept (welcome : TokenKind → Bool) (expected : String) : Reader Token := do
  if welcome (← kind) then next else fail expected

/-- Take a token of one kind. -/
def expect (k : TokenKind) (expected : String) : Reader Token := accept (· == k) expected

/-- Take a mark. -/
def mark (m : Mark) : Reader Token := expect (.mark m) m.quoted

/-- Take a name, which may be a keyword. -/
def name (expected : String) : Reader Token := accept TokenKind.isName expected

/-- Take a mark if it comes next, and say whether it did. -/
def eat (m : Mark) : Reader Bool := do
  if (← kind) = .mark m then do
    let _ ← next
    return true
  else return false

/-- Read behind a mark if that mark comes next. -/
def behind (m : Mark) (r : Reader α) : Reader (Option α) := do
  if ← eat m then some <$> r else return none

/-! ### Rows with a separator -/

/-- Items with a separator between them, up to the first item with no separator behind it or to a
    kind of token that closes the row. -/
def rowFrom (item : Reader α) (separator : Mark) (closed : TokenKind → Bool) (s : Stream) :
    Outcome (List α) :=
  if closed s.kind then ⟨.ok [], s, []⟩
  else
    let o := item.read s
    match o.result with
    | .error f => ⟨.error f, o.rest, o.reports⟩
    | .ok a =>
      if hk : o.rest.kind = .mark separator then
        have : (o.rest.skip 1).size < s.size := by
          have h₁ : o.rest.size ≤ s.size := (item.ahead s).size_le
          have h₂ : 0 < o.rest.size := Stream.size_pos_of_kind_ne (by simp [hk])
          simp only [Stream.size_skip]
          omega
        let tail := rowFrom item separator closed (o.rest.skip 1)
        ⟨tail.result.map (a :: ·), tail.rest, o.reports ++ tail.reports⟩
      else ⟨.ok [a], o.rest, o.reports⟩
termination_by s.size
decreasing_by exact this

theorem ahead_rowFrom (item : Reader α) (separator : Mark) (closed : TokenKind → Bool)
    (s : Stream) : s.Ahead (rowFrom item separator closed s).rest := by
  fun_induction rowFrom item separator closed s with
  | case1 s h => exact .refl s
  | case2 s h o f hf => exact item.ahead s
  | case3 s h o a ha hk _ tail ih => exact ((item.ahead s).trans (Stream.ahead_skip 1 _)).trans ih
  | case4 s h o a ha hk => exact item.ahead s

/-- Items with a separator between them. Before an item the row may be closed by a token of a
    closing kind. -/
def row (item : Reader α) (separator : Mark) (closed : TokenKind → Bool) : Reader (List α) :=
  ⟨rowFrom item separator closed, ahead_rowFrom item separator closed⟩

/-- One or more items with a separator between them; an item follows every separator. -/
def row₁ (item : Reader α) (separator : Mark) : Reader (List α) := row item separator fun _ => false

/-! ### Rows with recovery -/

/-- Where to go on after a fault. Away from the end of a row there is always some progress. -/
structure Resumption (closed : TokenKind → Bool) where
  resume : Stream → Stream
  ahead : ∀ s : Stream, s.Ahead (resume s)
  progress : ∀ s : Stream, 0 < s.size → closed s.kind = false → (resume s).size < s.size

/-- What comes of reading a row of items: the good ones, and a report for each bad one. -/
structure Items (α : Type) where
  items : List α
  rest : Stream
  reports : List Diagnostic

/-- Items one after the other, up to the end or to a token of a closing kind. The reader of an item
    is chosen by its first token; where that token can start none, or where an item turns out bad,
    the fault is reported and reading resumes. -/
def itemsFrom (item : Token → Option (Reader α)) (expected : String) {closed : TokenKind → Bool}
    (resumption : Resumption closed) (s : Stream) : Items α :=
  match hs : s.rest with
  | [] => ⟨[], s, []⟩
  | t :: _ =>
    if hc : closed s.kind then ⟨[], s, []⟩
    else
      have hpos : 0 < s.size := List.length_pos_iff_exists_cons.mpr ⟨_, _, hs⟩
      match item t with
      | none =>
        have := resumption.progress s hpos (Bool.eq_false_iff.mpr hc)
        let tail := itemsFrom item expected resumption (resumption.resume s)
        { tail with reports := Fault.diagnostic ⟨expected, t⟩ :: tail.reports }
      | some r =>
        let o := r.read (s.skip 1)
        have hlt : o.rest.size < s.size := by
          have h : o.rest.size ≤ (s.skip 1).size := (r.ahead (s.skip 1)).size_le
          rw [Stream.size_skip] at h
          exact Nat.lt_of_le_of_lt h (Nat.sub_lt hpos Nat.one_pos)
        match o.result with
        | .ok a =>
          let tail := itemsFrom item expected resumption o.rest
          { tail with items := a :: tail.items, reports := o.reports ++ tail.reports }
        | .error f =>
          have : (resumption.resume o.rest).size < s.size :=
            Nat.lt_of_le_of_lt (resumption.ahead o.rest).size_le hlt
          let tail := itemsFrom item expected resumption (resumption.resume o.rest)
          { tail with reports := o.reports ++ f.diagnostic :: tail.reports }
termination_by s.size

theorem ahead_itemsFrom (item : Token → Option (Reader α)) (expected : String)
    {closed : TokenKind → Bool} (resumption : Resumption closed) (s : Stream) :
    s.Ahead (itemsFrom item expected resumption s).rest := by
  fun_induction itemsFrom item expected resumption s with
  | case1 s hs => exact .refl s
  | case2 s t _ hs hc => exact .refl s
  | case3 s t _ hs hc hpos hi _ tail ih => exact (resumption.ahead s).trans ih
  | case4 s t _ hs hc hpos r hi o hlt a ha tail ih =>
    exact ((Stream.ahead_skip 1 s).trans (r.ahead _)).trans ih
  | case5 s t _ hs hc hpos r hi o hlt f hf _ tail ih =>
    exact (((Stream.ahead_skip 1 s).trans (r.ahead _)).trans (resumption.ahead _)).trans ih

/-- Items one after the other, with recovery; such a row never fails. -/
def items (item : Token → Option (Reader α)) (expected : String) {closed : TokenKind → Bool}
    (resumption : Resumption closed) : Reader (List α) :=
  ⟨fun s => ⟨.ok (itemsFrom item expected resumption s).items,
      (itemsFrom item expected resumption s).rest, (itemsFrom item expected resumption s).reports⟩,
    ahead_itemsFrom item expected resumption⟩

end Reader

end FlatSchema
