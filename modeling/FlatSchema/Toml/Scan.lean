/-!
Scanners read from the front of a text. A scanner answers with a value and the text that is left,
which is a suffix of the text it began with, or refuses. The invariant is part of the type, so that
a row of items ends because every separator takes a character.
-/

namespace FlatSchema.Toml

/-- A scanner of characters. -/
structure Scan (α : Type) where
  run : List Char → Option (α × List Char)
  suffix : ∀ {s a r}, run s = some (a, r) → r <:+ s

namespace Scan

variable {α β : Type}

instance : Monad Scan where
  pure a := ⟨fun s => some (a, s), by
    intro s a' r h
    simp only [Option.some.injEq, Prod.mk.injEq] at h
    exact h.2 ▸ List.suffix_refl s⟩
  bind x next := ⟨fun s => (x.run s).bind fun p => (next p.1).run p.2, by
    intro s b r h
    obtain ⟨⟨a, t⟩, hx, hn⟩ := Option.bind_eq_some_iff.1 h
    exact ((next a).suffix hn).trans (x.suffix hx)⟩

/-- Refuse. -/
def fail : Scan α := ⟨fun _ => none, by intro s a r h; cases h⟩

/-- Scan with `x`, or with `y` if `x` refuses. -/
def orElse (x : Scan α) (y : Unit → Scan α) : Scan α :=
  ⟨fun s => (x.run s).or ((y ()).run s), by
    intro s a r h
    rcases Option.or_eq_some_iff.1 h with h | ⟨_, h⟩
    · exact x.suffix h
    · exact (y ()).suffix h⟩

instance : OrElse (Scan α) := ⟨orElse⟩

/-- A scanner from a function that tells how many characters it takes. -/
def measured (f : List Char → Option (α × Nat)) : Scan α :=
  ⟨fun s => (f s).map fun p => (p.1, s.drop p.2), by
    intro s a r h
    obtain ⟨p, _, hp⟩ := Option.map_eq_some_iff.1 h
    cases hp
    exact List.drop_suffix _ s⟩

/-- Scan if possible. -/
def optional (x : Scan α) : Scan (Option α) := (some <$> x) <|> pure none

/-- The characters that a scanner takes. -/
def spelling (x : Scan α) : Scan String :=
  ⟨fun s => (x.run s).map fun p => (String.ofList (s.take (s.length - p.2.length)), p.2), by
    intro s a r h
    obtain ⟨p, hx, hp⟩ := Option.map_eq_some_iff.1 h
    cases hp
    exact x.suffix hx⟩

/-- A character of a class. -/
def one (p : Char → Bool) : Scan Char :=
  measured fun s => (s.head?.filter p).map fun c => (c, 1)

/-- One given character. -/
def char (c : Char) : Scan Unit := do let _ ← one (· == c)

/-- A given text. -/
def text (t : String) : Scan Unit :=
  measured fun s => if t.toList.isPrefixOf s then some ((), t.length) else none

/-- All characters of a class that come next. -/
def many (p : Char → Bool) : Scan (List Char) :=
  measured fun s => some (s.takeWhile p, (s.takeWhile p).length)

/-- All characters of a class that come next, of which there is at least one. -/
def many₁ (p : Char → Bool) : Scan (List Char) := do
  let cs ← many p
  if cs.isEmpty then fail else return cs

/-- A given number of characters of a class. -/
def exactly (n : Nat) (p : Char → Bool) : Scan (List Char) :=
  measured fun s => if (s.take n).length = n && (s.take n).all p then some (s.take n, n) else none

/-- The end of the text. -/
def atEnd : Scan Unit := measured fun s => if s.isEmpty then some ((), 0) else none

/-- Items that follow an item: each behind a separator. A separator without an item behind it is not
    taken. -/
def followers (item : Scan α) (separator : Char) : List Char → List α × List Char
  | [] => ([], [])
  | c :: s =>
    if c = separator then
      match h : item.run s with
      | some (a, r) =>
        have : r.length < (c :: s).length := Nat.lt_succ_of_le (item.suffix h).length_le
        (a :: (followers item separator r).1, (followers item separator r).2)
      | none => ([], c :: s)
    else ([], c :: s)
termination_by s => s.length
decreasing_by all_goals exact this

theorem suffix_followers (item : Scan α) (separator : Char) (s : List Char) :
    (followers item separator s).2 <:+ s := by
  fun_induction followers item separator s with
  | case1 => exact List.suffix_refl _
  | case2 s a r h _ ih => exact (ih.trans (item.suffix h)).trans (List.suffix_cons _ s)
  | case3 => exact List.suffix_refl _
  | case4 => exact List.suffix_refl _

/-- Items with a separator between them, of which there is at least one. -/
def row₁ (item : Scan α) (separator : Char) : Scan (List α) := do
  let first ← item
  let more ← (⟨fun s => some (followers item separator s), by
    intro s as r h
    have hr : (followers item separator s).2 = r := congrArg Prod.snd (Option.some.inj h)
    exact hr ▸ suffix_followers item separator s⟩ : Scan (List α))
  return first :: more

/-- Items with a separator between them. -/
def row (item : Scan α) (separator : Char) : Scan (List α) := row₁ item separator <|> pure []

end Scan

end FlatSchema.Toml
