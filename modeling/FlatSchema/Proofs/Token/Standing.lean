import FlatSchema.Proofs.Token.Partition
import Mathlib.Data.List.Infix

/-!
Where rows of tokens stand in a text. A span marks a text if it reaches from what stands before the
text to what stands behind it. Tokens of a text come in order, each marks how it is written, and a
keyword or a mark is written in one way only; the same holds of any tokens among them. From one
token to a later one everything between them is marked too.

        table A { hp: int; }
        └─┬─┘            └ mark
          └ keyword
        └───────── row ────┘
-/

namespace FlatSchema

/-! ### Marked texts -/

/-- A span marks a text of a source. -/
def Span.Marks (source file : String) (s : Span) (text : List Char) : Prop :=
  ∃ before behind, source.toList = before ++ text ++ behind ∧
    s = ⟨file, Position.first.after before, Position.first.after (before ++ text)⟩

theorem utf8Len_eq_zero {text : List Char} (h : String.utf8Len text = 0) : text = [] := by
  cases text with
  | nil => rfl
  | cons c text =>
    rw [String.utf8Len_cons] at h
    have hpos := c.utf8Size_pos
    omega

/-- Of two fronts of a text the one with fewer bytes is a front of the other one. -/
theorem prefix_of_utf8Len_le {short long text : List Char} (hshort : short <+: text)
    (hlong : long <+: text) (h : String.utf8Len short ≤ String.utf8Len long) : short <+: long := by
  rcases List.prefix_or_prefix_of_prefix hshort hlong with hfront | ⟨more, rfl⟩
  · exact hfront
  · rw [String.utf8Len_append] at h
    rw [utf8Len_eq_zero (by omega : String.utf8Len more = 0), List.append_nil]

namespace Span.Marks

variable {source file : String} {a b : Span} {first last : List Char}

theorem file_eq (h : a.Marks source file first) : a.file = file := by
  obtain ⟨before, behind, -, rfl⟩ := h
  rfl

theorem offset_stop (h : a.Marks source file first) :
    a.stop.offset = a.start.offset + String.utf8Len first := by
  obtain ⟨before, behind, -, rfl⟩ := h
  rw [Position.after_append, Position.offset_after]

/-- From one marked text to a later one everything between them is marked. -/
theorem exists_between (ha : a.Marks source file first) (hb : b.Marks source file last)
    (h : a.stop.offset ≤ b.start.offset) :
    ∃ between, Marks source file ⟨file, a.start, b.stop⟩ (first ++ between ++ last) := by
  obtain ⟨before, behind, hsource, rfl⟩ := ha
  obtain ⟨before', behind', hsource', rfl⟩ := hb
  simp only [Position.offset_after] at h
  have hfront : before ++ first <+: before' := by
    refine prefix_of_utf8Len_le ⟨behind, hsource.symm⟩ ⟨last ++ behind', ?_⟩ (by omega)
    rw [hsource', List.append_assoc]
  obtain ⟨between, rfl⟩ := hfront
  exact ⟨between, before, behind', by simpa using hsource', by simp⟩

end Span.Marks

/-! ### Keywords and marks -/

/-- Keywords and marks are written in one way. -/
def TokenKind.Spelled (lexeme : String) : TokenKind → Prop
  | keyword k => lexeme = k.text
  | mark m => lexeme = String.singleton m.char
  | _ => True

namespace Piece

/-- What a piece is as a token is spelled as it has to be. -/
def IsSpelled (q : Piece) : Prop := ∀ kind lexeme, q.role = .token kind lexeme → kind.Spelled lexeme

theorem isSpelled_word (text : List Char) : (word text).IsSpelled := by
  intro kind lexeme h
  cases h
  cases hword : Keyword.ofText? (String.ofList text) with
  | none => trivial
  | some k =>
    have htext := List.find?_some hword
    exact (beq_iff_eq.mp htext).symm

theorem isSpelled_plain (c : Char) : (plain c).IsSpelled := by
  intro kind lexeme h
  rw [plain] at h
  cases hmark : Mark.ofChar? c with
  | none =>
    rw [hmark] at h
    cases h
  | some m =>
    rw [hmark] at h
    cases h
    obtain rfl : m.char = c := by simpa using List.find?_some hmark
    rfl

theorem isSpelled_decimal (text : List Char) : (decimal text).IsSpelled := by
  intro kind lexeme h
  cases h
  split <;> trivial

theorem isSpelled_number (text : List Char) : (number text).IsSpelled := by
  unfold number
  split
  · intro kind lexeme h
    cases h
    trivial
  · intro kind lexeme h
    cases h
    trivial
  · exact isSpelled_decimal _

theorem isSpelled_first (c : Char) (rest : List Char) : (first c rest).IsSpelled := by
  unfold first
  split
  · exact fun _ _ h => by cases h
  split
  · exact isSpelled_number _
  split
  · exact isSpelled_word _
  split
  · exact fun _ _ h => by cases h
  · exact fun _ _ h => by cases h
  · intro kind lexeme h
    cases h
    trivial
  · split
    · exact isSpelled_decimal _
    · exact isSpelled_plain _
  · exact isSpelled_plain _

theorem isSpelled_of_mem_split {text : List Char} {q : Piece} (h : q ∈ split text) :
    q.IsSpelled := by
  induction text using split_induction with
  | nil =>
    rw [split] at h
    cases h
  | cons c rest tail _ hsplit ih =>
    rw [hsplit] at h
    rcases List.mem_cons.mp h with rfl | h
    · exact isSpelled_first c rest
    · exact ih h

end Piece

theorem Lexed.spelled_ofPieces {c : Cursor} {ps : List Piece} (h : ∀ q ∈ ps, q.IsSpelled) :
    ∀ t ∈ (ofPieces c ps).tokens, t.kind.Spelled t.lexeme := by
  induction ps generalizing c with
  | nil =>
    intro t ht
    obtain rfl := List.mem_singleton.mp ht
    trivial
  | cons q ps ih =>
    obtain ⟨hq, hps⟩ := List.forall_mem_cons.mp h
    intro t ht
    rcases List.mem_append.mp ht with ht | ht
    · unfold tokenAt at ht
      split at ht
      · next kind lexeme hrole =>
        obtain rfl := List.mem_singleton.mp ht
        exact hq kind lexeme hrole
      · cases ht
    · exact ih hps t ht

/-! ### Rows of tokens -/

/-- Tokens that stand in a source in this order. -/
def Standing (source file : String) (ts : List Token) : Prop :=
  ts.Sublist (Lexed.ofSource source file).tokens

namespace Standing

variable {source file : String} {ts us : List Token} {t : Token}

theorem sublist (h : Standing source file us) (hsub : ts.Sublist us) : Standing source file ts :=
  hsub.trans h

theorem ordered (h : Standing source file ts) :
    ts.Pairwise fun a b => a.span.stop.offset ≤ b.span.start.offset := by
  obtain ⟨strays, hlayout⟩ := Lexed.exists_layout file .first source.toList
  exact hlayout.pairwise.sublist h

theorem exists_written (h : Standing source file ts) (ht : t ∈ ts) :
    ∃ text, t.span.Marks source file text ∧ Layout.WrittenAs t text := by
  obtain ⟨strays, hlayout⟩ := Lexed.exists_layout file .first source.toList
  obtain ⟨before, written, behind, hsource, hwritten, hspan⟩ := hlayout.exists_written (h.subset ht)
  exact ⟨written, ⟨before, behind, hsource, hspan⟩, hwritten⟩

theorem spelled (h : Standing source file ts) (ht : t ∈ ts) : t.kind.Spelled t.lexeme :=
  Lexed.spelled_ofPieces (fun _ => Piece.isSpelled_of_mem_split) t (h.subset ht)

/-- Names, keywords and marks are written as their lexemes. -/
theorem marks_lexeme (h : Standing source file ts) (ht : t ∈ ts) (hstring : t.kind ≠ .stringLiteral)
    (heof : t.kind ≠ .eof) : t.span.Marks source file t.lexeme.toList := by
  obtain ⟨text, hmarks, hwritten⟩ := h.exists_written ht
  unfold Layout.WrittenAs at hwritten
  split at hwritten
  · next hkind => exact absurd hkind hstring
  · next hkind => exact absurd hkind heof
  · exact hwritten.1 ▸ hmarks

theorem marks_keyword (h : Standing source file ts) (ht : t ∈ ts) {k : Keyword}
    (hk : t.kind = .keyword k) : t.span.Marks source file k.text.toList := by
  have hmarks := h.marks_lexeme ht (by simp [hk]) (by simp [hk])
  have hspelled := h.spelled ht
  rw [hk] at hspelled
  rwa [show t.lexeme = k.text from hspelled] at hmarks

theorem marks_mark (h : Standing source file ts) (ht : t ∈ ts) {m : Mark}
    (hm : t.kind = .mark m) : t.span.Marks source file [m.char] := by
  have hmarks := h.marks_lexeme ht (by simp [hm]) (by simp [hm])
  have hspelled := h.spelled ht
  rw [hm] at hspelled
  rwa [show t.lexeme = String.singleton m.char from hspelled, String.toList_singleton] at hmarks

end Standing

end FlatSchema
