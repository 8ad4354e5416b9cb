import FlatSchema.Proofs.Source.Coherence
import FlatSchema.Source.Cursor
import Mathlib.Data.List.TakeWhile

/-!
Walks over a text. A step takes some characters, or none, from the front of what is left, so a row
of steps is one movement over everything they take. After any steps the cursor therefore stands
behind what has been taken: its offset is a border between two characters, its place never goes
back, and a mark keeps the place of an earlier moment.

        steps       advance    mark 1    eatWhile (≠ '=')    textSince 1
        taken       é          é         é t ⏎ π             é t ⏎ π
        place       1:2, 2     1:2, 2    2:2, 6              t ⏎ π
-/

namespace FlatSchema

namespace Position

/-- A place is no further than another one, by its bytes and by its lines and columns. -/
structure UpTo (p q : Position) : Prop where
  offset : p.offset ≤ q.offset
  line : p.line < q.line ∨ p.line = q.line ∧ p.column ≤ q.column

theorem UpTo.trans {p q r : Position} (hpq : p.UpTo q) (hqr : q.UpTo r) : p.UpTo r := by
  obtain ⟨hoffset, hline⟩ := hpq
  obtain ⟨hoffset', hline'⟩ := hqr
  constructor <;> omega

theorem upTo_next (p : Position) (c : Char) : p.UpTo (p.next c) := by
  refine ⟨offset_next p c ▸ Nat.le_add_right _ _, ?_⟩
  unfold next
  split
  · exact .inl (Nat.lt_succ_self _)
  · exact .inr ⟨rfl, Nat.le_succ _⟩

theorem upTo_after (p : Position) (text : List Char) : p.UpTo (p.after text) := by
  induction text generalizing p with
  | nil => exact ⟨le_refl _, .inr ⟨rfl, le_refl _⟩⟩
  | cons c text ih => exact (upTo_next p c).trans (ih (p.next c))

end Position

namespace Cursor

theorem isAtEnd_iff (c : Cursor) : c.isAtEnd = true ↔ c.peek? = none := by
  rw [isAtEnd, peek?, List.isEmpty_iff, List.head?_eq_none_iff]

theorem textSince_skip (c : Cursor) {n : Nat} (h : n ≤ c.rest.length) :
    c.textSince (c.skip n) = c.rest.take n := by
  rw [textSince, skip, List.length_drop, Nat.sub_sub_self h]

/-! ### What steps take -/

/-- The characters that a step takes from the front of what is left. -/
def Step.taken (rest : List Char) : Step → List Char
  | .advance => rest.take 1
  | .eat c => if rest.head? = some c then [c] else []
  | .eatWhile p => rest.takeWhile p
  | .peek | .peekSecond | .isAtEnd | .mark | .textSince _ | .spanSince _ => []

/-- The characters that steps take from a text, one step after the other. -/
def taken (text : List Char) : List Step → List Char
  | [] => []
  | s :: steps => s.taken text ++ taken (text.drop (s.taken text).length) steps

theorem Step.taken_front (s : Step) (rest : List Char) : s.taken rest <+: rest := by
  cases s with
  | advance => exact List.take_prefix _ _
  | eat c =>
    rw [taken]
    split
    · next h =>
      obtain ⟨more, rfl⟩ := List.head?_eq_some_iff.mp h
      exact ⟨more, rfl⟩
    · exact List.nil_prefix
  | eatWhile p => exact List.takeWhile_prefix p
  | _ => exact List.nil_prefix

theorem taken_append (text : List Char) (steps more : List Step) :
    taken text (steps ++ more) =
      taken text steps ++ taken (text.drop (taken text steps).length) more := by
  induction steps generalizing text with
  | nil => rfl
  | cons s steps ih =>
    rw [List.cons_append, taken, taken, ih, List.append_assoc, List.drop_drop, List.length_append]

theorem taken_front (text : List Char) (steps : List Step) : taken text steps <+: text := by
  induction steps generalizing text with
  | nil => exact List.nil_prefix
  | cons s steps ih =>
    have hstep := List.prefix_iff_eq_append.mp (s.taken_front text)
    have hlater := ih (text.drop (s.taken text).length)
    rwa [← List.prefix_append_right_inj (s.taken text), hstep] at hlater

namespace Walk

/-! ### Runs -/

/-- A walk after some more steps. -/
def run (w : Walk) (steps : List Step) : Walk := steps.foldl (fun w s => (w.step s).2) w

theorem run_append (w : Walk) (steps more : List Step) :
    w.run (steps ++ more) = (w.run steps).run more :=
  List.foldl_append

/-- A step moves the cursor over what it takes. -/
theorem cursor_step (w : Walk) (s : Step) :
    (w.step s).2.cursor = w.cursor.skip (s.taken w.cursor.rest).length := by
  cases s with
  | advance =>
    cases hrest : w.cursor.rest <;> simp [step, Step.taken, Cursor.advance, Cursor.skip, hrest]
  | eat c =>
    rw [step, Step.taken, peek?]
    split
    · rfl
    · exact (skip_zero _).symm
  | eatWhile p => rfl
  | _ => exact (skip_zero _).symm

/-- Steps move the cursor over everything they take, as one movement. -/
theorem cursor_run (w : Walk) (steps : List Step) :
    (w.run steps).cursor = w.cursor.skip (taken w.cursor.rest steps).length := by
  induction steps generalizing w with
  | nil => exact (skip_zero _).symm
  | cons s steps ih =>
    have hrest : (w.step s).2.cursor.rest = w.cursor.rest.drop (s.taken w.cursor.rest).length := by
      rw [cursor_step]
      rfl
    calc ((w.step s).2.run steps).cursor
      _ = (w.step s).2.cursor.skip (taken (w.step s).2.cursor.rest steps).length := ih _
      _ = w.cursor.skip ((s.taken w.cursor.rest).length +
            (taken (w.step s).2.cursor.rest steps).length) := by rw [cursor_step, skip_skip]
      _ = w.cursor.skip (taken w.cursor.rest (s :: steps)).length := by
        rw [hrest, taken, List.length_append]

/-- Marks stay, with their numbers. -/
theorem marks_run (w : Walk) (steps : List Step) : w.marks <+: (w.run steps).marks := by
  induction steps generalizing w with
  | nil => exact List.prefix_refl _
  | cons s steps ih =>
    refine List.IsPrefix.trans ?_ (ih (w.step s).2)
    cases s with
    | mark => exact List.prefix_append _ _
    | eat c =>
      rw [step]
      split <;> exact List.prefix_refl _
    | _ => exact List.prefix_refl _

theorem marked_of_getElem? {w : Walk} {n : Nat} {c : Cursor} (h : w.marks[n]? = some c) :
    w.marked n = c := by
  simp [marked, h]

/-! ### From the start of a text -/

/-- The walk that has made some steps from the start of a text. -/
def along (source file : String) (steps : List Step) : Walk :=
  (begin (ofSource source file)).run steps

/-- What a step answers after some steps. -/
def answer (source file : String) (steps : List Step) (s : Step) : Answer :=
  ((along source file steps).step s).1

variable {source file : String}

theorem cursor_along (steps : List Step) : (along source file steps).cursor =
    (ofSource source file).skip (taken source.toList steps).length :=
  cursor_run _ steps

theorem rest_along (steps : List Step) :
    source.toList = taken source.toList steps ++ (along source file steps).cursor.rest := by
  rw [cursor_along]
  exact (List.prefix_iff_eq_append.mp (taken_front source.toList steps)).symm

/-- After any steps the cursor stands behind what they have taken. -/
theorem position_along (steps : List Step) : (along source file steps).cursor.position =
    Position.first.after (taken source.toList steps) := by
  have hfront := List.prefix_iff_eq_take.mp (taken_front source.toList steps)
  rw [cursor_along, skip, ofSource]
  exact congrArg _ hfront.symm

theorem along_append (steps more : List Step) :
    along source file (steps ++ more) = (along source file steps).run more :=
  run_append _ steps more

/-- Later steps take from what earlier steps have left. -/
theorem taken_later (steps more : List Step) : taken source.toList (steps ++ more) =
    taken source.toList steps ++ taken (along source file steps).cursor.rest more := by
  rw [taken_append, cursor_along]
  rfl

theorem rest_later (steps more : List Step) : (along source file steps).cursor.rest =
    taken (along source file steps).cursor.rest more ++
      (along source file (steps ++ more)).cursor.rest := by
  have hall : source.toList = taken source.toList (steps ++ more) ++
      (along source file (steps ++ more)).cursor.rest := rest_along _
  rw [taken_later, List.append_assoc] at hall
  exact List.append_cancel_left ((rest_along steps).symm.trans hall)

theorem file_along (steps : List Step) : (along source file steps).cursor.file = file := by
  rw [cursor_along]
  rfl

/-- A mark of a walk: it has a number, and the steps that came before it. Number zero is the start
    of the text. -/
inductive Marked (source file : String) : List Step → Nat → List Step → Prop
  | start (steps : List Step) : Marked source file steps 0 []
  | set {early : List Step} {n : Nat} (h : answer source file early .mark = .number n)
      (late : List Step) : Marked source file (early ++ .mark :: late) n early

theorem marked_along {steps early : List Step} {n : Nat} (h : Marked source file steps n early) :
    (along source file steps).marked n = (along source file early).cursor := by
  cases h with
  | start =>
    obtain ⟨more, hmarks⟩ := marks_run (begin (ofSource source file)) steps
    refine marked_of_getElem? ?_
    rw [along, ← hmarks]
    rfl
  | set h late =>
    have hn : (along source file early).marks.length = n := Answer.number.inj h
    obtain ⟨more, hmarks⟩ := marks_run ((along source file early).step .mark).2 late
    refine marked_of_getElem? ?_
    rw [along_append, run, List.foldl_cons, ← run, ← hmarks, step, ← hn]
    simp

/-! ### What holds of every walk -/

/-- The place where a walk is after some steps. -/
def position (source file : String) (steps : List Step) : Position :=
  (along source file steps).cursor.position

/-- A place as an index into the bytes of a text. -/
def index (source file : String) (steps : List Step) : String.Pos.Raw :=
  ⟨(position source file steps).offset⟩

/-- What holds of a walk after any steps from the start of a text. -/
structure Sound (source file : String) (steps : List Step) : Prop where
  /-- The rest is what has not been taken, and the place is the one behind what has been. -/
  rest : source.toList = taken source.toList steps ++ (along source file steps).cursor.rest
  place : (position source file steps).Behind (taken source.toList steps)
  border : (index source file steps).IsValid source
  onward : ∀ more, (position source file steps).UpTo (position source file (steps ++ more))
  peek : answer source file steps .peek = .char ((index source file steps).get? source)
  atEnd : answer source file steps .isAtEnd = .flag true ↔
    answer source file steps .peek = .char none
  bytes : answer source file steps .isAtEnd = .flag true ↔
    source.utf8ByteSize ≤ (position source file steps).offset
  /-- All characters that pass are taken, and the next one does not pass. -/
  eatWhile : ∀ p, ∃ run,
    taken source.toList (steps ++ [.eatWhile p]) = taken source.toList steps ++ run ∧
      (∀ c ∈ run, p c = true) ∧
      ∀ c, answer source file (steps ++ [.eatWhile p]) .peek = .char (some c) → p c = false
  /-- Since a mark that has been set is what has been taken since, between two borders. -/
  since : ∀ n early, Marked source file steps n early → ∃ text : String,
    taken source.toList steps = taken source.toList early ++ text.toList ∧
      answer source file steps (.textSince n) = .text text ∧
      (index source file early).extract source (index source file steps) = text ∧
      answer source file steps (.spanSince n) =
        .span ⟨file, position source file early, position source file steps⟩

theorem offset_position (steps : List Step) :
    (position source file steps).offset = String.utf8Len (taken source.toList steps) := by
  rw [position, position_along, Position.offset_after, Position.first, Nat.zero_add]

/-- Nothing is left where all bytes of the text have been passed. -/
theorem utf8ByteSize_le_offset_iff (steps : List Step) :
    source.utf8ByteSize ≤ (position source file steps).offset ↔
      (along source file steps).cursor.rest = [] := by
  have hrest : source.toList =
      taken source.toList steps ++ (along source file steps).cursor.rest := rest_along steps
  have hsize := congrArg String.utf8Len hrest
  rw [String.utf8Len_toList, String.utf8Len_append] at hsize
  rw [offset_position, ← String.utf8Len_eq_zero]
  omega

theorem isValid_index (steps : List Step) : (index source file steps).IsValid source := by
  rw [String.Pos.Raw.isValid_iff_exists_append]
  refine ⟨String.ofList (taken source.toList steps),
    String.ofList (along source file steps).cursor.rest, ?_, ?_⟩
  · rw [← String.ofList_append, ← rest_along, String.ofList_toList]
  · rw [String.rawEndPos_ofList, index, offset_position]

theorem upTo_position_append (steps more : List Step) :
    (position source file steps).UpTo (position source file (steps ++ more)) := by
  rw [position, position, along_append, cursor_run, skip]
  exact Position.upTo_after _ _

/-- The character at the index of the place is the next one. -/
theorem get?_index (steps : List Step) :
    (index source file steps).get? source = (along source file steps).cursor.peek? := by
  have hget := String.get?_of_valid (taken source.toList steps)
    (along source file steps).cursor.rest
  rwa [← rest_along, String.ofList_toList, ← offset_position] at hget

theorem peek?_eatWhile (steps : List Step) (p : Char → Bool) (c : Char)
    (h : (along source file (steps ++ [.eatWhile p])).cursor.peek? = some c) : p c = false := by
  have hrest : (along source file (steps ++ [.eatWhile p])).cursor.rest =
      (along source file steps).cursor.rest.dropWhile p := by
    have hpieces := List.takeWhile_append_dropWhile (p := p)
      (l := (along source file steps).cursor.rest)
    have hlater : (along source file steps).cursor.rest = _ := rest_later steps [.eatWhile p]
    rw [taken, taken, List.append_nil] at hlater
    exact List.append_cancel_left (hlater.symm.trans hpieces.symm)
  have hnot := List.head?_dropWhile_not p (along source file steps).cursor.rest
  rw [peek?, hrest] at h
  rw [h] at hnot
  exact hnot

/-- What has been taken since an earlier moment stands between the indices of both moments. -/
theorem extract_index (early late : List Step) :
    (index source file early).extract source (index source file (early ++ late)) =
      String.ofList (taken (along source file early).cursor.rest late) := by
  have hsource : taken source.toList early ++ taken (along source file early).cursor.rest late ++
      (along source file (early ++ late)).cursor.rest = source.toList := by
    rw [← taken_later, ← rest_along]
  have hextract := String.extract_of_valid (taken source.toList early)
    (taken (along source file early).cursor.rest late)
    (along source file (early ++ late)).cursor.rest
  rwa [hsource, String.ofList_toList, ← String.utf8Len_append, ← taken_later, ← offset_position,
    ← offset_position] at hextract

theorem since_mark {steps early : List Step} {n : Nat} (h : Marked source file steps n early) :
    ∃ late, steps = early ++ late ∧
      answer source file steps (.textSince n) =
        .text (String.ofList (taken (along source file early).cursor.rest late)) ∧
      answer source file steps (.spanSince n) =
        .span ⟨file, position source file early, position source file steps⟩ := by
  have hmarked := marked_along h
  obtain ⟨late, rfl⟩ : ∃ late, steps = early ++ late := by
    cases h with
    | start => exact ⟨steps, rfl⟩
    | set _ late => exact ⟨_, rfl⟩
  have hfront := taken_front (along source file early).cursor.rest late
  refine ⟨late, rfl, ?_, ?_⟩
  · rw [answer, step, hmarked, along_append, cursor_run, textSince_skip _ hfront.length_le,
      ← List.prefix_iff_eq_take.mp hfront]
  · rw [answer, step, hmarked, spanSince, file_along]
    rfl

/-- Every walk over a text of less than 2³² - 1 bytes is sound. -/
theorem sound_along (source file : String) (hsize : source.utf8ByteSize < 2 ^ 32 - 1)
    (steps : List Step) : Sound source file steps where
  rest := rest_along steps
  place := by
    have hfront := String.utf8Len_le_of_prefix (taken_front source.toList steps)
    rw [String.utf8Len_toList] at hfront
    rw [position, position_along]
    exact Position.behind_after_first (by omega)
  border := isValid_index steps
  onward := upTo_position_append steps
  peek := congrArg Answer.char (get?_index steps).symm
  atEnd := by
    have hend := isAtEnd_iff (along source file steps).cursor
    simpa [answer, step] using hend
  bytes := by
    rw [utf8ByteSize_le_offset_iff]
    simp [answer, step, isAtEnd]
  eatWhile := by
    intro p
    refine ⟨(along source file steps).cursor.rest.takeWhile p, ?_, ?_, ?_⟩
    · rw [taken_later, taken, taken, List.append_nil]
      rfl
    · exact fun c hc => List.mem_takeWhile_imp hc
    · exact fun c hc => peek?_eatWhile steps p c (Answer.char.inj hc)
  since := by
    intro n early h
    obtain ⟨late, rfl, htext, hspan⟩ := since_mark h
    refine ⟨_, ?_, htext, extract_index early late, hspan⟩
    rw [taken_later, String.toList_ofList]

/-- A text with letters of two bytes. -/
def greek : String := "é\tb\nπ=x"

/-- Over the first letter, then from a mark on over the end of a line. -/
def greekSteps : List Step := [.advance, .mark, .eatWhile (· ≠ '='), .eat '=']

theorem sound_along_greek : greek.utf8ByteSize < 2 ^ 32 - 1 ∧
    position greek "t.fbs" greekSteps = ⟨2, 3, 8⟩ ∧
    answer greek "t.fbs" greekSteps (.textSince 1) = .text "\tb\nπ=" := by
  have hsize : greek.utf8ByteSize < 2 ^ 32 - 1 := by decide
  have hnumber : answer greek "t.fbs" [.advance] .mark = .number 1 := rfl
  have hmark : Marked greek "t.fbs" greekSteps 1 [.advance] := .set hnumber _
  have htaken : taken greek.toList greekSteps = taken greek.toList [.advance] ++
      "\tb\nπ=".toList := by decide
  obtain ⟨text, htext, hanswer, -, -⟩ :=
    (sound_along greek "t.fbs" hsize greekSteps).since 1 _ hmark
  obtain rfl := String.toList_injective (List.append_cancel_left (htext.symm.trans htaken))
  exact ⟨hsize, by decide, hanswer⟩

end Walk

end Cursor

end FlatSchema
