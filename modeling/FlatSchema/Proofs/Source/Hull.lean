import FlatSchema.Source.Position
import Mathlib.Order.Nat

/-!
Merging as a join. The hull of some spans starts where the first of them starts and stops where the
last of them stops. Two hulls merge into the hull of both rows of spans, so merging gives the hull,
two spans at a time and in any way. Where each offset stands for one position, spans have only one
hull, which cannot tell in which order, in which groups and how often they were merged.

            ├────a────┤
                 ├────b────┤
        ├──c──┤
        ├───────hull───────┤
-/

namespace FlatSchema.Span

/-- One span is a part of another one. -/
structure Inside (a b : Span) : Prop where
  file : a.file = b.file
  start : b.start.offset ≤ a.start.offset
  ordered : a.start.offset ≤ a.stop.offset
  stop : a.stop.offset ≤ b.stop.offset

/-! ### Merging two -/

theorem start_merge (a b : Span) :
    (a.merge b).start = a.start ∨ (a.merge b).start = b.start := ite_eq_or_eq _ _ _

theorem stop_merge (a b : Span) :
    (a.merge b).stop = a.stop ∨ (a.merge b).stop = b.stop := ite_eq_or_eq _ _ _

theorem offset_start_merge (a b : Span) :
    (a.merge b).start.offset = min a.start.offset b.start.offset := by
  rw [merge, apply_ite Position.offset, min_def]

theorem offset_stop_merge (a b : Span) :
    (a.merge b).stop.offset = max b.stop.offset a.stop.offset := by
  rw [merge, apply_ite Position.offset, max_def]

/-! ### Hulls -/

/-- A span has the first start of some spans, their last stop, and a file of theirs. -/
structure IsHull (spans : List Span) (m : Span) : Prop where
  file : ∃ s ∈ spans, m.file = s.file
  start : ∃ s ∈ spans, m.start = s.start
  first : ∀ s ∈ spans, m.start.offset ≤ s.start.offset
  stop : ∃ s ∈ spans, m.stop = s.stop
  last : ∀ s ∈ spans, s.stop.offset ≤ m.stop.offset

namespace IsHull

variable {spans others : List Span} {a b m : Span}

theorem one (a : Span) : IsHull [a] a := by
  constructor <;> simp

/-- The hulls of two rows of spans merge into the hull of both. -/
theorem merge (ha : IsHull spans a) (hb : IsHull others b) :
    IsHull (spans ++ others) (a.merge b) where
  file := by
    obtain ⟨s, hs, hfile⟩ := ha.file
    exact ⟨s, List.mem_append_left _ hs, hfile⟩
  start := by
    rcases start_merge a b with h | h
    · obtain ⟨s, hs, hstart⟩ := ha.start
      exact ⟨s, List.mem_append_left _ hs, h.trans hstart⟩
    · obtain ⟨s, hs, hstart⟩ := hb.start
      exact ⟨s, List.mem_append_right _ hs, h.trans hstart⟩
  first := by
    intro s hs
    rw [offset_start_merge]
    rcases List.mem_append.mp hs with hs | hs
    · exact (min_le_left _ _).trans (ha.first s hs)
    · exact (min_le_right _ _).trans (hb.first s hs)
  stop := by
    rcases stop_merge a b with h | h
    · obtain ⟨s, hs, hstop⟩ := ha.stop
      exact ⟨s, List.mem_append_left _ hs, h.trans hstop⟩
    · obtain ⟨s, hs, hstop⟩ := hb.stop
      exact ⟨s, List.mem_append_right _ hs, h.trans hstop⟩
  last := by
    intro s hs
    rw [offset_stop_merge]
    rcases List.mem_append.mp hs with hs | hs
    · exact (ha.last s hs).trans (le_max_right _ _)
    · exact (hb.last s hs).trans (le_max_left _ _)

/-- Merging from the left gives the hull. -/
theorem foldl_merge (ha : IsHull spans a) (more : List Span) :
    IsHull (spans ++ more) (more.foldl Span.merge a) := by
  induction more generalizing spans a with
  | nil => simpa using ha
  | cons s more ih =>
    have hstep := ih (ha.merge (one s))
    rwa [List.append_assoc] at hstep

theorem of_mergeAll (h : mergeAll spans = some m) : IsHull spans m := by
  cases spans with
  | nil => cases h
  | cons s rest =>
    cases h
    exact foldl_merge (one s) rest

end IsHull

/-! ### Spans that agree -/

/-- Spans of one file, each with its ends in order, in which an offset stands for one position. -/
structure Agree (file : String) (spans : List Span) : Prop where
  file : ∀ s ∈ spans, s.file = file
  ordered : ∀ s ∈ spans, s.start.offset ≤ s.stop.offset
  placed : ∀ s ∈ spans, ∀ t ∈ spans, ∀ p ∈ [s.start, s.stop], ∀ q ∈ [t.start, t.stop],
    p.offset = q.offset → p.line = q.line ∧ p.column = q.column

namespace Agree

variable {file : String} {spans : List Span} {m : Span}

theorem eq_of_offset (h : Agree file spans) {s t : Span} (hs : s ∈ spans) (ht : t ∈ spans)
    {p q : Position} (hp : p ∈ [s.start, s.stop]) (hq : q ∈ [t.start, t.stop])
    (hoffset : p.offset = q.offset) : p = q := by
  obtain ⟨hline, hcolumn⟩ := h.placed s hs t ht p hp q hq hoffset
  cases p
  cases q
  simp_all

/-- Every span is a part of the hull. -/
theorem inside_hull (h : Agree file spans) (hm : IsHull spans m) : ∀ s ∈ spans, s.Inside m := by
  intro s hs
  obtain ⟨t, ht, hfile⟩ := hm.file
  have hfiles : s.file = m.file := by rw [hfile, h.file s hs, h.file t ht]
  exact ⟨hfiles, hm.first s hs, h.ordered s hs, hm.last s hs⟩

/-- Whatever all the spans are parts of, the hull is a part of too. -/
theorem hull_inside (h : Agree file spans) (hm : IsHull spans m) {whole : Span}
    (hwhole : ∀ s ∈ spans, s.Inside whole) : m.Inside whole := by
  obtain ⟨t, ht, hfile⟩ := hm.file
  obtain ⟨s, hs, hstart⟩ := hm.start
  obtain ⟨u, hu, hstop⟩ := hm.stop
  refine ⟨hfile.trans (hwhole t ht).file, ?_, ?_, ?_⟩
  · rw [hstart]
    exact (hwhole s hs).start
  · exact (hm.first s hs).trans ((h.ordered s hs).trans (hm.last s hs))
  · rw [hstop]
    exact (hwhole u hu).stop

/-- Spans that agree have one hull, whatever row they stand in. -/
theorem hull_unique (h : Agree file spans) {others others' : List Span} {m' : Span}
    (hothers : ∀ s, s ∈ others ↔ s ∈ others') (hsub : others ⊆ spans) (hm : IsHull others m)
    (hm' : IsHull others' m') : m = m' := by
  have hmem {s : Span} (hs : s ∈ others') : s ∈ spans := hsub ((hothers s).mpr hs)
  obtain ⟨r, hr, hfile⟩ := hm.file
  obtain ⟨r', hr', hfile'⟩ := hm'.file
  obtain ⟨s, hs, hstart⟩ := hm.start
  obtain ⟨s', hs', hstart'⟩ := hm'.start
  obtain ⟨t, ht, hstop⟩ := hm.stop
  obtain ⟨t', ht', hstop'⟩ := hm'.stop
  have hfiles : m.file = m'.file := by
    rw [hfile, hfile', h.file r (hsub hr), h.file r' (hmem hr')]
  have hstarts : m.start = m'.start := by
    have hle := hm.first s' ((hothers s').mpr hs')
    have hge := hm'.first s ((hothers s).mp hs)
    rw [hstart] at hle ⊢
    rw [hstart'] at hge ⊢
    exact h.eq_of_offset (hsub hs) (hmem hs') (by simp) (by simp) (by omega)
  have hstops : m.stop = m'.stop := by
    have hle := hm.last t' ((hothers t').mpr ht')
    have hge := hm'.last t ((hothers t).mp ht)
    rw [hstop] at hle ⊢
    rw [hstop'] at hge ⊢
    exact h.eq_of_offset (hsub ht) (hmem ht') (by simp) (by simp) (by omega)
  cases m
  cases m'
  simp_all

end Agree

/-! ### Any way of merging -/

/-- Spans merged two at a time, in any groups. -/
inductive Merging where
  | one (s : Span)
  | both (left right : Merging)

namespace Merging

/-- The spans that are merged, from the left. -/
def spans : Merging → List Span
  | one s => [s]
  | both left right => left.spans ++ right.spans

/-- What comes of merging them. -/
def value : Merging → Span
  | one s => s
  | both left right => left.value.merge right.value

theorem isHull_value (t : Merging) : IsHull t.spans t.value := by
  induction t with
  | one s => exact .one s
  | both left right ihl ihr => exact ihl.merge ihr

end Merging

/-- A span is the join of some spans: it reaches from their first start to their last stop, is the
    smallest span that all of them are parts of, and comes of them in whatever order and groups and
    however often they are merged. -/
structure IsJoin (spans : List Span) (m : Span) : Prop where
  hull : IsHull spans m
  covers : ∀ s ∈ spans, s.Inside m
  least : ∀ whole : Span, (∀ s ∈ spans, s.Inside whole) → m.Inside whole
  any_row : ∀ others, (∀ s, s ∈ others ↔ s ∈ spans) → mergeAll others = some m
  any_way : ∀ t : Merging, (∀ s, s ∈ t.spans ↔ s ∈ spans) → t.value = m

variable {file : String} {spans : List Span}

theorem exists_mergeAll (hne : spans ≠ []) : ∃ m, mergeAll spans = some m := by
  cases spans with
  | nil => exact absurd rfl hne
  | cons s rest => exact ⟨_, rfl⟩

theorem Agree.isJoin_mergeAll (h : Agree file spans) {m : Span} (hm : mergeAll spans = some m) :
    IsJoin spans m where
  hull := .of_mergeAll hm
  covers := h.inside_hull (.of_mergeAll hm)
  least := fun _ hwhole => h.hull_inside (.of_mergeAll hm) hwhole
  any_row := by
    intro others hothers
    obtain ⟨s, hs, -⟩ := (IsHull.of_mergeAll hm).file
    obtain ⟨m', hm'⟩ := exists_mergeAll (List.ne_nil_of_mem ((hothers s).mpr hs))
    have hsub : others ⊆ spans := fun r hr => (hothers r).mp hr
    rw [hm', h.hull_unique hothers hsub (.of_mergeAll hm') (.of_mergeAll hm)]
  any_way := by
    intro t ht
    have hsub : t.spans ⊆ spans := fun r hr => (ht r).mp hr
    exact h.hull_unique ht hsub t.isHull_value (.of_mergeAll hm)

/-- The merge of spans that agree is their join, and on such spans merging is idempotent,
    commutative and associative. -/
theorem exists_join (hne : spans ≠ []) (h : Agree file spans) :
    (∃ m, mergeAll spans = some m ∧ m.file = file ∧ IsJoin spans m) ∧
      ∀ a ∈ spans, ∀ b ∈ spans, ∀ c ∈ spans, a.merge a = a ∧ a.merge b = b.merge a ∧
        (a.merge b).merge c = a.merge (b.merge c) := by
  refine ⟨?_, fun a ha b hb c hc => ⟨?_, ?_, ?_⟩⟩
  · obtain ⟨m, hm⟩ := exists_mergeAll hne
    obtain ⟨s, hs, hfile⟩ := (IsHull.of_mergeAll hm).file
    exact ⟨m, hm, hfile.trans (h.file s hs), h.isJoin_mergeAll hm⟩
  · exact h.hull_unique (by simp) (by simp [ha]) (.merge (.one a) (.one a)) (.one a)
  · exact h.hull_unique (by simp [or_comm]) (by simp [ha, hb]) (.merge (.one a) (.one b))
      (.merge (.one b) (.one a))
  · exact h.hull_unique (by simp) (by simp [ha, hb, hc])
      (.merge (.merge (.one a) (.one b)) (.one c)) (.merge (.one a) (.merge (.one b) (.one c)))

/-- Two spans that start at one place, one of which goes on to the next line, and a third one that
    stops where they start. -/
def touching : List Span :=
  [⟨"t.fbs", ⟨1, 5, 4⟩, ⟨1, 9, 8⟩⟩, ⟨"t.fbs", ⟨1, 5, 4⟩, ⟨2, 3, 12⟩⟩,
    ⟨"t.fbs", ⟨1, 2, 1⟩, ⟨1, 5, 4⟩⟩]

theorem exists_join_touching : touching ≠ [] ∧ Agree "t.fbs" touching ∧
    IsJoin touching ⟨"t.fbs", ⟨1, 2, 1⟩, ⟨2, 3, 12⟩⟩ := by
  have hne : touching ≠ [] := by decide
  have hagree : Agree "t.fbs" touching := ⟨by decide, by decide, by decide⟩
  have hmerge : mergeAll touching = some ⟨"t.fbs", ⟨1, 2, 1⟩, ⟨2, 3, 12⟩⟩ := by decide
  obtain ⟨⟨m, hm, -, hjoin⟩, -⟩ := exists_join hne hagree
  obtain rfl := Option.some.inj (hm.symm.trans hmerge)
  exact ⟨hne, hagree, hjoin⟩

end FlatSchema.Span
