import FlatSchema.Diagnostic.Bag

/-!
Absorbing a bag. A history that neither abandons its work nor leaves a scope that is not its own
never looks below the scopes it has opened. On a bag with open scopes it therefore does what it does
on an empty one, put on top: its scopes stand behind the open ones, and its diagnostics behind the
earlier ones and inside the open scopes.

        history      enter hp · report "bad"            on top of   Monster | "old"
        alone        hp         | hp: "bad"
        in place     Monster hp | "old", Monster.hp: "bad"
        absorbed     Monster    | "old", Monster.hp: "bad"

So absorbing the bag of a history is running the history in place and leaving the scopes it has
left open.
-/

namespace FlatSchema

namespace Bag

/-- How many scopes of its own are open behind a step, if `n` of them are open before it. None if
    the step abandons the work or leaves a scope that is not its own; what an absorbed history does
    is that history's own affair. -/
def ownBehind? : Nat → Step → Option Nat
  | n, .enter _ | n, .within _ => some (n + 1)
  | n + 1, .leave => some n
  | 0, .leave | _, .abandon => none
  | n, .report _ | n, .error _ _ | n, .warning _ _ | n, .absorb _ => some n

/-- How many scopes a history leaves open, if it keeps to its own. -/
def leftOpen? (history : List Step) : Option Nat := history.foldlM ownBehind? 0

/-- A bag whose diagnostics and scopes are put behind and inside those of another. -/
def onTop (bag inner : Bag) : Bag where
  diagnostics := bag.diagnostics ++ inner.diagnostics.map (Diagnostic.within bag.scopes)
  scopes := bag.scopes ++ inner.scopes

variable (bag inner : Bag)

@[simp] theorem onTop_empty : bag.onTop {} = bag := by simp [onTop]

theorem within_append (outer scopes : List String) (d : Diagnostic) :
    d.within (outer ++ scopes) = (d.within scopes).within outer := by
  simp [Diagnostic.within]

/-! ### Steps on top -/

theorem report_onTop (d : Diagnostic) :
    (bag.onTop inner).report d = bag.onTop (inner.report d) := by
  simp [report, onTop, within_append]

theorem length_scopes_enter (name : String) :
    (bag.enter name).scopes.length = bag.scopes.length + 1 := by simp [enter]

theorem length_scopes_leave : bag.leave.scopes.length = bag.scopes.length - 1 := by simp [leave]

theorem enter_onTop (name : String) :
    (bag.onTop inner).enter name = bag.onTop (inner.enter name) := by
  simp [enter, onTop]

/-- A scope that is left is the innermost one on top, if there is one. -/
theorem leave_onTop (h : inner.scopes ≠ []) : (bag.onTop inner).leave = bag.onTop inner.leave := by
  simp [leave, onTop, List.dropLast_append_of_ne_nil h]

theorem absorb_onTop (other : Bag) :
    (bag.onTop inner).absorb other = bag.onTop (inner.absorb other) := by
  rw [absorb, absorb, reportAll, reportAll]
  induction other.diagnostics generalizing inner with
  | nil => rfl
  | cons d ds ih => rw [List.foldl_cons, List.foldl_cons, report_onTop, ih]

/-- A bag that is absorbed is put on top without its scopes. -/
theorem absorb_eq_onTop : bag.absorb inner = bag.onTop ⟨inner.diagnostics, []⟩ := by
  have hdiagnostics := bag.diagnostics_reportAll inner.diagnostics
  have hscopes := bag.scopes_reportAll inner.diagnostics
  rw [absorb, onTop, ← hdiagnostics, List.append_nil, ← hscopes]

/-- A step that keeps to its own scopes does on top what it does alone. -/
theorem apply_onTop {step : Step} {k : Nat} (h : ownBehind? inner.scopes.length step = some k) :
    step.apply (bag.onTop inner) = bag.onTop (step.apply inner) ∧
      (step.apply inner).scopes.length = k := by
  cases step with
  | report d =>
    rw [ownBehind?, Option.some.injEq] at h
    exact ⟨report_onTop bag inner d, h⟩
  | error message span =>
    rw [ownBehind?, Option.some.injEq] at h
    exact ⟨report_onTop bag inner _, h⟩
  | warning message span =>
    rw [ownBehind?, Option.some.injEq] at h
    exact ⟨report_onTop bag inner _, h⟩
  | enter name =>
    rw [ownBehind?, Option.some.injEq] at h
    exact ⟨enter_onTop bag inner name, by rw [← h, Step.apply, length_scopes_enter]⟩
  | «within» name =>
    rw [ownBehind?, Option.some.injEq] at h
    exact ⟨enter_onTop bag inner name, by rw [← h, Step.apply, length_scopes_enter]⟩
  | leave =>
    cases hn : inner.scopes.length with
    | zero => simp [hn, ownBehind?] at h
    | succ n =>
      rw [hn, ownBehind?, Option.some.injEq] at h
      have hne : inner.scopes ≠ [] := List.ne_nil_of_length_eq_add_one hn
      refine ⟨leave_onTop bag inner hne, ?_⟩
      rw [Step.apply, length_scopes_leave, hn, ← h, Nat.add_sub_cancel]
  | abandon => simp [ownBehind?] at h
  | absorb history =>
    rw [ownBehind?, Option.some.injEq] at h
    exact ⟨absorb_onTop bag inner _, by rw [← h, Step.apply, absorb, scopes_reportAll]⟩

/-! ### Histories on top -/

theorem replay_append (history more : List Step) :
    replay (history ++ more) bag = replay more (replay history bag) := by
  induction history generalizing bag with
  | nil => rfl
  | cons step rest ih => rw [List.cons_append, replay, replay, ih]

/-- A history that keeps to its own scopes does on top what it does alone. The induction carries
    how many scopes of its own are open. -/
theorem replay_onTop {history : List Step} {k : Nat}
    (h : history.foldlM ownBehind? inner.scopes.length = some k) :
    replay history (bag.onTop inner) = bag.onTop (replay history inner) ∧
      (replay history inner).scopes.length = k := by
  induction history generalizing inner with
  | nil =>
    rw [List.foldlM_nil] at h
    exact ⟨rfl, Option.some.inj h⟩
  | cons step rest ih =>
    rw [List.foldlM_cons] at h
    obtain ⟨n, hstep, hrest⟩ := Option.bind_eq_some_iff.mp h
    obtain ⟨happly, hn⟩ := apply_onTop bag inner hstep
    rw [replay, replay, happly]
    exact ih (step.apply inner) (by rw [hn, hrest])

/-- Leaving every scope on top leaves the scopes below and all diagnostics. -/
theorem replay_leave_onTop {k : Nat} (h : inner.scopes.length = k) :
    replay (List.replicate k .leave) (bag.onTop inner) = bag.onTop ⟨inner.diagnostics, []⟩ := by
  induction k generalizing inner with
  | zero =>
    have hscopes : inner.scopes = [] := List.length_eq_zero_iff.mp h
    rw [← hscopes]
    rfl
  | succ k ih =>
    have hne : inner.scopes ≠ [] := List.ne_nil_of_length_eq_add_one h
    have happly : Step.leave.apply (bag.onTop inner) = bag.onTop inner.leave :=
      leave_onTop bag inner hne
    rw [List.replicate_succ, replay, happly]
    exact ih inner.leave (by rw [length_scopes_leave, h, Nat.add_sub_cancel])

/-- Absorbing the bag of a history is running the history in place and leaving the scopes it has
    left open, and the open scopes stay as they are. -/
theorem absorb_replay_eq {history : List Step} {k : Nat} (h : leftOpen? history = some k) :
    bag.absorb (replay history {}) = replay (history ++ List.replicate k .leave) bag ∧
      (bag.absorb (replay history {})).scopes = bag.scopes := by
  obtain ⟨hreplay, hk⟩ := replay_onTop bag {} h
  rw [onTop_empty] at hreplay
  refine ⟨?_, ?_⟩
  · rw [replay_append, hreplay, replay_leave_onTop bag _ hk, absorb_eq_onTop]
  · rw [absorb, scopes_reportAll]

/-- Steps that leave one scope open and absorb a history that leaves one open too. -/
def weaponSteps : List Step :=
  [.enter "hp", .error "bad" .empty, .leave, .within "Weapon",
    .absorb [.leave, .enter "damage", .report { severity := .warning, message := "odd" }],
    .warning "old" .empty]

theorem absorb_replay_weapon : leftOpen? weaponSteps = some 1 ∧
    absorb ⟨[], ["Monster"]⟩ (replay weaponSteps {}) =
      replay (weaponSteps ++ List.replicate 1 .leave) ⟨[], ["Monster"]⟩ ∧
    (absorb ⟨[], ["Monster"]⟩ (replay weaponSteps {})).scopes = ["Monster"] := by
  have hopen : leftOpen? weaponSteps = some 1 := by decide
  exact ⟨hopen, absorb_replay_eq ⟨[], ["Monster"]⟩ hopen⟩

end Bag

end FlatSchema
