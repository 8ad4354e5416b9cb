import FlatSchema.Proofs.Diagnostic.Absorption
import Mathlib.Data.List.Induction

/-!
A bag step by step. Opening a scope gives a guard, and a guard is closed by the leave that matches
it or when work is abandoned; so which guards are still open can be told from the history alone, by
looking ahead from each guard for what closes it. The scopes of the bag are the names of the guards
that are still open, and each step adds its own diagnostics at the end, inside those scopes.

        step        enter A   error "x"   enter B   leave   leave   leave   warning "y"
        guards      A         A           A B       A
        reported              A: x                                          y

A bag that already has open scopes when a history begins keeps those of them that the history does
not close.
-/

namespace FlatSchema

namespace Bag

/-! ### Guards -/

/-- Whether a history closes a guard opened before it, if `n` guards inside that guard are open. -/
def closes : Nat → List Step → Bool
  | _, [] => false
  | n, .enter _ :: rest | n, .within _ :: rest => closes (n + 1) rest
  | 0, .leave :: _ => true
  | n + 1, .leave :: rest => closes n rest
  | _, .abandon :: _ => true
  | n, .report _ :: rest | n, .error _ _ :: rest | n, .warning _ _ :: rest
  | n, .absorb _ :: rest => closes n rest

/-- The names of the guards that a history opens and does not close, outermost first. -/
def openGuards : List Step → List String
  | [] => []
  | .enter name :: rest | .within name :: rest =>
    if closes 0 rest then openGuards rest else name :: openGuards rest
  | _ :: rest => openGuards rest

/-- The guards among `names`, outermost first, that a history does not close. -/
def unclosed : List String → List Step → List String
  | [], _ => []
  | name :: inner, history =>
    if closes inner.length history then unclosed inner history
    else name :: unclosed inner history

theorem unclosed_nil (names : List String) : unclosed names [] = names := by
  induction names with
  | nil => rfl
  | cons name inner ih => rw [unclosed, closes, ih, if_neg (by simp)]

/-- What closes the same guards leaves the same guards open. -/
theorem unclosed_congr {history history' : List Step}
    (h : ∀ n, closes n history = closes n history') (names : List String) :
    unclosed names history = unclosed names history' := by
  induction names with
  | nil => rfl
  | cons name inner ih => rw [unclosed, unclosed, ih, h]

/-- One more guard inside, which only the steps behind its opening can close. -/
theorem unclosed_concat {history rest : List Step}
    (h : ∀ n, closes n history = closes (n + 1) rest) (names : List String) (name : String) :
    unclosed (names ++ [name]) rest = unclosed names history ++ unclosed [name] rest := by
  induction names with
  | nil => rfl
  | cons outer inner ih =>
    rw [List.cons_append, unclosed, unclosed, List.length_append, List.length_singleton, ← h, ih]
    split
    · rfl
    · rfl

/-- A leave closes the innermost guard, if there is one. -/
theorem unclosed_leave (names : List String) (rest : List Step) :
    unclosed names (.leave :: rest) = unclosed names.dropLast rest := by
  cases names using List.reverseRecOn with
  | nil => rfl
  | append_singleton names name =>
    have hinner : unclosed [name] (.leave :: rest) = [] := rfl
    rw [List.dropLast_concat, unclosed_concat (fun _ => rfl) names name, hinner, List.append_nil]

theorem unclosed_abandon (names : List String) (rest : List Step) :
    unclosed names (.abandon :: rest) = [] := by
  induction names with
  | nil => rfl
  | cons name inner ih => rw [unclosed, closes, if_pos rfl, ih]

/-- A step that opens a guard puts it inside those that are open. -/
theorem unclosed_enter {step : Step} {name : String} {rest : List Step}
    (h : step = .enter name ∨ step = .within name) (names : List String) :
    unclosed (names ++ [name]) rest ++ openGuards rest =
      unclosed names (step :: rest) ++ openGuards (step :: rest) := by
  have hopened : openGuards (step :: rest) = unclosed [name] rest ++ openGuards rest := by
    rw [unclosed, unclosed, List.length_nil]
    rcases h with rfl | rfl
    · rw [openGuards]
      split <;> rfl
    · rw [openGuards]
      split <;> rfl
  have hcloses (n : Nat) : closes n (step :: rest) = closes (n + 1) rest := by
    rcases h with rfl | rfl
    · rfl
    · rfl
  rw [hopened, unclosed_concat hcloses, List.append_assoc]

/-- The open scopes are those that were open and are not closed, and then those of the guards that
    the history leaves open. -/
theorem scopes_replay (history : List Step) (bag : Bag) :
    (replay history bag).scopes = unclosed bag.scopes history ++ openGuards history := by
  induction history generalizing bag with
  | nil => rw [replay, unclosed_nil, openGuards, List.append_nil]
  | cons step rest ih =>
    rw [replay, ih]
    have hquiet (hcloses : ∀ n, closes n rest = closes n (step :: rest)) (names : List String) :
        unclosed names rest = unclosed names (step :: rest) := unclosed_congr hcloses names
    cases step with
    | report d => exact congrArg (· ++ openGuards rest) (hquiet (fun _ => rfl) bag.scopes)
    | error message span =>
      exact congrArg (· ++ openGuards rest) (hquiet (fun _ => rfl) bag.scopes)
    | warning message span =>
      exact congrArg (· ++ openGuards rest) (hquiet (fun _ => rfl) bag.scopes)
    | absorb inner =>
      rw [Step.apply, absorb, scopes_reportAll]
      exact congrArg (· ++ openGuards rest) (hquiet (fun _ => rfl) bag.scopes)
    | enter name => exact unclosed_enter (.inl rfl) bag.scopes
    | «within» name => exact unclosed_enter (.inr rfl) bag.scopes
    | leave =>
      rw [unclosed_leave]
      rfl
    | abandon =>
      rw [unclosed_abandon, Step.apply, unwind_eq]
      rfl

/-- On a new bag the open scopes are the guards that are still open. -/
theorem scopes_replay_empty (history : List Step) :
    (replay history {}).scopes = openGuards history := scopes_replay history {}

example : openGuards [.leave, .enter "A", .enter "B", .leave, .absorb [.enter "C"], .within "D"] =
    ["A", "D"] := rfl

/-! ### Reports -/

/-- What a step reports, as it is before it gets into the bag. -/
def Step.reported : Step → List Diagnostic
  | .report d => [d]
  | .error message span => [.errorAt message span]
  | .warning message span => [.warningAt message span]
  | .absorb history => (replay history {}).diagnostics
  | .enter _ | .within _ | .leave | .abandon => []

/-- A step adds what it reports at the end, inside the open scopes. -/
theorem diagnostics_apply (step : Step) (bag : Bag) :
    (step.apply bag).diagnostics =
      bag.diagnostics ++ step.reported.map (Diagnostic.within bag.scopes) := by
  cases step with
  | report d => rfl
  | error message span => rfl
  | warning message span => rfl
  | absorb history => rw [Step.apply, absorb, diagnostics_reportAll, Step.reported]
  | enter name => exact (List.append_nil _).symm
  | «within» name => exact (List.append_nil _).symm
  | leave => exact (List.append_nil _).symm
  | abandon =>
    rw [Step.apply, unwind_eq]
    exact (List.append_nil _).symm

theorem replay_concat (before : List Step) (step : Step) (bag : Bag) :
    replay (before ++ [step]) bag = step.apply (replay before bag) :=
  replay_append bag before [step]

/-- Behind each step of a history stands the bag of the steps so far. -/
theorem getElem?_stages (before : List Step) (step : Step) (behind : List Step) (bag : Bag) :
    (stages (before ++ step :: behind) bag)[before.length]? =
      some (replay (before ++ [step]) bag) := by
  induction before generalizing bag with
  | nil => rfl
  | cons first before ih =>
    rw [List.cons_append, stages, List.length_cons, List.getElem?_cons_succ, ih, List.cons_append,
      replay]

/-! ### Counts -/

section Counts

variable (bag : Bag)

/-- Every diagnostic is an error or a warning. -/
theorem errorCount_add_warnings :
    bag.errorCount + bag.diagnostics.countP (·.severity = .warning) = bag.size := by
  have hwarning : bag.diagnostics.countP (·.severity = .warning) =
      bag.diagnostics.countP fun d => ¬ d.isError := by
    refine List.countP_congr fun d _ => ?_
    cases h : d.severity <;> simp [Diagnostic.isError, h]
  rw [hwarning, errorCount, size]
  exact (List.length_eq_countP_add_countP Diagnostic.isError).symm

theorem hasErrors_iff : bag.hasErrors = true ↔ 0 < bag.errorCount := by
  rw [hasErrors, errorCount, List.any_eq_true, List.countP_pos_iff]

theorem hasWarnings_iff : bag.hasWarnings = true ↔ bag.errorCount < bag.size := by
  have hall := bag.errorCount_add_warnings
  have hsome : bag.hasWarnings = true ↔
      0 < bag.diagnostics.countP (·.severity = .warning) := by
    rw [hasWarnings, List.any_eq_true, List.countP_pos_iff]
    refine exists_congr fun d => and_congr_right fun _ => ?_
    cases h : d.severity <;> simp [Diagnostic.isError, h]
  rw [hsome]
  omega

end Counts

/-! ### Whole histories -/

/-- What holds of a new bag behind `step`, the last of the steps so far. -/
structure Accounts (before : List Step) (step : Step) (earlier bag : Bag) : Prop where
  /-- What was reported earlier stays as it is, in front. -/
  kept : earlier.diagnostics <+: bag.diagnostics
  /-- What the step adds is inside the scopes of the guards open before it. -/
  added : bag.diagnostics = earlier.diagnostics ++
    step.reported.map fun d => { d with scope := openGuards before ++ d.scope }
  /-- The open scopes are the guards that are still open. -/
  scopes : bag.scopes = openGuards (before ++ [step])
  /-- Errors and warnings together are all that is there. -/
  counted : bag.errorCount + bag.diagnostics.countP (·.severity = .warning) = bag.size
  errors : bag.hasErrors = true ↔ 0 < bag.errorCount
  warnings : bag.hasWarnings = true ↔ bag.errorCount < bag.size
  /-- When all open guards are closed no scope is left. -/
  closed : (replay (List.replicate (openGuards (before ++ [step])).length .leave) bag).scopes = []

/-- Leaving as many scopes as are open leaves none. -/
theorem scopes_replay_leave {k : Nat} (bag : Bag) (h : bag.scopes.length = k) :
    (replay (List.replicate k .leave) bag).scopes = [] := by
  have hleave := replay_leave_onTop {} bag h
  have hsame : onTop {} bag = bag := by
    have hwithin : Diagnostic.within [] = id := rfl
    simp [onTop, hwithin]
  rw [hsame] at hleave
  rw [hleave]
  rfl

/-- Behind every step of every history of a new bag the bag accounts for all that has happened. -/
theorem accounts_replay (before : List Step) (step : Step) (behind : List Step) :
    ∃ bag, (stages (before ++ step :: behind) {})[before.length]? = some bag ∧
      bag = replay (before ++ [step]) {} ∧ Accounts before step (replay before {}) bag := by
  refine ⟨_, getElem?_stages before step behind {}, rfl, ?_⟩
  have hscopes := scopes_replay_empty (before ++ [step])
  have hadded := diagnostics_apply step (replay before {})
  rw [← replay_concat, scopes_replay_empty] at hadded
  exact {
    kept := hadded ▸ List.prefix_append _ _
    added := hadded
    scopes := hscopes
    counted := errorCount_add_warnings _
    errors := hasErrors_iff _
    warnings := hasWarnings_iff _
    closed := scopes_replay_leave _ (congrArg List.length hscopes) }

end Bag

end FlatSchema
