import FlatSchema.Diagnostic

/-!
A bag collects diagnostics in the order in which they are reported and knows which named scopes
are open. Every reported diagnostic is put inside the scopes open at that moment; a bag only ever
grows at its end.

        enter Monster · enter hp · report "bad" · leave · leave · report "top"
        →  error[Monster.hp]: bad
           error: top

A history of a bag is a list of steps. Replaying it is a left fold, and a bag absorbed in one step
is itself the replay of a history on an empty bag.
-/

namespace FlatSchema

/-- The diagnostics reported so far and the scopes that are open, outermost first. -/
structure Bag where
  diagnostics : List Diagnostic := []
  scopes : List String := []
deriving DecidableEq, Inhabited

namespace Bag

/-- Add a diagnostic inside the open scopes. -/
def report (bag : Bag) (d : Diagnostic) : Bag :=
  { bag with diagnostics := bag.diagnostics ++ [d.within bag.scopes] }

/-- Add diagnostics in order. -/
def reportAll (bag : Bag) (ds : List Diagnostic) : Bag := ds.foldl report bag

/-- Report every diagnostic of another bag inside the scopes open here. -/
def absorb (bag other : Bag) : Bag := bag.reportAll other.diagnostics

/-- Open a scope inside the open ones. -/
def enter (bag : Bag) (name : String) : Bag := { bag with scopes := bag.scopes ++ [name] }

/-- Close the innermost scope; a bag without open scopes stays as it is. -/
def leave (bag : Bag) : Bag := { bag with scopes := bag.scopes.dropLast }

/-- Close the scopes one by one, as often as there are open ones. -/
def unwind (bag : Bag) : Bag := bag.scopes.foldl (fun left _ => left.leave) bag

/-- Do some work inside a scope and close the scope again. -/
def inScope {α : Type} (bag : Bag) (name : String) (work : Bag → α × Bag) : α × Bag :=
  let (a, bag) := work (bag.enter name)
  (a, bag.leave)

/-- The innermost open scope. -/
def current? (bag : Bag) : Option String := bag.scopes.getLast?

def errorCount (bag : Bag) : Nat := bag.diagnostics.countP Diagnostic.isError

def hasErrors (bag : Bag) : Bool := bag.diagnostics.any Diagnostic.isError

def hasWarnings (bag : Bag) : Bool := bag.diagnostics.any fun d => !d.isError

def size (bag : Bag) : Nat := bag.diagnostics.length

def isEmpty (bag : Bag) : Bool := bag.diagnostics.isEmpty

/-- The newest diagnostic. -/
def last? (bag : Bag) : Option Diagnostic := bag.diagnostics.getLast?

@[simp] theorem scopes_report (bag : Bag) (d : Diagnostic) :
    (bag.report d).scopes = bag.scopes := rfl

@[simp] theorem diagnostics_report (bag : Bag) (d : Diagnostic) :
    (bag.report d).diagnostics = bag.diagnostics ++ [d.within bag.scopes] := rfl

@[simp] theorem scopes_reportAll (bag : Bag) (ds : List Diagnostic) :
    (bag.reportAll ds).scopes = bag.scopes := by
  induction ds generalizing bag with
  | nil => rfl
  | cons d ds ih => exact ih (bag.report d)

/-- Reporting a list adds each of its members, inside the open scopes, at the end. -/
@[simp] theorem diagnostics_reportAll (bag : Bag) (ds : List Diagnostic) :
    (bag.reportAll ds).diagnostics = bag.diagnostics ++ ds.map (Diagnostic.within bag.scopes) := by
  induction ds generalizing bag with
  | nil => simp [reportAll]
  | cons d ds ih =>
    have h := ih (bag.report d)
    simp only [scopes_report, diagnostics_report, List.append_assoc, List.singleton_append] at h
    simpa [reportAll] using h

/-- Leaving once for each of some names closes that many scopes. -/
theorem foldl_leave (names : List String) (bag : Bag) :
    names.foldl (fun left _ => left.leave) bag =
      { bag with scopes := bag.scopes.take (bag.scopes.length - names.length) } := by
  induction names generalizing bag with
  | nil => simp
  | cons name names ih =>
    rw [List.foldl_cons, ih, leave, List.dropLast_eq_take, List.take_take, List.length_take,
      List.length_cons]
    congr 2
    omega

/-- When all scopes are closed none is open, and what was reported is there. -/
theorem unwind_eq (bag : Bag) : bag.unwind = { bag with scopes := [] } := by
  rw [unwind, foldl_leave, Nat.sub_self, List.take_zero]

/-! ### Histories -/

/-- One thing that can happen to a bag. -/
inductive Step where
  /-- A diagnostic is reported, with whatever scope path of its own it has. -/
  | report (d : Diagnostic)
  | error (message : String) (span : Span)
  | warning (message : String) (span : Span)
  /-- A scope is opened and stays open until it is left. -/
  | enter (name : String)
  /-- A scope is opened around the work that follows, up to where it is left. -/
  | within (name : String)
  /-- The innermost open scope is left. -/
  | leave
  /-- Work is abandoned and every open scope left. -/
  | abandon
  /-- Another bag with a history of its own is absorbed. -/
  | absorb (history : List Step)

mutual

/-- The bag after one step. -/
def Step.apply : Step → Bag → Bag
  | .report d, bag => bag.report d
  | .error message span, bag => bag.report (.errorAt message span)
  | .warning message span, bag => bag.report (.warningAt message span)
  | .enter name, bag => bag.enter name
  | .within name, bag => bag.enter name
  | .leave, bag => bag.leave
  | .abandon, bag => bag.unwind
  | .absorb history, bag => bag.absorb (replay history {})

/-- The bag after a whole history. -/
def replay : List Step → Bag → Bag
  | [], bag => bag
  | step :: rest, bag => replay rest (step.apply bag)

end

/-- The bags after each step of a history. -/
def stages : List Step → Bag → List Bag
  | [], _ => []
  | step :: rest, bag => step.apply bag :: stages rest (step.apply bag)

end Bag

end FlatSchema
