import FlatSchema.Source.Position

/-!
What the compiler has to say about a schema: errors and warnings, each with the place it is about,
the path of scopes it was found in, related places and possibly a suggestion.
-/

namespace FlatSchema

/-- An error stops compilation of the file, a warning does not. -/
inductive Severity where
  | error
  | warning
deriving DecidableEq, Inhabited

/-- The word a diagnostic opens with. -/
def Severity.label : Severity → String
  | .error => "error"
  | .warning => "warning"

/-- A further place that helps to understand a diagnostic. -/
structure RelatedNote where
  span : Span
  message : String
deriving DecidableEq, Inhabited

/-- One error or warning. The scope runs from the outermost name to the innermost. -/
structure Diagnostic where
  severity : Severity
  message : String
  span : Option Span := none
  scope : List String := []
  related : List RelatedNote := []
  suggestion : Option String := none
deriving DecidableEq, Inhabited

namespace Diagnostic

/-- An error at a place. -/
def errorAt (message : String) (span : Span) : Diagnostic :=
  { severity := .error, message, span := some span }

/-- A warning at a place. -/
def warningAt (message : String) (span : Span) : Diagnostic :=
  { severity := .warning, message, span := some span }

/-- The same diagnostic with one more related place. -/
def relatedTo (d : Diagnostic) (span : Span) (message : String) : Diagnostic :=
  { d with related := d.related ++ [⟨span, message⟩] }

/-- The same diagnostic, found inside the given scopes. -/
def within (scopes : List String) (d : Diagnostic) : Diagnostic :=
  { d with scope := scopes ++ d.scope }

def isError (d : Diagnostic) : Bool := d.severity == .error

/-- The scope as a dotted path, `Monster.hp`. -/
def scopePath (d : Diagnostic) : String := ".".intercalate d.scope

/-- The message behind its scope path, if it has one. -/
def headline (d : Diagnostic) : String :=
  if d.scope.isEmpty then d.message else s!"{d.scopePath}: {d.message}"

/-- Severity, scope path in brackets if any, message, and on a second line the place if any. -/
def render (d : Diagnostic) : String :=
  let scope := if d.scope.isEmpty then "" else s!"[{d.scopePath}]"
  let place := match d.span with
    | some span => s!"\n  --> {span.render}"
    | none => ""
  s!"{d.severity.label}{scope}: {d.message}{place}"

end Diagnostic

end FlatSchema
