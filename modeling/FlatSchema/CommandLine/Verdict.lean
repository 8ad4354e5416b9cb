import FlatSchema.CommandLine.Options
import FlatSchema.Compilation
import FlatSchema.Outline

/-!
What is said and done about one schema whose text was read. Nothing is written here: the verdict
only says what to write. The modes come one before the other: tokens, declarations, a check,
definitions on the output, and definitions in a file.
-/

namespace FlatSchema

/-- Something the program says: on its output, to the people in front of it, or in its log. -/
inductive Line where
  | output (text : String)
  | message (text : String)
  | log (e : Event)
deriving DecidableEq, Inhabited

namespace Line

/-- The text on the output, if the line is there. -/
def output? : Line → Option String
  | output text => some text
  | _ => none

/-- The text for the people in front of the program, if it is one. -/
def message? : Line → Option String
  | message text => some text
  | _ => none

/-- The event in the log, if it is one. -/
def event? : Line → Option Event
  | log e => some e
  | _ => none

end Line

/-- What becomes of a schema. -/
inductive Verdict where
  | bad
  | good
  /-- It is good, and its definitions of so many types are to be written. -/
  | write (json : String) (types : Nat)
deriving DecidableEq, Inhabited

/-- How schemas are compiled. -/
structure Settings where
  inputs : List Path
  outputDirectory : Option Path
  layout : Json.Layout
  denyWarnings : Bool
deriving DecidableEq, Inhabited

/-- The line about a diagnostic. -/
def Diagnostic.line (d : Diagnostic) : Line :=
  .message ((if d.isError then "Error: " else "Warning: ") ++ d.headline)

/-- Spaces before a text, up to a width. -/
def alignRight (width : Nat) (text : String) : String :=
  "".pushn ' ' (width - text.length) ++ text

/-- Spaces behind a text, up to a width. -/
def alignLeft (width : Nat) (text : String) : String :=
  text ++ "".pushn ' ' (width - text.length)

/-- A token in a listing: line, column, kind and lexeme. -/
def Token.listing (t : Token) : String :=
  alignRight 4 (toString t.span.start.line) ++ ":" ++ alignLeft 3 (toString t.span.start.column)
    ++ " " ++ t.kind.name ++ " " ++ quoted t.lexeme

namespace Verdict

/-- List the tokens of a source. -/
def listTokens (source file : String) : List Line × Verdict :=
  let lexed := Lexed.ofSource source file
  (lexed.tokens.map (fun t => .output t.listing) ++ lexed.diagnostics.map Diagnostic.line,
    if lexed.diagnostics.any Diagnostic.isError then bad else good)

/-- Say what there is to say about a compiled schema, and decide what to write. -/
def ofDefinition (o : Options) (s : Settings) (file : String) (bag : Bag)
    (definition : SchemaDefinition) : List Line × Verdict :=
  let said := bag.diagnostics.filter fun d => d.isError || !o.has .quiet
  let lines := said.map Diagnostic.line
  if bag.hasErrors then (lines, bad)
  else if s.denyWarnings && bag.hasWarnings then
    (lines ++ [.message s!"error: {file}: warnings are denied"], bad)
  else if o.has .check then (lines ++ [.output s!"{file}: no errors found."], good)
  else
    let json := definition.handoff s.layout
    if o.has .emitJson then (lines ++ [.output json], good)
    else (lines, write json definition.types.length)

/-- Compile a source in the mode that the options ask for. -/
def ofSource (o : Options) (s : Settings) (source file : String) : List Line × Verdict :=
  if o.has .emitTokens then listTokens source file
  else
    let parsed := Parsed.ofSource source file
    match (Compilation.ofParsed parsed).definition with
    | none => (parsed.diagnostics.map Diagnostic.line, bad)
    | some definition =>
      if o.has .emitAst then ([.output ((Outline.ofSchema parsed.schema).render 0)], good)
      else
        let (lines, verdict) := ofDefinition o s file (Compilation.ofParsed parsed).bag definition
        ((Analysis.events parsed.schema).map Line.log ++ lines, verdict)

end Verdict

end FlatSchema
