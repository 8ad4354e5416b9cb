import FlatSchema.Path
import FlatSchema.Text.Terminal

/-!
The command line: inputs, one option with a value, and switches.

Arguments are read from left to right. Values that were given are looked at only when the next
option is complete or the arguments end; so an unknown option is refused before an empty value that
stands further left. A request for help or for the version counts at once.

Arguments are bytes, as the names of files are. The names of options are texts, and what is refused
is shown as text.
-/

namespace FlatSchema

/-- The switches that may be given once. -/
inductive Switch where
  | check
  | emitJson
  | emitTokens
  | emitAst
  | quiet
  | denyWarnings
deriving DecidableEq, Inhabited

namespace Switch

def all : List Switch := [check, emitJson, emitTokens, emitAst, quiet, denyWarnings]

/-- The long name. -/
def name : Switch → String
  | check => "check"
  | emitJson => "emit-json"
  | emitTokens => "emit-tokens"
  | emitAst => "emit-ast"
  | quiet => "quiet"
  | denyWarnings => "deny-warnings"

end Switch

/-- What the command line asks for. -/
structure Options where
  inputs : List Path := []
  output : Option Path := none
  switches : List Switch := []
  verbosity : Nat := 0
deriving DecidableEq, Inhabited

/-- A switch is on. -/
def Options.has (o : Options) (s : Switch) : Bool := o.switches.contains s

/-- What can be wrong with a command line. -/
inductive UsageError where
  | unknown (argument : String)
  | valueMissing (option : String)
  | repeated (option : String)
  | valueUnwanted (value : String) (option : String)
deriving DecidableEq, Inhabited

/-- What is wrong, in words. Arguments are quoted without their commands to a terminal. -/
def UsageError.message : UsageError → String
  | .unknown argument => s!"unexpected argument '{Terminal.shown argument}' found"
  | .valueMissing option => s!"a value is required for '{option}' but none was supplied"
  | .repeated option => s!"the argument '{option}' cannot be used multiple times"
  | .valueUnwanted value option =>
    s!"unexpected value '{Terminal.shown value}' for '{option}' found; no more were expected"

/-- Why reading the command line stops early. -/
inductive Stop where
  | summary
  | help
  | version
  | refused (e : UsageError)
deriving DecidableEq, Inhabited

/-- Values that were given but not looked at yet. -/
inductive Pending where
  | nothing
  | output (value : Option Bytes)
  | inputs (values : List Bytes)
deriving DecidableEq, Inhabited

/-- A command line as far as it is read. -/
structure Reading where
  options : Options := {}
  pending : Pending := .nothing
  /-- Two hyphens were given; what follows are inputs. -/
  onlyInputs : Bool := false
deriving DecidableEq, Inhabited

namespace Reading

/-- The option with a value, as messages call it. -/
def outputName : String := "--output <OUTPUT>"

/-- The inputs, as messages call them. -/
def inputsName : String := "[INPUTS]..."

/-- Set the output directory. -/
def setOutput (r : Reading) (value : Option Bytes) : Except Stop Reading :=
  match value with
  | none => .error (.refused (.valueMissing outputName))
  | some v =>
    if r.options.output.isSome then .error (.refused (.repeated outputName))
    else if v.isEmpty then .error (.refused (.valueMissing outputName))
    else .ok { r with options.output := some ⟨v⟩ }

/-- Look at the values that were given so far. -/
def settle (r : Reading) : Except Stop Reading :=
  match r.pending with
  | .nothing => .ok r
  | .output value => setOutput { r with pending := .nothing } value
  | .inputs values =>
    if values.any List.isEmpty then .error (.refused (.valueMissing inputsName))
    else
      .ok { r with
        pending := .nothing
        options.inputs := r.options.inputs ++ values.map Path.mk }

/-- Turn a switch on. -/
def turnOn (r : Reading) (s : Switch) : Except Stop Reading := do
  let r ← r.settle
  if r.options.has s then .error (.refused (.repeated s!"--{s.name}"))
  else return { r with options.switches := r.options.switches ++ [s] }

/-- Ask for more detail in the log. -/
def moreVerbose (r : Reading) : Except Stop Reading := do
  let r ← r.settle
  return { r with options.verbosity := r.options.verbosity + 1 }

/-- Stop, unless the values given so far are refused. -/
def stop (r : Reading) (s : Stop) : Except Stop Reading := do
  let _ ← r.settle
  .error s

/-- The output directory, with its value attached or to come. -/
def takeOutput (r : Reading) (value : Option Bytes) : Except Stop Reading := do
  let r ← r.settle
  match value with
  | some v => r.setOutput (some v)
  | none => return { r with pending := .output none }

/-- An input. -/
def takeInput (r : Reading) (value : Bytes) : Except Stop Reading :=
  match r.pending with
  | .inputs values => .ok { r with pending := .inputs (values ++ [value]) }
  | _ => do
    let r ← r.settle
    return { r with pending := .inputs [value] }

/-- Something that takes no value was given one, or not. -/
def plain (name : String) (value : Option Bytes) (go : Except Stop Reading) :
    Except Stop Reading :=
  match value with
  | some v => .error (.refused (.valueUnwanted (shownOf v) name))
  | none => go

/-- A long option, with the value behind its equals sign. -/
def takeLong (r : Reading) (name : Bytes) (value : Option Bytes) : Except Stop Reading :=
  if name = bytesOf "output" then r.takeOutput value
  else if name = bytesOf "verbose" then plain "--verbose..." value r.moreVerbose
  else if name = bytesOf "help" then plain "--help" value (r.stop .help)
  else if name = bytesOf "version" then plain "--version" value (r.stop .version)
  else
    match Switch.all.find? (bytesOf ·.name == name) with
    | some s => plain s!"--{s.name}" value (r.turnOn s)
    | none => .error (.refused (.unknown s!"--{shownOf name}"))

/-- What is refused of short options: a character, or everything if none comes next. -/
def refusedShort (bytes : Bytes) : String :=
  match Utf8.first? bytes with
  | some c => s!"-{c}"
  | none => s!"-{shownOf bytes}"

/-- The equals sign, and the hyphen. -/
@[match_pattern] abbrev equals : UInt8 := 0x3d

@[match_pattern] abbrev hyphen : UInt8 := 0x2d

/-- Short options in a row. What follows the option with a value is its value. -/
def takeShort (r : Reading) : Bytes → Except Stop Reading
  | [] => .ok r
  | b :: rest =>
    match Char.ofUInt8 b with
    | 'o' =>
      match rest with
      | [] => r.takeOutput none
      | equals :: value => r.takeOutput (some value)
      | value => r.takeOutput (some value)
    | 'q' => do (← r.turnOn .quiet).takeShort rest
    | 'v' => do (← r.moreVerbose).takeShort rest
    | 'h' => r.stop .summary
    | 'V' => r.stop .version
    | _ => .error (.refused (.unknown (refusedShort (b :: rest))))

/-- The part before the first equals sign, and the part behind it if there is one. -/
def splitValue (bytes : Bytes) : Bytes × Option Bytes :=
  let name := bytes.takeWhile (· != equals)
  match bytes.drop name.length with
  | [] => (name, none)
  | _ :: value => (name, some value)

/-- Take one argument. A single hyphen is an input, or the value of an option that waits for one. -/
def take (r : Reading) (argument : Bytes) : Except Stop Reading :=
  if r.onlyInputs then r.takeInput argument
  else
    match argument, r.pending with
    | [hyphen, hyphen], _ => .ok { r with onlyInputs := true }
    | hyphen :: hyphen :: bytes, _ => r.takeLong (splitValue bytes).1 (splitValue bytes).2
    | hyphen :: b :: bs, _ => r.takeShort (b :: bs)
    | _, .output none => .ok { r with pending := .output (some argument) }
    | _, _ => r.takeInput argument

end Reading

/-- What the arguments ask for. -/
def Options.ofArguments (arguments : List Bytes) : Except Stop Options := do
  let r ← arguments.foldlM Reading.take {}
  return (← r.settle).options

end FlatSchema
