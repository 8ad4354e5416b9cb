import FlatSchema.CommandLine.Help
import FlatSchema.CommandLine.Verdict
import FlatSchema.Files
import FlatSchema.Manifest

/-!
A whole run of the program: options, manifest, and the inputs one after the other. A bad schema does
not stop the run; an input that cannot be read or an output that cannot be written does.
-/

namespace FlatSchema

/-- What stops a run. -/
inductive RunError where
  | manifest (e : ManifestError)
  | noInputs
  | unreadable (p : Path) (e : FileError)
  | unwritable (p : Path) (e : FileError)
deriving DecidableEq, Inhabited

def RunError.message : RunError → String
  | .manifest e => e.message
  | .noInputs => "no input schemas (pass files or list them under [project] schemas in Fbsc.toml)"
  | .unreadable p e => s!"could not read '{p.toString}': {e.message}"
  | .unwritable p e => s!"could not write '{p.toString}': {e.message}"

/-- What a run says, and its exit code. -/
structure Report where
  lines : List Line
  exitCode : Nat
deriving DecidableEq, Inhabited

namespace Report

/-- The whole output, where every text ends its line. -/
def output (r : Report) : String := String.join ((r.lines.filterMap Line.output?).map (· ++ "\n"))

def messages (r : Report) : List String := r.lines.filterMap Line.message?

def events (r : Report) : List Event := r.lines.filterMap Line.event?

end Report

/-- The settings of a run. Options go before the manifest, but warnings are denied if either says
    so. -/
def Settings.resolve (o : Options) (manifest : Option Manifest) : Except RunError Settings :=
  let inputs :=
    if o.inputs.isEmpty then (manifest.map Manifest.schemaPaths).getD [] else o.inputs
  if inputs.isEmpty then .error .noInputs
  else
    .ok {
      inputs
      outputDirectory := o.output <|> manifest.bind Manifest.outputDirectory
      layout := if (manifest.map Manifest.pretty).getD true then .pretty else .compact
      denyWarnings := o.has .denyWarnings || (manifest.map Manifest.denyWarnings).getD false }

/-- Where the definitions of a schema are written: under the name of the schema, as it is shown, in
    a directory or, if there is none, beside the schema. -/
def outputPath (input : Path) (directory : Option Path) : Path :=
  let stem := shownOf (input.stem?.getD [])
  (directory.getD (input.parent?.getD ⟨[]⟩)).child (stem ++ ".fields.json")

namespace Run

variable {m : Type → Type} [Monad m]

/-- Make the directory that something is to be written in. -/
def prepare (fs : Files m) (p : Path) : m (Except RunError Unit) := do
  match p.parent?.filter (!·.isEmpty) with
  | some directory =>
    return (← fs.createDirectories directory).mapError (RunError.unwritable directory)
  | none => return .ok ()

/-- Write a text, in a directory that is made if it is missing. -/
def write (fs : Files m) (p : Path) (text : String) : m (Except RunError Unit) := do
  match ← prepare fs p with
  | .error e => return .error e
  | .ok () => return (← fs.writeText p text).mapError (RunError.unwritable p)

/-- Compile one input: what is said, and whether it is good. -/
def compile (fs : Files m) (o : Options) (s : Settings) (input : Path) :
    m (List Line × Except RunError Bool) := do
  match ← fs.readText input with
  | .error e => return ([], .error (.unreadable input e))
  | .ok source =>
    match Verdict.ofSource o s source input.toString with
    | (lines, .bad) => return (lines, .ok false)
    | (lines, .good) => return (lines, .ok true)
    | (lines, .write json types) =>
      let p := outputPath input s.outputDirectory
      match ← write fs p json with
      | .error e => return (lines, .error e)
      | .ok () =>
        let size := json.utf8ByteSize
        return (lines ++ [
          .log ⟨.info, s!"wrote {p.toString}", [("types", toString types)]⟩,
          .output s!"Compiled {input.toString} -> {p.toString} ({size} bytes)"], .ok true)

/-- Compile inputs in order, up to the first that stops the run. All must be good. -/
def compileAll (fs : Files m) (o : Options) (s : Settings) :
    List Path → m (List Line × Except RunError Bool)
  | [] => return ([], .ok true)
  | input :: rest => do
    match ← compile fs o s input with
    | (lines, .error e) => return (lines, .error e)
    | (lines, .ok good) =>
      let (more, result) ← compileAll fs o s rest
      return (lines ++ more, result.map (good && ·))

/-- Where the search for a manifest starts: at the directory of the first input, or here. -/
def searchStart (fs : Files m) (o : Options) : m Path := do
  match o.inputs.head? with
  | some input => return (((← fs.canonical? input).getD input).parent?).getD ⟨[]⟩
  | none => fs.currentDirectory

/-- The manifest, if there is one; one that is there must be right. -/
def manifest? (fs : Files m) (o : Options) : m (Except RunError (Option Manifest)) := do
  match ← Manifest.findAndLoad fs (← searchStart fs o) with
  | .ok found => return .ok (some found)
  | .error (.notFound _) => return .ok none
  | .error e => return .error (.manifest e)

/-- The event of a manifest that was loaded. -/
def loadedEvent (found : Manifest) : Event :=
  ⟨.debug, "loaded manifest", [("project", found.name), ("root", found.root.toString)]⟩

/-- Run with some options. -/
def withOptions (fs : Files m) (o : Options) : m (List Line × Except RunError Bool) := do
  match ← manifest? fs o with
  | .error e => return ([], .error e)
  | .ok found =>
    let loaded := (found.map fun f => Line.log (loadedEvent f)).toList
    match Settings.resolve o found with
    | .error e => return (loaded, .error e)
    | .ok s =>
      let (lines, result) ← compileAll fs o s s.inputs
      return (loaded ++ lines, result)

/-- The greatest detail that is logged. -/
def logDetail : Nat → Nat
  | 0 => 0
  | 1 => Level.debug.detail
  | _ => Level.trace.detail

/-- Leave out of the log what is too much detail. -/
def audible (verbosity : Nat) : Line → Bool
  | .log e => e.level.detail ≤ logDetail verbosity
  | _ => true

/-- Run with some options and report. -/
def report (fs : Files m) (o : Options) : m Report := do
  let (lines, result) ← withOptions fs o
  let lines := lines.filter (audible o.verbosity)
  match result with
  | .ok good => return ⟨lines, if good then 0 else 1⟩
  | .error e => return ⟨lines ++ [.message s!"error: {e.message}"], 1⟩

/-- Run with the arguments of a command line. -/
def withArguments (fs : Files m) (arguments : List Bytes) : m Report := do
  match Options.ofArguments arguments with
  | .ok o => report fs o
  | .error .summary => return ⟨[.output Help.summary], 0⟩
  | .error .help => return ⟨[.output Help.full], 0⟩
  | .error .version => return ⟨[.output Help.version], 0⟩
  | .error (.refused e) => return ⟨[.message s!"error: {e.message}"], 2⟩

end Run

end FlatSchema
