import FlatSchema.CommandLine.Run

/-!
The program on a machine: the files are the files of the machine, and a report is printed line by
line, output on the standard output and all else on the standard error.
-/

namespace FlatSchema

/-- The positive one of a number and its opposite; some calls give the opposite. -/
def positive (code : UInt32) : Nat := (min code (0 - code)).toNat

/-- The number and the words that a machine has for an error, if it has a number. -/
def numbered? : IO.Error → Option (Nat × String)
  | .alreadyExists _ code words | .interrupted _ code words | .noFileOrDirectory _ code words
  | .invalidArgument _ code words | .permissionDenied _ code words | .resourceExhausted _ code words
  | .inappropriateType _ code words | .noSuchThing _ code words
  | .otherError code words | .resourceBusy code words | .resourceVanished code words
  | .unsupportedOperation code words | .hardwareFault code words
  | .unsatisfiedConstraints code words | .illegalOperation code words
  | .protocolError code words | .timeExpired code words =>
    some (positive code, words)
  | .unexpectedEof | .userError _ => none

/-- An error of the machine. -/
def FileError.ofMachine (e : IO.Error) : FileError :=
  match numbered? e with
  | some (2, _) => .missing
  | some (17, _) => .exists
  | some (20, _) => .notDirectory
  | some (21, _) => .isDirectory
  | some (36, _) => .nameTooLong
  | some (40, _) => .tooManyLinks
  | some (code, words) => .other s!"{words} (os error {code})"
  | none => .other (toString e)

/-- Do something that can fail. -/
def attempt {α : Type} (action : IO α) : IO (Except FileError α) := do
  match ← action.toBaseIO with
  | .ok a => return .ok a
  | .error e => return .error (.ofMachine e)

/-- Do something with a path. The machine is asked by texts, so it is not asked for other paths. -/
def attemptAt {α : Type} (p : Path) (action : String → IO α) : IO (Except FileError α) := do
  if Path.ofString p.toString = p then attempt (action p.toString)
  else return .error (.other "the path is no text")

/-- What a path leads to is there, and of a type. -/
def isOfType (p : Path) (type : IO.FS.FileType) : IO Bool := do
  match ← attemptAt p fun name => do (← IO.FS.realPath name).metadata with
  | .ok facts => return facts.type == type
  | .error _ => return false

/-- The files of the machine. -/
def machineFiles : Files IO where
  currentDirectory := return .ofString (← IO.currentDir).toString
  canonical? p := do
    match ← attemptAt p fun name => IO.FS.realPath name with
    | .ok found => return some (.ofString found.toString)
    | .error _ => return none
  isFile p := isOfType p .file
  isDirectory p := isOfType p .dir
  readText p := do
    match ← attemptAt p fun name => IO.FS.readBinFile name with
    | .ok bytes => return (String.fromUTF8? bytes).elim (.error .notText) .ok
    | .error e => return .error e
  createDirectory p := attemptAt p fun name => IO.FS.createDir name
  writeText p text := attemptAt p fun name => IO.FS.writeFile name text

/-- Print a line where it belongs. -/
def Line.print : Line → IO Unit
  | .output text => IO.println text
  | .message text => IO.eprintln text
  | .log e => IO.eprintln e.render

end FlatSchema

/-- Run with the arguments of the command line, print the report and exit with its code. -/
def main (arguments : List String) : IO UInt32 := do
  let report ← FlatSchema.Run.withArguments FlatSchema.machineFiles
    (arguments.map FlatSchema.bytesOf)
  report.lines.forM FlatSchema.Line.print
  return report.exitCode.toUInt32
