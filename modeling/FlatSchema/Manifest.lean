import FlatSchema.Files
import FlatSchema.Text.Blank
import FlatSchema.Toml.Document

/-!
The manifest of a project, `Fbsc.toml`, says which schemas there are and how to compile them.

        [project]                          [output]                [diagnostics]
        name = "monsters"                  directory = "gen"       deny_warnings = true
        schemas = ["schema/monster.fbs"]   pretty = false

Only the project and its name must be there. Unknown keys do not matter. Paths are below the
directory of the manifest, which is the nearest one above the place where the search starts.
-/

namespace FlatSchema

/-- The settings of a project. -/
structure Manifest where
  name : String
  schemas : List Path
  directory : Option Path
  pretty : Bool
  denyWarnings : Bool
  /-- The directory that holds the manifest. -/
  root : Path
deriving DecidableEq, Inhabited

/-- Why there is no manifest. -/
inductive ManifestError where
  | notFound (start : Path)
  | unreadable (e : FileError)
  /-- No TOML, or not the values that belong there. -/
  | malformed
  | emptyName
  | notASchema (p : Path)
deriving DecidableEq, Inhabited

def ManifestError.message : ManifestError → String
  | .notFound start => s!"no Fbsc.toml found (searched from {start.toString})"
  | .unreadable e => s!"failed to read Fbsc.toml: {e.message}"
  | .malformed => "invalid Fbsc.toml: TOML parse error"
  | .emptyName => "invalid Fbsc.toml: [project] name must not be empty"
  | .notASchema p => s!"invalid Fbsc.toml: schema '{p.toString}' must be an .fbs file"

/-! ### Sections -/

/-- A part of the manifest: values by name, or in the order in which the part defines its keys. -/
inductive Section where
  | named (members : Toml.Members)
  | listed (values : List Toml.Value)

namespace Section

/-- A value as a section. A date or time counts as a section in which nothing is set. -/
def ofValue? : Toml.Value → Option Section
  | .table _ members => some (.named members)
  | .array values => some (.listed values)
  | .tables earlier last =>
    some (.listed ((earlier ++ [last]).map fun members => .table .header members))
  | .moment _ => some (.named [])
  | _ => none

/-- The value of a key, which is the section's key number `n`. -/
def get? (s : Section) (n : Nat) (key : String) : Option Toml.Value :=
  match s with
  | .named members => members.lookup key
  | .listed values => values[n]?

/-- A value by a decoder; one that is not there has a default, one that does not fit has none. -/
def read {α : Type} (s : Section) (n : Nat) (key : String) (decode : Toml.Value → Option α)
    (absent : Option α) : Option α :=
  match s.get? n key with
  | some v => decode v
  | none => absent

end Section

/-- A string. -/
def stringOf? : Toml.Value → Option String
  | .string s => some s
  | _ => none

/-- A truth value. -/
def boolOf? : Toml.Value → Option Bool
  | .boolean b => some b
  | _ => none

/-- A path, which is written as a string. -/
def pathOf? (v : Toml.Value) : Option Path := (stringOf? v).map Path.ofString

/-- A list of paths. -/
def pathsOf? : Toml.Value → Option (List Path)
  | .array items => items.mapM pathOf?
  | _ => none

namespace Manifest

/-- A manifest as its text says it, checked for nothing but the types of its values. -/
def ofMembers? (root : Path) (members : Toml.Members) : Option Manifest := do
  let top : Section := .named members
  let project ← (top.get? 0 "project").bind Section.ofValue?
  let output ← top.read 1 "output" Section.ofValue? (some (.named []))
  let diagnostics ← top.read 2 "diagnostics" Section.ofValue? (some (.named []))
  return {
    name := ← project.read 0 "name" stringOf? none
    schemas := ← project.read 1 "schemas" pathsOf? (some [])
    directory := ← output.read 0 "directory" (fun v => (pathOf? v).map some) (some none)
    pretty := ← output.read 1 "pretty" boolOf? (some true)
    denyWarnings := ← diagnostics.read 0 "deny_warnings" boolOf? (some false)
    root }

/-- A path names a schema if its extension is `fbs`. -/
def isSchema (p : Path) : Bool := p.extension? == some (bytesOf "fbs")

/-- A manifest has a name, and every schema of it is one. The first fault counts. -/
def validate (m : Manifest) : Except ManifestError Manifest :=
  if (trim m.name.toList).isEmpty then .error .emptyName
  else
    match m.schemas.find? (!isSchema ·) with
    | some p => .error (.notASchema p)
    | none => .ok m

/-- The manifest that a text says, for a directory. -/
def ofText (text : String) (root : Path) : Except ManifestError Manifest :=
  match (Toml.parse text).bind (ofMembers? root) with
  | some m => m.validate
  | none => .error .malformed

/-- The schemas below the directory of the manifest. -/
def schemaPaths (m : Manifest) : List Path := m.schemas.map m.root.join

/-- The directory for what is written, below the directory of the manifest. -/
def outputDirectory (m : Manifest) : Option Path := m.directory.map m.root.join

/-! ### Finding -/

variable {m : Type → Type} [Monad m]

/-- The name of a manifest's file. -/
def fileName : String := "Fbsc.toml"

/-- The nearest manifest in a directory or above it. -/
def find? (fs : Files m) (start : Path) : m (Option Path) := do
  if ← fs.isFile (start.child fileName) then return some (start.child fileName)
  else
    match h : start.parent? with
    | none => return none
    | some above =>
      have := Path.length_parent_lt h
      find? fs above
termination_by start.bytes.length

/-- Read the manifest at a path. -/
def load (fs : Files m) (p : Path) : m (Except ManifestError Manifest) := do
  match ← fs.readText p with
  | .error e => return .error (.unreadable e)
  | .ok text => return ofText text (p.parent?.getD (.ofString "."))

/-- Read the nearest manifest. -/
def findAndLoad (fs : Files m) (start : Path) : m (Except ManifestError Manifest) := do
  match ← find? fs start with
  | none => return .error (.notFound start)
  | some p => load fs p

end Manifest

end FlatSchema
