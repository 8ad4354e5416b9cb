import FlatSchema.Files

/-!
A file tree as a value: what there is at each location, what each file holds, and the directory that
relative paths start from. A location is the row of names from the root, and the root is always a
directory. Files are told apart by numbers, since one file can be at several locations.

A path is walked component by component. Every component but the last must be a directory, two
points lead to the directory above, and only the last may be missing. A link on the way is followed:
the components of its path come before those that are left.

        a       a directory         a/l     a link to ../b
        b       a directory         b/x     a file
                the path a/l/./x leads to b/x
-/

namespace FlatSchema

/-- What a file holds. What is not UTF-8 is no text. -/
inductive Content where
  | text (content : String)
  | binary (content : Bytes)
deriving DecidableEq, Inhabited

/-- What can be at a location. -/
inductive Entry where
  | directory
  | file (number : Nat)
  | link (target : Path)
deriving DecidableEq, Inhabited

/-- The names from the root down to something. -/
abbrev Location := List Bytes

/-- Where a path starts from. -/
def Path.start (p : Path) (current : Location) : Location := if p.isAbsolute then [] else current

/-- A file tree. -/
structure FileTree where
  entries : List (Location × Entry) := []
  contents : Nat → Content := fun _ => default
  current : Location := []
deriving Inhabited

/-- Where a path leads. -/
inductive Place where
  | found (location : Location) (entry : Entry)
  | missing (location : Location)
deriving DecidableEq, Inhabited

namespace FileTree

/-- What is at a location. -/
def at? (t : FileTree) (location : Location) : Option Entry :=
  if location.isEmpty then some .directory else t.entries.lookup location

/-- The tree with something put at a location. -/
def put (t : FileTree) (location : Location) (entry : Entry) : FileTree :=
  { t with entries := (location, entry) :: t.entries.filter (·.1 != location) }

/-- The tree with a directory at a location and at every location on the way to it. -/
def putDirectories (t : FileTree) (location : Location) : FileTree :=
  (List.range (location.length + 1)).foldl (fun t n =>
    if (t.at? (location.take n)).isSome then t else t.put (location.take n) .directory) t

/-- A number that no file has. -/
def fresh (t : FileTree) : Nat :=
  t.entries.foldr (fun x n =>
    match x.2 with
    | .file k => max (k + 1) n
    | _ => n) 0

/-- The tree in which a file holds something else. -/
def fill (t : FileTree) (number : Nat) (content : Content) : FileTree :=
  { t with contents := fun n => if n = number then content else t.contents n }

/-- The tree with a new file at a location. -/
def putFile (t : FileTree) (location : Location) (content : Content) : FileTree :=
  (t.put location (.file t.fresh)).fill t.fresh content

/-- The longest name a file can have, in bytes. -/
def nameLimit : Nat := 255

/-- The longest path that can be asked for as a whole, in bytes. -/
def pathLimit : Nat := 4095

/-- How many links can be followed on the way of a path. -/
def linkLimit : Nat := 40

/-! ### Walking -/

/-- Walk on from a place, up to a link or to the end. The names that are left come with the
    place. -/
def walk (t : FileTree) : Place → List Bytes → Except FileError (Place × List Bytes)
  | place, [] => .ok (place, [])
  | .found location .directory, name :: rest =>
    if name = [] || name = [Path.point] then t.walk (.found location .directory) rest
    else if name = [Path.point, Path.point] then t.walk (.found location.dropLast .directory) rest
    else if name.length > nameLimit then .error .nameTooLong
    else
      match t.at? (location ++ [name]) with
      | some entry => t.walk (.found (location ++ [name]) entry) rest
      | none => t.walk (.missing (location ++ [name])) rest
  | .found location (.link target), names => .ok (.found location (.link target), names)
  | .found _ (.file _), _ :: _ => .error .notDirectory
  | .missing _, _ :: _ => .error .missing

/-- Bytes cut at their slashes. -/
def cut : Bytes → List Bytes
  | [] => [[]]
  | b :: rest =>
    if b = Path.slash then [] :: cut rest
    else
      match cut rest with
      | [] => [[b]]
      | name :: more => (b :: name) :: more

/-- Walk on from a place, through so many links at most. A link with nothing behind it is followed
    if `last` says so. -/
def travel (t : FileTree) (last : Bool) :
    Nat → Place → List Bytes → Except FileError Place
  | links, place, names =>
    match t.walk place names with
    | .error e => .error e
    | .ok (.found location (.link target), rest) =>
      if rest.isEmpty && !last then .ok (.found location (.link target))
      else
        match links with
        | 0 => .error .tooManyLinks
        | links + 1 =>
          t.travel last links (.found (target.start location.dropLast) .directory)
            (cut target.bytes ++ rest)
    | .ok (place, _) => .ok place

/-- Where a path of any length leads. -/
def resolve (t : FileTree) (last : Bool) (p : Path) : Except FileError Place :=
  if p.bytes.contains 0 then .error .badName
  else if p.isEmpty then .error .missing
  else t.travel last linkLimit (.found (p.start t.current) .directory) (cut p.bytes)

/-- Where a path leads, if it is not too long to be asked for. -/
def locate (t : FileTree) (last : Bool) (p : Path) : Except FileError Place :=
  if p.bytes.length > pathLimit ∧ ¬ p.bytes.contains 0 then .error .nameTooLong
  else t.resolve last p

/-! ### Asking and changing -/

/-- The absolute path of a location. -/
def absolute (location : Location) : Path :=
  ⟨Path.slash :: List.intercalate [Path.slash] location⟩

/-- The absolute path of something that exists. It is found name by name, so a path that is too long
    to be asked for, because of its detours, has one too. -/
def canonical? (t : FileTree) (p : Path) : Option Path :=
  match t.resolve true p with
  | .ok (.found location _) => some (absolute location)
  | _ => none

/-- The number of the file that a path leads to. -/
def fileOf (t : FileTree) (p : Path) : Except FileError Nat :=
  match t.locate true p with
  | .error e => .error e
  | .ok (.found _ (.file n)) => .ok n
  | .ok (.found _ _) => .error .isDirectory
  | .ok (.missing _) => .error .missing

def isFile (t : FileTree) (p : Path) : Bool :=
  match t.fileOf p with
  | .ok _ => true
  | .error _ => false

def isDirectory (t : FileTree) (p : Path) : Bool :=
  match t.locate true p with
  | .ok (.found _ .directory) => true
  | _ => false

def readText (t : FileTree) (p : Path) : Except FileError String :=
  match t.fileOf p with
  | .error e => .error e
  | .ok n =>
    match t.contents n with
    | .text content => .ok content
    | .binary _ => .error .notText

/-- Fill the file that a path leads to, or make it where it is missing. -/
def writeText (t : FileTree) (p : Path) (content : String) : Except FileError FileTree :=
  match t.locate true p with
  | .error e => .error e
  | .ok (.found _ (.file n)) => .ok (t.fill n (.text content))
  | .ok (.found _ _) => .error .isDirectory
  | .ok (.missing location) => .ok (t.putFile location (.text content))

/-- Make one directory. Nothing may be there, not even a link that leads nowhere. -/
def createDirectory (t : FileTree) (p : Path) : Except FileError FileTree :=
  match t.locate false p with
  | .error e => .error e
  | .ok (.found _ _) => .error .exists
  | .ok (.missing location) => .ok (t.put location .directory)

/-- Go on with the new tree, or with the old one after an error. -/
def change (result : FileTree → Except FileError FileTree) :
    StateM FileTree (Except FileError Unit) :=
  modifyGet fun t =>
    match result t with
    | .ok new => (.ok (), new)
    | .error e => (.error e, t)

/-- A file tree as a file system. -/
def files : Files (StateM FileTree) where
  currentDirectory := do return absolute (← get).current
  canonical? p := do return (← get).canonical? p
  isFile p := do return (← get).isFile p
  isDirectory p := do return (← get).isDirectory p
  readText p := do return (← get).readText p
  createDirectory p := change fun t => t.createDirectory p
  writeText p content := change fun t => t.writeText p content

end FileTree

end FlatSchema
