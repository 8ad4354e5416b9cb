/-!
TOML values, and tables that grow. A table remembers how it came about, because that decides who may
still add to it:

        written in braces          nobody
        by a header of its own     headers below it, the lines under its header
        on the way of a header     these, and dotted keys; one header may still claim it
        on the way of a dotted key headers below it, and dotted keys

A key is set once. A header that claims a table a second time, or a path that leads through a value
which is no table, makes the whole document invalid.
-/

namespace FlatSchema.Toml

/-- How a table came about. -/
inductive Origin where
  | braces
  | header
  | headerPath
  | dottedKey
deriving DecidableEq, Inhabited

/-- A value. Floats and times keep their spelling. An array of tables has at least one table, and
    lines go to the last. -/
inductive Value where
  | string (s : String)
  | integer (n : Int)
  | float (spelling : String)
  | boolean (b : Bool)
  | moment (spelling : String)
  | array (items : List Value)
  | table (origin : Origin) (members : List (String × Value))
  | tables (earlier : List (List (String × Value))) (last : List (String × Value))

/-- The members of a table, in the order in which they came. -/
abbrev Members := List (String × Value)

/-- A key of dots: the names on the way, and the last one. -/
structure KeyPath where
  parents : List String
  name : String

namespace Members

/-- Replace the value of a key that is there. -/
def replace (key : String) (v : Value) (ms : Members) : Members :=
  ms.map fun m => if m.1 == key then (key, v) else m

/-- Follow a path down from a table and change the table at its end. Tables that are missing on the
    way are made; an array of tables leads into its last table. A dotted key may not pass through a
    table with a header of its own. -/
def edit (dotted : Bool) (change : Origin → Members → Option Members) :
    List String → Origin → Members → Option Members
  | [], origin, ms => change origin ms
  | key :: path, _, ms =>
    match ms.lookup key with
    | none =>
      let origin := if dotted then Origin.dottedKey else .headerPath
      (edit dotted change path origin []).map fun sub => ms ++ [(key, .table origin sub)]
    | some (.table origin sub) =>
      if origin = .braces || (dotted && origin = .header) then none
      else (edit dotted change path origin sub).map fun sub => replace key (.table origin sub) ms
    | some (.tables earlier last) =>
      (edit dotted change path .header last).map fun last => replace key (.tables earlier last) ms
    | some _ => none

/-- Set a key of a table. Where the key has dots, the table that gets the value must have come about
    by a dotted key. -/
def set (path : KeyPath) (v : Value) (ms : Members) : Option Members :=
  edit true
    (fun origin ms =>
      if !path.parents.isEmpty && origin != .dottedKey then none
      else if (ms.lookup path.name).isSome then none
      else some (ms ++ [(path.name, v)]))
    path.parents .header ms

/-- The table of some keys and values in braces. -/
def ofPairs (pairs : List (KeyPath × Value)) : Option Members :=
  pairs.foldlM (fun ms pair => set pair.1 pair.2 ms) []

/-- Claim a table for a header. -/
def open? (path : KeyPath) (ms : Members) : Option Members :=
  edit false
    (fun _ ms =>
      match ms.lookup path.name with
      | none => some (ms ++ [(path.name, .table .header [])])
      | some (.table .headerPath sub) => some (replace path.name (.table .header sub) ms)
      | some _ => none)
    path.parents .header ms

/-- Add a table to an array of tables. -/
def openNext? (path : KeyPath) (ms : Members) : Option Members :=
  edit false
    (fun _ ms =>
      match ms.lookup path.name with
      | none => some (ms ++ [(path.name, .tables [] [])])
      | some (.tables earlier last) =>
        some (replace path.name (.tables (earlier ++ [last]) []) ms)
      | some _ => none)
    path.parents .header ms

end Members

/-! ### Statements -/

/-- What a line of a document says. -/
inductive Statement where
  | header (path : KeyPath)
  | nextTable (path : KeyPath)
  | entry (key : KeyPath) (value : Value)

/-- A document as far as it is read: the whole, and the path of the table that lines go to. -/
structure Document where
  root : Members := []
  current : List String := []

namespace Document

/-- The document after one more statement, if that is allowed. -/
def add (d : Document) : Statement → Option Document
  | .header path => (Members.open? path d.root).map fun root => ⟨root, path.parents ++ [path.name]⟩
  | .nextTable path =>
    (Members.openNext? path d.root).map fun root => ⟨root, path.parents ++ [path.name]⟩
  | .entry key value =>
    (Members.edit false (fun _ ms => Members.set key value ms) d.current .header d.root).map
      fun root => { d with root }

/-- The members of the document that some statements make. -/
def ofStatements (statements : List Statement) : Option Members :=
  (statements.foldlM add {}).map Document.root

end Document

end FlatSchema.Toml
