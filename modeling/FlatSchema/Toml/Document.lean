import FlatSchema.Toml.Moment
import FlatSchema.Toml.Number
import FlatSchema.Toml.Value

/-!
Whole TOML documents: values, lines, and the table they make. A document that breaks a rule anywhere
has no table at all.
-/

namespace FlatSchema.Toml

/-- Arrays and tables in braces may be nested this deep. -/
def nestingLimit : Nat := 79

/-- A key may have this many names. -/
def keyLimit : Nat := 79

/-- The path of a row of names. -/
def pathOf? (names : List String) : Option KeyPath :=
  names.getLast?.map fun name => ⟨names.dropLast, name⟩

/-- A key, with dots or without. -/
def key : Scan KeyPath := do
  let names ← keyNames
  match pathOf? names with
  | some path => if names.length ≤ keyLimit then return path else Scan.fail
  | none => Scan.fail

/-- A value that holds no other values. -/
def scalar : Scan Value :=
  Value.string <$> string
  <|> Value.moment <$> Scan.spelling moment
  <|> Value.float <$> Scan.spelling float
  <|> Value.integer <$> integer
  <|> (do Scan.text "true"; return .boolean true)
  <|> (do Scan.text "false"; return .boolean false)

/-- A key and its value. -/
def pair (value : Scan Value) : Scan (KeyPath × Value) := do
  let path ← key
  Scan.char '='
  space
  let v ← value
  return (path, v)

/-- An array; a comma may stand behind its last item. -/
def array (value : Scan Value) : Scan Value := do
  Scan.char '['
  let items ← Scan.row (do gap; let v ← value; gap; return v) ','
  if !items.isEmpty then
    let _ ← Scan.optional (Scan.char ',')
  gap
  Scan.char ']'
  return .array items

/-- A table in braces, all on one line. -/
def bracedTable (value : Scan Value) : Scan Value := do
  Scan.char '\x7b'
  let pairs ← Scan.row (do let p ← pair value; space; return p) ','
  space
  Scan.char '\x7d'
  match Members.ofPairs pairs with
  | some members => return .table .braces members
  | none => Scan.fail

/-- A value that may be nested `depth` deep. -/
def value : Nat → Scan Value
  | 0 => scalar
  | depth + 1 => array (value depth) <|> bracedTable (value depth) <|> scalar

/-- What a line says; nothing if it is empty or a comment. -/
def line : Scan (Option Statement) := do
  space
  (do lineEnd; return none)
  <|> (do comment; lineEnd; return none)
  <|> (do Scan.text "[["; let path ← key; Scan.text "]]"; trailing; return some (.nextTable path))
  <|> (do Scan.char '['; let path ← key; Scan.char ']'; trailing; return some (.header path))
  <|> (do let (path, v) ← pair (value nestingLimit); trailing; return some (.entry path v))

/-- What the lines of a text say. Every line of a text that has something left takes some of it. -/
def statements (s : List Char) : Option (List Statement) :=
  if s.isEmpty then some []
  else
    match line.run s with
    | none => none
    | some (statement, rest) =>
      if _h : rest.length < s.length then
        (statements rest).map fun more => statement.toList ++ more
      else none
termination_by s.length

/-- The table that a text makes. A byte order mark at its start does not count. -/
def parse (text : String) : Option Members :=
  let s := match text.toList with
    | '\ufeff' :: rest => rest
    | s => s
  (statements s).bind Document.ofStatements

end FlatSchema.Toml
