import FlatSchema.Declaration
import FlatSchema.Diagnostic
import FlatSchema.Text.Numeral

/-!
The attributes of a declaration as a map. Keys are compared exactly and keep the place where they
first came; a key that comes again replaces the value, and a warning points back to the value it
replaces.

        (id: 1, key, id: 2)   ↦   id: 2, key      warning: duplicate attribute `id`

A rule says how one attribute is read: what it means to leave it out, what the bare key means, and
which texts it accepts.
-/

namespace FlatSchema

/-- One attribute: its value, none for a bare key, and where it is written. -/
structure Attribute where
  value : Option String
  span : Span
deriving DecidableEq, Inhabited

/-- The value of an attribute, where an empty one counts as none. -/
def Attribute.text? (a : Attribute) : Option String := a.value.filter (!·.isEmpty)

/-- Attributes by key, in the order in which the keys first came. -/
structure AttributeMap where
  entries : List (String × Attribute) := []
deriving DecidableEq, Inhabited

namespace AttributeMap

def get? (m : AttributeMap) (key : String) : Option Attribute := m.entries.lookup key

def contains (m : AttributeMap) (key : String) : Bool := (m.get? key).isSome

def spanOf? (m : AttributeMap) (key : String) : Option Span := (m.get? key).map Attribute.span

def keys (m : AttributeMap) : List String := m.entries.map Prod.fst

def size (m : AttributeMap) : Nat := m.entries.length

def isEmpty (m : AttributeMap) : Bool := m.entries.isEmpty

/-- Entries with one value set: in the place of the key, or at the end if the key is new. -/
def set (key : String) (a : Attribute) : List (String × Attribute) → List (String × Attribute)
  | [] => [(key, a)]
  | e :: rest => if e.1 = key then (key, a) :: rest else e :: set key a rest

def insert (m : AttributeMap) (key : String) (a : Attribute) : AttributeMap :=
  ⟨set key a m.entries⟩

/-- The warning about an attribute that replaces a previous one. -/
def duplicateWarning (e : MetadataEntry) (previous : Attribute) : Diagnostic :=
  (Diagnostic.warningAt s!"duplicate attribute `{e.key}`" e.span).relatedTo previous.span
    "previously set here"

/-- The map after one more entry. -/
def add (m : AttributeMap) (e : MetadataEntry) : AttributeMap :=
  m.insert e.key ⟨e.value.map Spelling.text, e.span⟩

/-- The map of some entries. -/
def ofEntries (entries : List MetadataEntry) : AttributeMap := entries.foldl add {}

/-- The warnings about keys that come again, when `m` is what came before. -/
def duplicatesFrom (m : AttributeMap) : List MetadataEntry → List Diagnostic
  | [] => []
  | e :: rest => ((m.get? e.key).map (duplicateWarning e)).toList ++ (m.add e).duplicatesFrom rest

/-- The warnings about keys that come again. -/
def duplicates (entries : List MetadataEntry) : List Diagnostic := duplicatesFrom {} entries

end AttributeMap

/-! ### Numbers -/

/-- What comes of reading an attribute as a number. -/
inductive NumberAttribute where
  | absent
  /-- A bare key, or a text that is no 32-bit numeral. -/
  | invalid
  | value (n : Int)
deriving DecidableEq, Inhabited

/-- Read an attribute as a number. -/
def AttributeMap.number (m : AttributeMap) (key : String) : NumberAttribute :=
  match m.get? key with
  | none => .absent
  | some a =>
    match a.text?.bind fun text => int32? (trim text.toList) with
    | some n => .value n
    | none => .invalid

/-! ### Rules -/

/-- How an attribute is read: its key, what leaving it out means, what the bare key means, the texts
    it accepts, and how those are described. -/
structure AttributeRule (α : Type) where
  key : String
  absent : α
  present : α
  expected : String
  accept : String → Option α

namespace AttributeRule

variable {α : Type}

/-- What a map says by a rule. A text that is not accepted counts as leaving the attribute out. -/
def value (rule : AttributeRule α) (m : AttributeMap) : α :=
  match m.get? rule.key with
  | none => rule.absent
  | some a =>
    match a.text? with
    | none => rule.present
    | some text => (rule.accept text).getD rule.absent

/-- The error about a text that a rule does not accept. -/
def reports (rule : AttributeRule α) (m : AttributeMap) : List Diagnostic :=
  match m.get? rule.key with
  | none => []
  | some a =>
    match a.text? with
    | none => []
    | some text =>
      if (rule.accept text).isSome then []
      else [.errorAt
        s!"invalid value `{text}` for attribute `{rule.key}`; expected {rule.expected}" a.span]

/-- A flag: off if left out, on if bare, or as its text says. -/
def flag (key : String) : AttributeRule Bool where
  key
  absent := false
  present := true
  expected := "`true` or `false`"
  accept := truth?

/-- A flag that tells being left out from being off. -/
def optionalFlag (key : String) : AttributeRule (Option Bool) where
  key
  absent := none
  present := some true
  expected := "`true` or `false`"
  accept text := (truth? text).map some

end AttributeRule

end FlatSchema
