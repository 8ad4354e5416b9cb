import FlatSchema.Text.Terminal

/-!
What the compiler tells about its work while it works. An event has a level, a message and named
values, and is written on one line.

        DEBUG analyzing field field=hp type_text=short
-/

namespace FlatSchema

/-- How much detail an event is. -/
inductive Level where
  | info
  | debug
  | trace
deriving DecidableEq, Inhabited

def Level.label : Level → String
  | .info => "INFO"
  | .debug => "DEBUG"
  | .trace => "TRACE"

/-- The level as a number: the more detail, the higher. -/
def Level.detail : Level → Nat
  | .info => 1
  | .debug => 2
  | .trace => 3

/-- Something that happened. The values are shown in their order. -/
structure Event where
  level : Level
  message : String
  values : List (String × String)
deriving DecidableEq, Inhabited

/-- An event on one line. Commands to a terminal are spelled out in the message, not in the
    values. -/
def Event.render (e : Event) : String :=
  let values := e.values.map fun (name, value) => s!"{name}={value}"
  " ".intercalate (e.level.label :: Terminal.spell e.message :: values)

end FlatSchema
