/-!
The help texts. Both list the same options; the short one puts each on a line, the long one gives
each a paragraph.
-/

namespace FlatSchema.Help

/-- An option: how it is written, and what it does. A tail is what only the list knows to say. -/
structure Item where
  usage : String
  about : String

/-- The inputs. -/
def inputs : Item :=
  ⟨"[INPUTS]...", "Input .fbs schema files (default: [project] schemas from Fbsc.toml)"⟩

/-- The options, where `more` says how to get the other list. -/
def options (more : String) : List Item := [
  ⟨"-o, --output <OUTPUT>", "Output directory (default: next to each schema)"⟩,
  ⟨"    --check", "Check for errors without writing output"⟩,
  ⟨"    --emit-json", "Print the field definitions JSON to stdout instead of writing files"⟩,
  ⟨"    --emit-tokens", "Emit token stream to stdout (debug)"⟩,
  ⟨"    --emit-ast", "Emit AST to stdout (debug)"⟩,
  ⟨"-q, --quiet", "Suppress warning output"⟩,
  ⟨"    --deny-warnings", "Treat warnings as errors"⟩,
  ⟨"-v, --verbose...", "Increase log verbosity (-v debug, -vv trace)"⟩,
  ⟨"-h, --help", s!"Print help ({more})"⟩,
  ⟨"-V, --version", "Print version"⟩]

/-- How the program is called. -/
def usage : String := "Usage: fbsc [OPTIONS] [INPUTS]..."

/-- The name of the program and its version. -/
def version : String := "fbsc 0.1.0"

/-- An item on one line, with its text in a column. -/
def Item.onOneLine (width : Nat) (i : Item) : String :=
  "  " ++ i.usage ++ "".pushn ' ' (width - i.usage.length) ++ "  " ++ i.about

/-- An item as a paragraph. -/
def Item.asParagraph (i : Item) : String :=
  "  " ++ i.usage ++ "\n          " ++ i.about

/-- The short help. -/
def summary : String :=
  "\n".intercalate (
    ["FlatBuffers schema front end CLI", "", usage, "", "Arguments:", inputs.onOneLine 0, "",
      "Options:"]
    ++ (options "see more with '--help'").map (Item.onOneLine 21))

/-- What the program does. -/
def about : String :=
  "\n".intercalate [
    "FlatBuffers schema front end.",
    "",
    "Parses .fbs schemas, validates field declarations and their attributes,",
    "and writes the resolved definitions to <name>.fields.json.",
    "",
    "Examples:",
    "  fbsc monster.fbs                 Write monster.fields.json",
    "  fbsc monster.fbs -o generated    Write into generated/",
    "  fbsc monster.fbs --check         Check for errors only",
    "  fbsc                             Compile the schemas listed in Fbsc.toml"]

/-- The long help. -/
def full : String :=
  let items := (options "see a summary with '-h'").map Item.asParagraph
  "\n\n".intercalate
    [about, usage, "Arguments:\n" ++ inputs.asParagraph,
      "Options:\n" ++ "\n\n".intercalate items]

end FlatSchema.Help
