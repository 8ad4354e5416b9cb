import FlatSchema.Definition.Analysis
import FlatSchema.Definition.Handoff

/-!
Compiling one source text: read it, and if it reads without errors resolve it and write its
definitions. The text of the definitions is there even if resolving found errors; whoever compiles
decides what to do with it.
-/

namespace FlatSchema

/-- What comes of compiling: everything reported, and the definition unless reading failed. -/
structure Compilation where
  bag : Bag
  definition : Option SchemaDefinition

namespace Compilation

/-- Compile a parsed schema. -/
def ofParsed (parsed : Parsed) : Compilation :=
  let bag := Bag.reportAll {} parsed.diagnostics
  if bag.hasErrors then ⟨bag, none⟩
  else
    let analysis := Analysis.ofSchema parsed.schema
    ⟨bag.absorb analysis.bag, some analysis.definition⟩

/-- Compile a source text. -/
def ofSource (source file : String) : Compilation := ofParsed (.ofSource source file)

end Compilation

end FlatSchema
