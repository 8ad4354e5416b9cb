import FlatSchema.Diagnostic.Bag
import FlatSchema.Source.Cursor
import FlatSchema.Token.Piece

/-!
The tokens of a schema text. Walking along the pieces of the text, a cursor gives every token piece
its span and every flaw a diagnostic; the walk ends with an end-of-file token that has no text.
-/

namespace FlatSchema

/-- The tokens of a text and what was wrong with it, both in source order. -/
structure Lexed where
  tokens : List Token
  diagnostics : List Diagnostic

namespace Lexed

/-- The token a piece is, if it is one, at a cursor. -/
def tokenAt (c : Cursor) (p : Piece) : Option Token :=
  match p.role with
  | .token kind lexeme => some ⟨kind, lexeme, c.spanSince (c.skip p.text.length)⟩
  | _ => none

/-- The diagnostics of a piece at a cursor. A flaw's span runs from the start of the piece up to
    where the flaw shows. -/
def flawsAt (c : Cursor) (p : Piece) : List Diagnostic :=
  p.flaws.map fun (flaw, reach) => .errorAt flaw.message (c.spanSince (c.skip reach))

/-- Lay pieces along a text from a cursor on. -/
def ofPieces (c : Cursor) : List Piece → Lexed
  | [] => ⟨[.eof (c.spanSince c)], []⟩
  | p :: rest =>
    let tail := ofPieces (c.skip p.text.length) rest
    ⟨(tokenAt c p).toList ++ tail.tokens, flawsAt c p ++ tail.diagnostics⟩

/-- The tokens of a source text; the file name goes into the spans. -/
def ofSource (source file : String) : Lexed :=
  ofPieces (.ofSource source file) (Piece.split source.toList)

end Lexed

end FlatSchema
