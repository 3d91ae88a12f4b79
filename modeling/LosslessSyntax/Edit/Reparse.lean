import LosslessSyntax.Edit.Relex
import LosslessSyntax.Tree.Parse
/-!
Incremental parsing: the tree of a changed source from that of the source before. The tokens and
items that the change cannot have touched are taken over, and the result is the same as that of
parsing the whole source.
-/
namespace LosslessSyntax

namespace SyntaxTree

/-- The range that edits have changed, if they are a true account of how a source came from that
of the tree. -/
def changeBy? (previous : SyntaxTree) (source : String) (edits : List Edit) :
    Option ChangedRange :=
  (ChangedRange.ofEdits? (Text.byteLength previous.source.toList) edits).filter fun range =>
    range.agrees previous.source source

/-- The tree of a source that differs from that of an old tree in a range only, and what was taken
over. -/
def reparseRange (previous : SyntaxTree) (source : String) (range : ChangedRange) :
    Except Diagnostic (SyntaxTree × Option Reuse) :=
  ofTokens source (relex source previous.tokens range) previous.dialect
    (some (Reuse.start previous range))

/-- The tree of a source that came about by edits. Where the edits do not account for the source,
all of it is read again. -/
def reparse (previous : SyntaxTree) (source : String) (edits : List Edit) :
    Except Diagnostic SyntaxTree := do
  Diagnostic.checkLength (Text.byteLength source.toList)
  match previous.changeBy? source edits with
  | none => parse source previous.dialect
  | some range =>
    let (tree, _) ← previous.reparseRange source range
    return tree

end SyntaxTree

end LosslessSyntax
