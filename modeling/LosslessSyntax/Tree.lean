import LosslessSyntax.Dialect
import LosslessSyntax.Node.Json
import LosslessSyntax.Token.Stream
/-!
Syntax trees: a source with its tokens, its root node and the extents of its items. For malformed
sources too there is a tree, and the errors are in it.
-/
namespace LosslessSyntax

/-- The tokens of one item. The item depends on no token beyond `lookahead`. -/
structure ItemExtent where
  firstToken : Nat
  endToken : Nat
  lookahead : Nat
deriving DecidableEq, Repr

structure SyntaxTree where
  source : String
  root : Node
  stream : TokenStream
  items : List ItemExtent
  dialect : Dialect
deriving DecidableEq, Repr

def dropRepeats [DecidableEq α] : List α → List α
  | [] => []
  | [a] => [a]
  | a :: b :: rest => if a = b then dropRepeats (b :: rest) else a :: dropRepeats (b :: rest)

namespace SyntaxTree

def tokens (tree : SyntaxTree) : List Token := tree.stream.toList

/-- The diagnostics of the tree. An error leaf repeats that of the error node around it, and the
repetition is left out. -/
def errors (tree : SyntaxTree) : List Diagnostic := dropRepeats tree.root.diagnostics

def hasErrors (tree : SyntaxTree) : Bool := tree.root.hasError

def render (tree : SyntaxTree) : String :=
  let text := tree.source.toList
  " ".intercalate ((tree.root.leaves.filter fun leaf => !leaf.span.isEmpty).map fun leaf =>
    String.ofList (leaf.span.select text))

def sexp (tree : SyntaxTree) : String := tree.root.sexp

def json (tree : SyntaxTree) : String := tree.root.toJson.pretty 0

end SyntaxTree

end LosslessSyntax
