import LosslessSyntax.Edit.Reuse
import LosslessSyntax.Parse.Run
import LosslessSyntax.Token.Lexer
/-!
From a source to its tree. Items are read one after the other up to the end of file, and one that
fails becomes an error node that reaches up to the next item.
-/
namespace LosslessSyntax

def Rule.itemOrError : Rule := .recover .item (.call .item)

def Setting.top (stream : TokenStream) (dialect : Dialect) : Setting :=
  ⟨stream, dialect, .statement, ""⟩

structure ItemList where
  items : List (Node × ItemExtent)
  reuse : Option Reuse

namespace ItemList

def push (item : Node × ItemExtent) (list : ItemList) : ItemList :=
  { list with items := item :: list.items }

end ItemList

def Setting.parseItem (setting : Setting) (cursor : Cursor) : Outcome (Node × ItemExtent) :=
  match Rule.itemOrError.parse setting cursor.resetFurthest with
  | .done node after =>
    .done (node, ⟨cursor.position, after.position, max after.furthest after.position⟩) after
  | .failed diagnostic after => .failed diagnostic after

/-- Reads items up to the end of file, each taken over from an old tree where that can be. -/
def Setting.parseItems (setting : Setting) : Nat → Option Reuse → Cursor → Outcome ItemList
  | 0, _, cursor => .failed (.internal "an item takes no token") cursor
  | fuel + 1, reuse, cursor =>
    let here := cursor.examineHere setting.stream
    if setting.stream.kind here.position = .eof then .done ⟨[], reuse⟩ here
    else
      match Reuse.offer reuse setting.stream here.position with
      | (some item, reuse) =>
        match setting.parseItems fuel reuse (here.seek setting.stream item.2.endToken) with
        | .done list cursor => .done (list.push item) cursor
        | .failed diagnostic cursor => .failed diagnostic cursor
      | (none, reuse) =>
        match setting.parseItem here with
        | .done item cursor =>
          match setting.parseItems fuel reuse cursor with
          | .done list cursor => .done (list.push item) cursor
          | .failed diagnostic cursor => .failed diagnostic cursor
        | .failed diagnostic cursor => .failed diagnostic cursor

/-- The root above the items. It spans the source from the very start to the end of file. -/
def rootOf (items : List (Node × ItemExtent)) (final : Token) : Node :=
  { Node.ofChildren .sourceFile 0 (items.map (·.1)) with span := ⟨0, final.span.stop⟩ }

structure SourceFile where
  root : Node
  items : List ItemExtent
  reuse : Option Reuse

/-- Reads a stream from the cursor to its end. Every item takes a token, so the number of tokens
is fuel enough. -/
def Setting.parseSourceFile (setting : Setting) (reuse : Option Reuse) (cursor : Cursor) :
    Outcome SourceFile :=
  match setting.parseItems (setting.stream.size + 1) reuse cursor with
  | .done list after =>
    let final := setting.stream.get after.position
    .done ⟨rootOf list.items final, list.items.map (·.2), list.reuse⟩
      (after.examineHere setting.stream)
  | .failed diagnostic after => .failed diagnostic after

namespace SyntaxTree

def streamOf (tokens : List Token) : Except Diagnostic TokenStream :=
  match TokenStream.ofList? tokens with
  | some stream => .ok stream
  | none => .error (.internal "token stream does not end with EOF")

/-- The tree of a source with given tokens, and what is left of the tree that items were taken
from. Nothing is read by a precedence table that is out of order. -/
def ofTokens (source : String) (tokens : List Token) (dialect : Dialect) (reuse : Option Reuse) :
    Except Diagnostic (SyntaxTree × Option Reuse) := do
  Precedence.validate Precedence.table
  let stream ← streamOf tokens
  match (Setting.top stream dialect).parseSourceFile reuse .start with
  | .done file _ => return (⟨source, file.root, stream, file.items, dialect⟩, file.reuse)
  | .failed diagnostic _ => .error diagnostic

def parse (source : String) (dialect : Dialect) : Except Diagnostic SyntaxTree := do
  Diagnostic.checkLength (Text.byteLength source.toList)
  let (tree, _) ← ofTokens source (tokenizeSignificant source) dialect none
  return tree

end SyntaxTree

end LosslessSyntax
