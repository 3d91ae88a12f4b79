import LosslessSyntax.Grammar.Recovery
import LosslessSyntax.Node
import LosslessSyntax.Token.Stream
/-!
Cursors: where reading is in a token stream, and the furthest token that was looked at. Every look
at a token is recorded, for what was read depends on no token further on.
-/
namespace LosslessSyntax

structure Cursor where
  position : Nat
  furthest : Nat
deriving DecidableEq, Repr

namespace Cursor

def start : Cursor := ⟨0, 0⟩

def examine (cursor : Cursor) (stream : TokenStream) (index : Nat) : Cursor :=
  { cursor with furthest := max cursor.furthest (stream.clamp index) }

def examineHere (cursor : Cursor) (stream : TokenStream) : Cursor :=
  cursor.examine stream cursor.position

/-- Moves on by one token, but not past the end of file. -/
def advance (cursor : Cursor) (stream : TokenStream) : Cursor :=
  let looked := cursor.examineHere stream
  if stream.kind cursor.position = .eof then looked
  else { looked with position := cursor.position + 1 }

def seek (cursor : Cursor) (stream : TokenStream) (index : Nat) : Cursor :=
  { cursor with position := stream.clamp index }

/-- Goes back to an earlier position. What was looked at stays recorded. -/
def rewind (cursor : Cursor) (position : Nat) : Cursor := { cursor with position }

def resetFurthest (cursor : Cursor) : Cursor := { cursor with furthest := cursor.position }

/-- Skips up to a token that ends the skipping. Each step takes one token, so the number of tokens
is fuel enough. -/
def skipUntil (cursor : Cursor) (recovery : Recovery) (stream : TokenStream) : Nat → Cursor
  | 0 => cursor
  | fuel + 1 =>
    let kind := stream.kind cursor.position
    if kind = .eof ∨ kind ∈ recovery.stop then cursor.examineHere stream
    else if kind ∈ recovery.inclusive then cursor.advance stream
    else (cursor.advance stream).skipUntil recovery stream fuel

def skip (cursor : Cursor) (recovery : Recovery) (stream : TokenStream) (start : Nat) : Cursor :=
  let kind := stream.kind cursor.position
  if cursor.position = start ∧ recovery.forceProgress ∧ kind ≠ .eof then
    let moved := cursor.advance stream
    if kind ∈ recovery.inclusive then moved
    else moved.skipUntil recovery stream stream.size
  else cursor.skipUntil recovery stream stream.size

end Cursor

def TokenStream.errorNode (stream : TokenStream) (start stop : Nat) (diagnostic : Diagnostic) :
    Node :=
  { Node.ofChildren .error (stream.get start).span.start
      ((stream.slice start stop).map Node.ofToken) with diagnostic := some diagnostic }

end LosslessSyntax
