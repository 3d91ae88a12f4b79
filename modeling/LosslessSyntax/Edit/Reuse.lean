import LosslessSyntax.Edit
import LosslessSyntax.Tree
/-!
Reuse of items: where an item of the old tree started, and all the tokens that it depends on are
as they were, the item is taken over, moved to its new place.
-/
namespace LosslessSyntax

/-- An old tree and the range changed since, with the items that are still ahead and the counts of
positions where one was taken over and where none was. -/
structure Reuse where
  old : SyntaxTree
  range : ChangedRange
  nextItem : Nat
  reused : Nat
  reparsed : Nat

namespace Reuse

def start (old : SyntaxTree) (range : ChangedRange) : Reuse := ⟨old, range, 0, 0, 0⟩

def itemStart? (reuse : Reuse) (extent : ItemExtent) : Option Nat :=
  (reuse.old.stream.get? extent.firstToken).map (·.span.start.toNat)

def firstFrom (reuse : Reuse) (offset : Nat) : List ItemExtent → Nat → Nat
  | [], index => index
  | extent :: rest, index =>
    match reuse.itemStart? extent with
    | none => index
    | some start => if start < offset then reuse.firstFrom offset rest (index + 1) else index

def moved (reuse : Reuse) (offset : Nat) : Int :=
  if offset < reuse.range.start then 0 else reuse.range.delta

/-- Whether the old token at `oldIndex` is on the side of the change that `distance` tells and
stands, moved, at `newIndex` of the new tokens. -/
def tokenUnchanged (reuse : Reuse) (stream : TokenStream) (distance : Int)
    (oldIndex newIndex : Nat) : Bool :=
  match reuse.old.stream.get? oldIndex, stream.get? newIndex with
  | some oldToken, some newToken =>
    (if distance = 0 then decide (oldToken.span.stop.toNat ≤ reuse.range.start)
      else decide (reuse.range.oldEnd ≤ oldToken.span.start.toNat)) &&
    newToken.kind == oldToken.kind && newToken.span == oldToken.span.shifted distance
  | _, _ => false

def itemUnchanged (reuse : Reuse) (stream : TokenStream) (position : Nat) (distance : Int)
    (extent : ItemExtent) : Bool :=
  (List.range (extent.lookahead + 1 - extent.firstToken)).all fun offset =>
    reuse.tokenUnchanged stream distance (extent.firstToken + offset) (position + offset)

/-- The old item that can stand at a position of the new tokens, with the items passed over. -/
def find (reuse : Reuse) (stream : TokenStream) (position : Nat) :
    Option (Node × ItemExtent) × Nat :=
  match (stream.get? position).bind fun token =>
      reuse.range.toOld? token.span.start.toNat with
  | none => (none, reuse.nextItem)
  | some offset =>
    let next := reuse.firstFrom offset (reuse.old.items.drop reuse.nextItem) reuse.nextItem
    match reuse.old.items[next]?, reuse.old.root.children[next]? with
    | some extent, some node =>
      let distance := reuse.moved offset
      if reuse.itemStart? extent = some offset &&
          reuse.itemUnchanged stream position distance extent then
        (some (node.shifted distance,
          { firstToken := position
            endToken := position + (extent.endToken - extent.firstToken)
            lookahead := position + (extent.lookahead - extent.firstToken) }), next + 1)
      else (none, next)
    | _, _ => (none, next)

def take (reuse : Reuse) (stream : TokenStream) (position : Nat) :
    Option (Node × ItemExtent) × Reuse :=
  match reuse.find stream position with
  | (some found, next) => (some found, { reuse with nextItem := next, reused := reuse.reused + 1 })
  | (none, next) => (none, { reuse with nextItem := next, reparsed := reuse.reparsed + 1 })

def offer (reuse : Option Reuse) (stream : TokenStream) (position : Nat) :
    Option (Node × ItemExtent) × Option Reuse :=
  match reuse with
  | none => (none, none)
  | some reuse =>
    let (found, reuse) := reuse.take stream position
    (found, some reuse)

end Reuse

end LosslessSyntax
