import LosslessSyntax.Grammar.Rule
/-!
The grammar of patterns: `_`, `else`, a name, or a variant with or without its type and payload.
-/
namespace LosslessSyntax.Grammar

open Rule

def variantPayload : Rule :=
  steps [ifAt .openParen (steps [.take none, .call (.list .patterns), expect .closeParen]) .empty,
    .wrap .variantPattern]

def bareVariant : Rule := steps [inField .name (.take none), variantPayload]

/-- A variant, with its type and a dot before it if two more tokens say so. -/
def variantPattern : Rule :=
  .look 1 fun following =>
    if following = .dot then
      .look 2 fun last =>
        if last = .typeIdentifier then
          steps [inField .type (.take none), .take none, inField .name (.take none), variantPayload]
        else bareVariant
    else bareVariant

def pattern : Rule :=
  onKind fun
    | .underscore => .take none
    | .elseKeyword => .take (some .elsePattern)
    | .identifier => steps [.take none, .wrap .identifierPattern]
    | .typeIdentifier => variantPattern
    | _ => .fail (.expected "pattern")

end LosslessSyntax.Grammar
