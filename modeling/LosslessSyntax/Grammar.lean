import LosslessSyntax.Grammar.Items
import LosslessSyntax.Grammar.Patterns
/-!
The whole grammar: the rule of every nonterminal.
-/
namespace LosslessSyntax

namespace Grammar

open Rule

def closing : Listing → TokenKind
  | .fieldEntries => .closeCurly
  | _ => .closeParen

def element : Listing → Rule
  | .parameters => parameter
  | .arguments => inField .arguments defaultExpression
  | .fieldEntries => fieldEntry
  | .types => anyType
  | .signatureTypes => signatureType
  | .patterns => child .pattern

/-- Elements with commas between them, and perhaps one after the last. -/
def list (listing : Listing) : Rule :=
  onKind fun kind =>
    if kind = closing listing ∨ kind = .eof then .empty
    else steps [element listing, ifAt .comma (steps [.take none, .call (.list listing)]) .empty]

def continuationClosing : Continuation → TokenKind
  | .arrayElements => .closeBracket
  | _ => .closeParen

def continuationElement : Continuation → Rule
  | .genericNames => expect .typeIdentifier
  | _ => defaultExpression

def more (continuation : Continuation) : Rule :=
  ifAt .comma
    (steps [.take none,
      ifAt (continuationClosing continuation) .empty
        (steps [continuationElement continuation, .call (.more continuation)])])
    .empty

end Grammar

def Nonterminal.rule : Nonterminal → Rule
  | .item => Grammar.item
  | .functionDefinition => Grammar.functionDefinition
  | .structDefinition => Grammar.structDefinition
  | .enumDefinition => Grammar.enumDefinition
  | .constDeclaration => Grammar.constDeclaration
  | .importDeclaration => Grammar.importDeclaration
  | .pathSteps => Grammar.pathSteps
  | .testBlock => Grammar.testBlock
  | .parameterList => Grammar.parameterList
  | .members body => Grammar.members body
  | .block => Grammar.block
  | .statements => Grammar.statements
  | .statement => Grammar.statement
  | .variableDeclaration => Grammar.variableDeclaration
  | .returnStatement => Grammar.returnStatement
  | .deferStatement => Grammar.deferStatement
  | .ifStatement => Grammar.ifStatement
  | .forStatement => Grammar.forStatement
  | .loopStatement => Grammar.loopStatement
  | .jump => Grammar.jump
  | .pattern => Grammar.pattern
  | .expression power => Grammar.expression power
  | .operators power => Grammar.operators power
  | .primary => Grammar.primary
  | .typeNameExpression => Grammar.typeNameExpression
  | .anonymousStruct => Grammar.anonymousStruct
  | .grouping => Grammar.grouping
  | .arrayLiteral => Grammar.arrayLiteral
  | .unary => Grammar.unary
  | .conditional => Grammar.conditional
  | .ifExpression => Grammar.ifExpression
  | .lambda => Grammar.lambda
  | .arms => Grammar.arms
  | .type power => Grammar.type power
  | .suffixes power => Grammar.suffixes power
  | .primitiveType => Grammar.primitiveType
  | .genericTypeParameter => Grammar.genericTypeParameter
  | .referenceType => Grammar.referenceType
  | .arrayType => Grammar.arrayType
  | .functionType => Grammar.functionType
  | .tupleType => Grammar.tupleType
  | .namedType => Grammar.namedType
  | .genericArguments => Grammar.genericArguments
  | .list listing => Grammar.list listing
  | .more continuation => Grammar.more continuation

end LosslessSyntax
