import LosslessSyntax.Dialect
import LosslessSyntax.Proofs.Shape
/-!
Forms: for every kind of node the sequences of children that it can have. Where the rules say how
trees are read, the forms say what they look like, and the published schema follows from them.
-/
namespace LosslessSyntax

namespace Form

def word (kind : TokenKind) : Piece := .one (loose [.token kind])

def bare (kinds : List NodeKind) : Piece := .one (loose kinds)

def fill (field : Field) (kinds : List NodeKind) : Piece := .one (filling field kinds)

def listed (kinds : List NodeKind) : Piece := .many (loose (.token .comma :: kinds))

def comma : Piece := .maybe (loose [.token .comma])

def visibility : Piece := .maybe (loose [.visibilityModifier])

def directive : Piece := .maybe (loose [.directive])

def modifiers : Shape := [visibility]

def functionModifiers : Shape := [visibility, directive]

open NodeKind (expressions types statements patterns)

def annotations : List Shape := [[], [word .colon, fill .type types]]

def blockOrExpression : List NodeKind := .block :: expressions

def structNames (dialect : Dialect) : List NodeKind :=
  if dialect.allowsIdentifierStructNames then [.typeIdentifier, .identifier] else [.typeIdentifier]

def structEntries : Shape :=
  [word .openCurly, listed [.fieldInitializer, .fieldShorthand], word .closeCurly]

def conditions : List Shape :=
  [[fill .condition expressions],
    [word .openParen, fill .condition expressions, word .closeParen]]

def conditionals (alternatives : List NodeKind) : List Shape :=
  conditions.flatMap fun condition =>
    [[], [word .elseKeyword, fill .alternative alternatives]].map fun alternative =>
      word .ifKeyword :: condition ++ fill .consequence blockOrExpression :: alternative

def binaryOperators : List NodeKind :=
  [.questionQuestion, .orKeyword, .andKeyword, .equals, .notEquals, .less, .greater, .lessEquals,
    .greaterEquals, .pipe, .caret, .ampersand, .plus, .dash, .star, .slash, .percent].map .token

def leadingOperators : List NodeKind := [.dash, .bang, .ampersand].map .token

def assignmentTargets : List NodeKind :=
  [.identifier, .memberExpression, .indexExpression, .dereferenceExpression]

def parenthesised (kinds : List NodeKind) : Shape :=
  [word .openParen, listed kinds, word .closeParen]

def nonempty (kinds : List NodeKind) : Shape :=
  [word .openParen, bare kinds, listed kinds, word .closeParen]

def members (kind : NodeKind) : Shape :=
  [word .openCurly, .many (loose [kind, .error]), word .closeCurly]

end Form

open Form
open NodeKind (expressions types statements patterns items)

/-- The sequences of children that a node of a kind can have in a dialect. Error nodes have no
form, since anything can be in them. -/
def NodeKind.forms (dialect : Dialect) : NodeKind → List Shape
  | .sourceFile => [[.many (loose (.error :: items))]]
  | .importDeclaration => [modifiers ++ [word .importKeyword, fill .path [.modulePath]]]
  | .modulePath => [[bare [.identifier], .many (loose [.token .dot, .identifier])]]
  | .functionDefinition =>
    [functionModifiers ++
      [word .fnKeyword, fill .name [.identifier], fill .parameters [.parameterList, .error],
        .maybe (filling .returnType types), .maybe (filling .body [.block])]]
  | .parameterList => [parenthesised [.parameter]]
  | .parameter => [[fill .name [.identifier], word .colon, fill .type types]]
  | .structDefinition =>
    [modifiers ++
      [word .structKeyword, fill .name (structNames dialect), .maybe (loose [.genericParameters]),
        fill .body [.structBody]]]
  | .structBody => [members .structField]
  | .structField => [[fill .name [.identifier], word .colon, fill .type types, comma]]
  | .enumDefinition =>
    [modifiers ++
      [word .enumKeyword, fill .name [.typeIdentifier], .maybe (loose [.genericParameters]),
        fill .body [.enumBody]]]
  | .enumBody => [members .enumVariant]
  | .enumVariant =>
    [[fill .name [.typeIdentifier], .maybe (loose [.variantParameters]), comma],
      [fill .name [.typeIdentifier], word .assignment, fill .value expressions, comma]]
  | .variantParameters => [parenthesised types]
  | .genericParameters => [nonempty [.typeIdentifier]]
  | .genericArguments => [nonempty types]
  | .constDeclaration =>
    annotations.map fun annotation =>
      modifiers ++ [word .constKeyword, fill .name [.identifier]] ++ annotation ++
        [word .assignment, fill .value expressions]
  | .testBlock =>
    [[word .testKeyword, fill .name [.stringLiteral], fill .body [.block]]]
  | .genericTypeParameter => [[word .dollar, bare [.identifier]]]
  | .referenceType => [[word .ampersand, fill .type types]]
  | .optionalType => [[fill .type types, word .question]]
  | .sliceType => [[fill .type types, word .openBracket, word .closeBracket]]
  | .arrayType =>
    [[word .openBracket, fill .type types, word .semicolon, fill .length expressions,
      word .closeBracket]]
  | .functionType =>
    [word .fnKeyword :: parenthesised (.parameter :: types) ++ [fill .returnType types]]
  | .tupleType => [parenthesised types]
  | .namedType => [[fill .name [.typeIdentifier], .maybe (loose [.genericArguments])]]
  | .block =>
    [[word .openCurly, .many (loose (.error :: statements)), word .closeCurly]]
  | .letStatement =>
    annotations.flatMap fun annotation =>
      let start := [word .letKeyword, fill .name [.identifier]] ++ annotation
      (start ++ [word .assignment, fill .value expressions]) ::
        if dialect.allowsUninitializedLet then [start] else []
  | .constStatement =>
    annotations.map fun annotation =>
      [word .constKeyword, fill .name [.identifier]] ++ annotation ++
        [word .assignment, fill .value expressions]
  | .returnStatement => [[word .returnKeyword, .maybe (loose expressions)]]
  | .deferStatement => [[word .deferKeyword, bare expressions]]
  | .ifStatement => conditionals (.ifStatement :: blockOrExpression)
  | .forStatement =>
    [[word .forKeyword, fill .pattern [.identifier], word .inKeyword, fill .iterable expressions,
        fill .body [.block]],
      [word .forKeyword, word .openParen, fill .pattern [.identifier], word .inKeyword,
        fill .iterable expressions, word .closeParen, fill .body [.block]]]
  | .loopStatement => [[word .loopKeyword, fill .body [.block]]]
  | .expressionStatement => [[bare expressions]]
  | .assignmentExpression =>
    [[fill .left assignmentTargets,
      fill .operator [.token .assignment, .token .plusEquals], fill .right expressions]]
  | .binaryExpression =>
    [[fill .left expressions, fill .operator binaryOperators, fill .right expressions],
      [fill .left expressions, fill .operator [.token .dotDot],
        .maybe (filling .right expressions)]]
  | .unaryExpression => [[fill .operator leadingOperators, fill .operand expressions]]
  | .castExpression => [[fill .value expressions, word .asKeyword, fill .type types]]
  | .matchExpression =>
    [[fill .scrutinee expressions, word .matchKeyword, word .openCurly,
      .many (loose [.matchArm, .error]), word .closeCurly]]
  | .matchArm =>
    [[fill .pattern patterns, word .fatArrow, fill .body blockOrExpression, comma]]
  | .ifExpression => conditionals blockOrExpression
  | .lambdaExpression =>
    if dialect.allowsLambdas then
      [[word .fnKeyword, fill .parameters [.parameterList, .error],
        .maybe (filling .returnType types), fill .body [.block]]]
    else []
  | .groupedExpression => [[word .openParen, bare expressions, word .closeParen]]
  | .tupleExpression =>
    [[word .openParen, bare expressions, word .comma, listed expressions, word .closeParen]]
  | .arrayLiteral =>
    [[word .openBracket, listed expressions, word .closeBracket],
      [word .openBracket, fill .value expressions, word .semicolon, fill .length expressions,
        word .closeBracket]]
  | .structLiteral =>
    [[fill .name (structNames dialect), .maybe (loose [.genericArguments])] ++ structEntries]
  | .anonymousStructLiteral => [word .dot :: structEntries]
  | .fieldInitializer =>
    [[fill .name [.identifier], word .assignment, fill .value expressions]]
  | .fieldShorthand => [[bare [.identifier]]]
  | .functionCall =>
    [[fill .function [.identifier, .memberExpression], word .openParen,
      .many (⟨none, .token .comma⟩ :: filling .arguments expressions), word .closeParen]]
  | .memberExpression =>
    [[fill .object expressions, word .dot,
      fill .property [.identifier, .typeIdentifier, .numberLiteral]]]
  | .indexExpression =>
    [[fill .object expressions, word .openBracket, fill .index expressions, word .closeBracket]]
  | .dereferenceExpression => [[fill .object expressions, word .dot, word .star]]
  | .optionalChainExpression =>
    [[fill .object expressions, word .questionDot, fill .property [.identifier, .typeIdentifier]]]
  | .identifierPattern => [[bare [.identifier]]]
  | .variantPattern =>
    [[], [fill .type [.typeIdentifier], word .dot]].flatMap fun type =>
      [[], parenthesised patterns].map fun payload =>
        type ++ fill .name [.typeIdentifier] :: payload
  | .error => []
  | _ => [[]]

def Node.Formed (dialect : Dialect) (node : Node) : Prop :=
  node.kind = .error ∨
    ∃ form ∈ node.kind.forms dialect, Shape.Fits form (node.children.map Node.part)

end LosslessSyntax
