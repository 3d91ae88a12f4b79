import LosslessSyntax.Grammar
import LosslessSyntax.Proofs.Grammar.Forms
/-!
Contracts: what each nonterminal finds when it is called and what it leaves behind. A situation is
what is known of a fragment and of the tokens ahead. Calls that read nothing first go down in rank,
so that the depth of calls is bounded by the tokens that are left.
-/
namespace LosslessSyntax

/-- What is known between two steps of a rule. -/
structure Situation where
  shape : Shape
  /-- The kinds of the next tokens, as far as they have been looked at. -/
  ahead : List TokenKind
  /-- Whether a token has been read since the rule began. -/
  moved : Bool

open Form
open NodeKind (expressions items)

def Listing.parts : Listing → List Part
  | .parameters => loose [.parameter]
  | .arguments => filling .arguments expressions
  | .fieldEntries => loose [.fieldInitializer, .fieldShorthand]
  | .types => loose NodeKind.types
  | .signatureTypes => loose (.parameter :: NodeKind.types)
  | .patterns => loose NodeKind.patterns

def Continuation.parts : Continuation → List Part
  | .genericNames => loose [.typeIdentifier]
  | .tupleElements | .arrayElements => loose expressions

def Listing.filled (listing : Listing) : Shape :=
  [.one listing.parts, .many (⟨none, .token .comma⟩ :: listing.parts)]

def Continuation.filled (continuation : Continuation) : Shape :=
  [word .comma, .many (⟨none, .token .comma⟩ :: continuation.parts)]

def MemberBody.memberKind : MemberBody → NodeKind
  | .struct => .structField
  | .enum => .enumVariant

namespace Nonterminal

/-- How far a nonterminal is from its first token: without one being read it calls only
nonterminals of lower rank. -/
def rank : Nonterminal → Nat
  | .statements | .list _ => 4
  | .statement => 3
  | .expression _ => 2
  | .item | .type _ | .arms | .ifStatement | .ifExpression => 1
  | _ => 0

/-- What a fragment has to be when a nonterminal is called. Those that add to any fragment ask for
nothing. -/
def before? : Nonterminal → Option Shape
  | .functionDefinition => some functionModifiers
  | .structDefinition | .enumDefinition | .constDeclaration | .importDeclaration | .testBlock =>
    some modifiers
  | .operators _ => some [bare expressions]
  | .suffixes _ => some [bare NodeKind.types]
  | .pathSteps | .members _ | .statements | .arms | .list _ | .more _ => none
  | _ => some []

/-- What the tokens ahead have to be when a nonterminal is called. Most look for themselves. -/
def Expects : Nonterminal → List TokenKind → Prop
  | .unary, kind :: _ => Precedence.isLeading kind
  | .typeNameExpression, kind :: _ => kind = .typeIdentifier
  | .variableDeclaration, kind :: _ => kind = .letKeyword ∨ kind = .constKeyword
  | .jump, kind :: _ => kind = .breakKeyword ∨ kind = .continueKeyword
  | .unary, [] | .typeNameExpression, [] | .variableDeclaration, [] | .jump, [] => False
  | _, _ => True

def remembers : Nonterminal → Bool
  | .unary | .typeNameExpression | .variableDeclaration | .jump | .list _ | .more _ => true
  | _ => false

def enter (name : Nonterminal) (situation : Situation) : Situation :=
  ⟨name.before?.getD situation.shape, if name.remembers then situation.ahead.take 1 else [], false⟩

def Ready (name : Nonterminal) (situation : Situation) : Prop :=
  (∀ shape, name.before? = some shape → situation.shape.within shape) ∧
    name.Expects (name.enter situation).ahead

def result (context : Context) : Nonterminal → List NodeKind
  | .item => items
  | .functionDefinition => [.functionDefinition]
  | .structDefinition => [.structDefinition]
  | .enumDefinition => [.enumDefinition]
  | .constDeclaration => [.constDeclaration]
  | .importDeclaration => [.importDeclaration]
  | .testBlock => [.testBlock]
  | .parameterList => [.parameterList, .error]
  | .block => [.block]
  | .statement => NodeKind.statements
  | .variableDeclaration => [.letStatement, .constStatement]
  | .returnStatement => [.returnStatement]
  | .deferStatement => [.deferStatement]
  | .ifStatement => [.ifStatement]
  | .forStatement => [.forStatement]
  | .loopStatement => [.loopStatement]
  | .jump => [.breakStatement, .continueStatement]
  | .pattern => NodeKind.patterns
  | .expression _ | .operators _ => expressions
  | .primary =>
    [.identifier, .numberLiteral, .stringLiteral, .charLiteral, .booleanLiteral, .nullLiteral,
      .structLiteral]
  | .typeNameExpression => [.typeIdentifier, .structLiteral]
  | .anonymousStruct => [.anonymousStructLiteral]
  | .grouping => [.groupedExpression, .tupleExpression]
  | .arrayLiteral => [.arrayLiteral]
  | .unary => [.unaryExpression]
  | .conditional => if context = .statement then [.ifStatement] else [.ifExpression]
  | .ifExpression => [.ifExpression]
  | .lambda => [.lambdaExpression]
  | .type _ | .suffixes _ => NodeKind.types
  | .primitiveType => [.primitiveType]
  | .genericTypeParameter => [.genericTypeParameter]
  | .referenceType => [.referenceType]
  | .arrayType => [.arrayType]
  | .functionType => [.functionType]
  | .tupleType => [.tupleType]
  | .namedType => [.namedType]
  | .genericArguments => [.genericArguments]
  | .pathSteps | .members _ | .statements | .arms | .list _ | .more _ => []

/-- The situations in which a nonterminal can leave its caller, where `moved` tells whether it has
read a token itself. -/
def effects (context : Context) (situation : Situation) : Nonterminal → List Situation
  | .pathSteps =>
    [⟨situation.shape ++ [.many (loose [.token .dot, .identifier])], [], false⟩]
  | .members body =>
    [⟨situation.shape ++ [.many (loose [body.memberKind, .error])], [], false⟩]
  | .statements => [⟨situation.shape ++ [.many (loose (.error :: NodeKind.statements))], [], false⟩]
  | .arms => [⟨situation.shape ++ [.many (loose [.matchArm, .error])], [], false⟩]
  | .list listing =>
    let bare : Situation := ⟨situation.shape, situation.ahead, false⟩
    let filled : Situation := ⟨situation.shape ++ listing.filled, [], true⟩
    match situation.ahead with
    | kind :: _ => if kind = Grammar.closing listing ∨ kind = .eof then [bare] else [filled]
    | [] => [bare, filled]
  | .more continuation =>
    let bare : Situation := ⟨situation.shape, situation.ahead, false⟩
    let filled : Situation := ⟨situation.shape ++ continuation.filled, [], true⟩
    match situation.ahead with
    | kind :: _ => if kind = .comma then [filled] else [bare]
    | [] => [bare, filled]
  | .parameterList => [⟨[bare [.parameterList, .error]], [], false⟩]
  | .operators _ => [⟨[bare expressions], [], false⟩]
  | .suffixes _ => [⟨[bare NodeKind.types], [], false⟩]
  | name => [⟨[bare (name.result context)], [], true⟩]

end Nonterminal

end LosslessSyntax
