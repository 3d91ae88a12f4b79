import LosslessSyntax.Grammar.Types
/-!
The grammar of expressions: a leading form, and then operators as long as they bind tighter than
the power asked for. An operator finds its left operand as the only node of the fragment.
-/
namespace LosslessSyntax.Grammar

open Rule

def leadingForm? (kind : TokenKind) : Option Nonterminal :=
  match kind with
  | .number | .string | .char | .byteChar | .trueKeyword | .falseKeyword | .nullKeyword
  | .identifier => some .primary
  | .typeIdentifier => some .typeNameExpression
  | .openParen => some .grouping
  | .openBracket => some .arrayLiteral
  | .dot => some .anonymousStruct
  | .ifKeyword => some .ifExpression
  | .fnKeyword => some .lambda
  | kind => if Precedence.isLeading kind then some .unary else none

def startsExpression (dialect : Dialect) (kind : TokenKind) : Bool :=
  if kind = .fnKeyword then dialect.allowsLambdas else (leadingForm? kind).isSome

def ifStartsExpression (yes no : Rule) : Rule :=
  onKind fun kind => .byDialect fun dialect => if startsExpression dialect kind then yes else no

def expression (power : BindingPower) : Rule :=
  onKind fun kind =>
    match leadingForm? kind with
    | some form => steps [.call form, .call (.operators power)]
    | none => .fail .unexpected

def defaultExpression : Rule := child (.expression .default)

def structFields : Rule :=
  .within .expression
    (steps [expect .openCurly, .call (.list .fieldEntries), expect .closeCurly])

def structLiteral : Rule :=
  steps [inField .name (.take none), structFields, .wrap .structLiteral]

def primary : Rule :=
  onKind fun
    | .identifier => .byDialect fun dialect =>
      if dialect.allowsIdentifierStructNames then
        .look 1 fun following =>
          if following = .openCurly then
            .byContext fun context => if context = .condition then .take none else structLiteral
          else .take none
      else .take none
    | .number | .string | .char | .byteChar | .trueKeyword | .falseKeyword | .nullKeyword =>
      .take none
    | _ => .fail .unexpected

/-- A type name by itself, or before the fields of a struct, perhaps with type arguments between.
A parenthesis that no type arguments and brace follow belongs to something else. -/
def typeNameExpression : Rule :=
  .byContext fun context =>
    if context = .condition then .take none
    else .look 1 fun
      | .openCurly => structLiteral
      | .openParen =>
        .attempt
          (steps [inField .name (.take none), child .genericArguments,
            ifAt .openCurly .empty (.fail .unexpected)])
          (steps [structFields, .wrap .structLiteral])
          (.take none)
      | _ => .take none

def fieldEntry : Rule :=
  ifAt .identifier
    (.look 1 fun following =>
      if following = .assignment then
        .apart (steps [inField .name (.take none), .take none, inField .value defaultExpression,
          .wrap .fieldInitializer])
      else .apart (steps [.take none, .wrap .fieldShorthand]))
    (.fail (.expected "field name"))

def anonymousStruct : Rule :=
  steps [expect .dot, structFields, .wrap .anonymousStructLiteral]

def grouping : Rule :=
  .within .expression
    (steps [expect .openParen, defaultExpression,
      ifAt .comma
        (steps [.call (.more .tupleElements), expect .closeParen, .wrap .tupleExpression])
        (steps [expect .closeParen, .wrap .groupedExpression])])

def arrayLiteral : Rule :=
  .within .expression
    (steps [expect .openBracket,
      ifAt .closeBracket (.take none)
        (steps [defaultExpression,
          ifAt .semicolon
            (steps [.label .value, .take none, inField .length defaultExpression])
            (.call (.more .arrayElements)),
          expect .closeBracket]),
      .wrap .arrayLiteral])

def unary : Rule :=
  steps [inField .operator (.take none), inField .operand (child (.expression .unary)),
    .wrap .unaryExpression]

def branch : Rule := ifAt .openCurly (child .block) innerExpression

/-- What follows an `else`. Only after a statement can it be another statement. -/
def alternative (context : Context) : Rule :=
  onKind fun
    | .openCurly => child .block
    | .ifKeyword =>
      if context = .statement then .within .statement (child .conditional) else innerExpression
    | _ => innerExpression

def conditional : Rule :=
  .byContext fun context =>
    steps [expect .ifKeyword,
      .within .condition defaultExpression, .labelInner .condition,
      inField .consequence branch,
      ifAt .elseKeyword (steps [.take none, inField .alternative (alternative context)]) .empty,
      .wrap (if context = .statement then .ifStatement else .ifExpression)]

def ifExpression : Rule := .within .expression (.call .conditional)

def lambda : Rule :=
  .byDialect fun dialect =>
    if dialect.allowsLambdas then
      steps [expect .fnKeyword, inField .parameters (child .parameterList), returnType,
        inField .body (child .block), .wrap .lambdaExpression]
    else .fail (.needsExtendedDialect "lambda expressions")

def binary (power : BindingPower) : Rule :=
  steps [.label .left, inField .operator (.take none),
    inField .right (child (.expression power)), .wrap .binaryExpression]

def isRange (operand : Option Operand) : Bool :=
  operand == some ⟨.binaryExpression, some (.token .dotDot)⟩

/-- The right end of a range is there if what follows can begin an expression. -/
def range (power : BindingPower) : Rule :=
  .byOperand fun operand =>
    if isRange operand then .fail .chainedRange
    else
      steps [.label .left, inField .operator (.take none),
        ifStartsExpression (inField .right (child (.expression power))) .empty,
        .wrap .binaryExpression]

def operandKind? (operand : Option Operand) : Option NodeKind := operand.map (·.kind)

def assignmentTargets : List NodeKind :=
  [.identifier, .memberExpression, .indexExpression, .dereferenceExpression]

/-- The right side of an assignment can be an assignment. -/
def assignment : Rule :=
  .byOperand fun operand =>
    if (operandKind? operand).any assignmentTargets.contains then
      steps [.label .left, inField .operator (.take none), inField .right defaultExpression,
        .wrap .assignmentExpression]
    else .fail .invalidAssignmentTarget

def cast : Rule :=
  .byOperand fun operand =>
    if operandKind? operand = some .castExpression then .fail .chainedCast
    else steps [.label .value, .take none, typeField, .wrap .castExpression]

def member : Rule :=
  steps [.label .object, .take none,
    onKind fun
      | .star => steps [.take none, .wrap .dereferenceExpression]
      | .identifier | .typeIdentifier | .number =>
        steps [inField .property (.take none), .wrap .memberExpression]
      | _ => .fail (.expected "member name")]

def optionalChain : Rule :=
  steps [.label .object, .take none,
    onKind fun
      | .identifier | .typeIdentifier =>
        steps [inField .property (.take none), .wrap .optionalChainExpression]
      | _ => .fail (.expected "member name")]

def index : Rule :=
  steps [.label .object, .take none, inField .index innerExpression, expect .closeBracket,
    .wrap .indexExpression]

def callTargets : List NodeKind := [.identifier, .memberExpression]

def functionCall : Rule :=
  .byOperand fun operand =>
    if (operandKind? operand).any callTargets.contains then
      steps [.label .function,
        .within .expression
          (steps [.take none, .call (.list .arguments), expect .closeParen]),
        .wrap .functionCall]
    else .fail .invalidCallTarget

def matchArm : Rule :=
  steps [inField .pattern (child .pattern), expect .fatArrow, inField .body branch,
    optional .comma, .wrap .matchArm]

def arms : Rule :=
  onKind fun
    | .closeCurly | .eof => .empty
    | _ => steps [.recover .arm matchArm, .call .arms]

def matchExpression : Rule :=
  steps [.label .scrutinee, .take none,
    .within .expression (steps [expect .openCurly, .call .arms, expect .closeCurly]),
    .wrap .matchExpression]

def operation? (kind : TokenKind) : Option (BindingPower → Rule) :=
  match kind with
  | .assignment | .plusEquals => some fun _ => assignment
  | .asKeyword => some fun _ => cast
  | .dotDot => some range
  | .dot => some fun _ => member
  | .questionDot => some fun _ => optionalChain
  | .openBracket => some fun _ => index
  | .openParen => some fun _ => functionCall
  | .matchKeyword => some fun _ => matchExpression
  | kind => (Precedence.levelOf? kind).bind fun level =>
    if level.associativity = .left then some binary else none

/-- The operators that bind tighter than a power. A dot before a brace is no operator, since it
begins a struct literal. -/
def operators (power : BindingPower) : Rule :=
  onKind fun kind =>
    match Precedence.power? kind with
    | some own =>
      if own ≤ power then .empty
      else
        let next :=
          match operation? kind with
          | some operation => steps [operation own, .call (.operators power)]
          | none => withoutHandler "binding power" kind
        if kind = .dot then
          .look 1 fun following => if following = .openCurly then .empty else next
        else next
    | none => .empty

end LosslessSyntax.Grammar
