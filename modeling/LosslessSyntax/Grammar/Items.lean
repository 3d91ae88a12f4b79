import LosslessSyntax.Grammar.Statements
/-!
The grammar of items. Modifiers are read first and become the first children of the item that
follows them.
-/
namespace LosslessSyntax.Grammar

open Rule

def itemForm? : TokenKind → Option Nonterminal
  | .fnKeyword => some .functionDefinition
  | .structKeyword => some .structDefinition
  | .enumKeyword => some .enumDefinition
  | .constKeyword => some .constDeclaration
  | .importKeyword => some .importDeclaration
  | .testKeyword => some .testBlock
  | _ => none

/-- A directive has to stand right before a function. -/
def directive : Rule :=
  ifAt .directive
    (.look 1 fun following =>
      if following = .fnKeyword then .take none
      else .fail (.misplaced "directives can only be applied to functions"))
    .empty

def item : Rule :=
  steps [optional .pubKeyword, directive,
    onKind fun kind =>
      match itemForm? kind with
      | some form => .call form
      | none => .fail (.expected "item")]

def functionDefinition : Rule :=
  steps [expect .fnKeyword, inField .name (expectAs .identifier "function name"),
    inField .parameters (child .parameterList), returnType,
    ifAt .openCurly (inField .body (child .block)) .empty, .wrap .functionDefinition]

def parameter : Rule :=
  .apart (steps [inField .name (expectAs .identifier "parameter name"), expect .colon, typeField,
    .wrap .parameter])

/-- A malformed list is an error node in its place, so that the rest of the function is read. -/
def parameterList : Rule :=
  .recover .parameters
    (.within .expression
      (steps [expect .openParen, .call (.list .parameters), expect .closeParen,
        .wrap .parameterList]))

def genericParameters : Rule :=
  .apart (steps [expect .openParen, expect .typeIdentifier, .call (.more .genericNames),
    expect .closeParen, .wrap .genericParameters])

def structField : Rule :=
  steps [inField .name (expectAs .identifier "field name"), expect .colon, typeField,
    optional .comma, .wrap .structField]

def variantParameters : Rule :=
  .apart (steps [expect .openParen, .call (.list .types), expect .closeParen,
    .wrap .variantParameters])

/-- What follows the name of a variant and its payload: no value after a payload. -/
def variantValue (hasPayload : Bool) : Rule :=
  ifAt .assignment
    (if hasPayload then .fail .mixedVariantShape
    else steps [.take none, inField .value innerExpression])
    .empty

def enumVariant : Rule :=
  ifAt .typeIdentifier
    (.naming (steps [inField .name (.take none),
      ifAt .openParen (steps [variantParameters, variantValue true]) (variantValue false),
      optional .comma, .wrap .enumVariant]))
    (.fail (.expected "variant name"))

def memberOf : MemberBody → Rule
  | .struct => structField
  | .enum => enumVariant

def members (body : MemberBody) : Rule :=
  unlessBodyEnds (steps [.recover .member (memberOf body), .call (.members body)])

def memberBody (body : MemberBody) (kind : NodeKind) : Rule :=
  .apart (steps [expect .openCurly, .call (.members body), expect .closeCurly, .wrap kind])

def structDefinition : Rule :=
  steps [expect .structKeyword,
    onKind fun
      | .typeIdentifier => inField .name (.take none)
      | .identifier => .byDialect fun dialect =>
        if dialect.allowsIdentifierStructNames then inField .name (.take none)
        else .fail (.expected "struct name")
      | _ => .fail (.expected "struct name"),
    ifAt .openParen genericParameters .empty,
    inField .body (memberBody .struct .structBody), .wrap .structDefinition]

def enumDefinition : Rule :=
  steps [expect .enumKeyword, inField .name (expectAs .typeIdentifier "enum name"),
    ifAt .openParen genericParameters .empty,
    inField .body (memberBody .enum .enumBody), .wrap .enumDefinition]

def constDeclaration : Rule :=
  steps [expect .constKeyword,
    ifAt .identifier
      (.naming (steps [inField .name (.take none), typeAnnotation,
        ifAt .assignment (steps [.take none, inField .value innerExpression])
          (.fail .missingInitializer)]))
      (.fail (.expected "constant name")),
    .wrap .constDeclaration]

def pathSteps : Rule :=
  ifAt .dot
    (.look 1 fun following =>
      if following = .identifier then steps [.take none, .take none, .call .pathSteps] else .empty)
    .empty

def importDeclaration : Rule :=
  steps [expect .importKeyword,
    inField .path (.apart (steps [expect .identifier, .call .pathSteps, .wrap .modulePath])),
    .wrap .importDeclaration]

/-- A test takes no modifiers, so nothing may stand before it. -/
def testBlock : Rule :=
  .byOperand fun
    | some _ => .fail (.misplacedNode "test blocks cannot have modifiers")
    | none =>
      steps [expect .testKeyword, inField .name (expect .string), inField .body (child .block),
        .wrap .testBlock]

end LosslessSyntax.Grammar
