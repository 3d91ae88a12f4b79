import LosslessSyntax.Grammar.Expressions
/-!
The grammar of blocks and statements. A statement that fails becomes an error node and the block
goes on, up to the closing brace or to what can only begin an item.
-/
namespace LosslessSyntax.Grammar

open Rule

/-- Kinds that begin an item and cannot stand in a body. So does a function with a name. -/
def opensItem : TokenKind → Bool
  | .structKeyword | .enumKeyword | .importKeyword | .testKeyword | .pubKeyword | .directive => true
  | _ => false

def ifItemStarts (yes no : Rule) : Rule :=
  onKind fun kind =>
    if opensItem kind then yes
    else if kind = .fnKeyword then
      .look 1 fun following => if following = .identifier then yes else no
    else no

def unlessBodyEnds (rest : Rule) : Rule :=
  onKind fun
    | .closeCurly | .eof => .empty
    | _ => ifItemStarts .empty rest

def block : Rule :=
  .within .statement
    (steps [expect .openCurly, .call .statements, expect .closeCurly, .wrap .block])

def statements : Rule :=
  unlessBodyEnds (steps [.recover .statement (.call .statement), .call .statements])

def statementForm? : TokenKind → Option Nonterminal
  | .letKeyword | .constKeyword => some .variableDeclaration
  | .returnKeyword => some .returnStatement
  | .deferKeyword => some .deferStatement
  | .ifKeyword => some .ifStatement
  | .forKeyword => some .forStatement
  | .loopKeyword => some .loopStatement
  | .breakKeyword | .continueKeyword => some .jump
  | _ => none

def statement : Rule :=
  onKind fun kind =>
    match statementForm? kind with
    | some form => .call form
    | none =>
      ifStartsExpression (steps [innerExpression, .wrap .expressionStatement])
        (.fail .noRuleApplies)

/-- A name, perhaps a type, and a value. Variables of the extended dialect can do without a value.
-/
def variableDeclaration : Rule :=
  onKind fun keyword =>
    steps [.take none,
      ifAt .identifier
        (.naming (steps [inField .name (.take none), typeAnnotation,
          ifAt .assignment (steps [.take none, inField .value innerExpression])
            (if keyword = .constKeyword then .fail .missingInitializer
            else .byDialect fun dialect =>
              if dialect.allowsUninitializedLet then .empty else .fail .missingInitializer)]))
        (.fail (.misplaced "expected identifier during variable declaration")),
      .wrap (if keyword = .constKeyword then .constStatement else .letStatement)]

def returnStatement : Rule :=
  steps [expect .returnKeyword, ifStartsExpression innerExpression .empty, .wrap .returnStatement]

def deferStatement : Rule :=
  steps [expect .deferKeyword, innerExpression, .wrap .deferStatement]

def ifStatement : Rule := .within .statement (.call .conditional)

def forHeader (parenthesised : Bool) : Rule :=
  steps [inField .pattern (expect .identifier), expect .inKeyword,
    inField .iterable
      (.within (if parenthesised then .expression else .condition) defaultExpression),
    if parenthesised then expect .closeParen else .empty]

def forStatement : Rule :=
  steps [expect .forKeyword,
    ifAt .openParen (steps [.take none, forHeader true]) (forHeader false),
    inField .body (child .block), .wrap .forStatement]

def loopStatement : Rule :=
  steps [expect .loopKeyword, inField .body (child .block), .wrap .loopStatement]

def jump : Rule := .take none

end LosslessSyntax.Grammar
