import LosslessSyntax.Dialect
import LosslessSyntax.Grammar.Recovery
import LosslessSyntax.Node.Kind
import LosslessSyntax.Precedence
/-!
Grammar rules as data. A rule reads tokens from left to right and grows a list of nodes, the
fragment of the tree that it is at. It sees tokens, and the nodes it has made, by their kinds
alone, so spans and texts cannot steer it. Repetition is a nonterminal that calls itself.
-/
namespace LosslessSyntax

/-- What the part being read belongs to. In a condition a brace after a name opens the body and
not a struct literal. -/
inductive Context where
  | statement
  | expression
  | condition
deriving DecidableEq, Repr, Inhabited

/-- Comma separated lists up to a closing bracket, which may be empty. -/
inductive Listing where
  | parameters
  | arguments
  | fieldEntries
  | types
  | signatureTypes
  | patterns
deriving DecidableEq, Repr

/-- Comma separated lists whose first element has been read. -/
inductive Continuation where
  | genericNames
  | tupleElements
  | arrayElements
deriving DecidableEq, Repr

inductive MemberBody where
  | struct
  | enum
deriving DecidableEq, Repr

/-- The parts of the grammar that have names. -/
inductive Nonterminal where
  | item
  | functionDefinition
  | structDefinition
  | enumDefinition
  | constDeclaration
  | importDeclaration
  | pathSteps
  | testBlock
  | parameterList
  | members (body : MemberBody)
  | block
  | statements
  | statement
  | variableDeclaration
  | returnStatement
  | deferStatement
  | ifStatement
  | forStatement
  | loopStatement
  | jump
  | pattern
  | expression (power : BindingPower)
  | operators (power : BindingPower)
  | primary
  | typeNameExpression
  | anonymousStruct
  | grouping
  | arrayLiteral
  | unary
  | conditional
  | ifExpression
  | lambda
  | arms
  | type (power : BindingPower)
  | suffixes (power : BindingPower)
  | primitiveType
  | genericTypeParameter
  | referenceType
  | arrayType
  | functionType
  | tupleType
  | namedType
  | genericArguments
  | list (listing : Listing)
  | more (continuation : Continuation)
deriving DecidableEq, Repr

/-- Why a rule gives up. All but the last two are about the token it is at. -/
inductive Failure where
  | expected (what : String)
  | unexpected
  | noRuleApplies
  | misplaced (message : String)
  | invalidAssignmentTarget
  | invalidCallTarget
  | chainedRange
  | chainedCast
  | mixedVariantShape
  | missingInitializer
  | needsExtendedDialect (feature : String)
  /-- The first node of the fragment is out of place. -/
  | misplacedNode (message : String)
  /-- The tables of the grammar do not fit together. -/
  | brokenTables (message : String)
deriving DecidableEq, Repr

/-- What a rule may ask about the last node of its fragment: the kind, and that of its operator.
-/
structure Operand where
  kind : NodeKind
  operator : Option NodeKind
deriving DecidableEq, Repr

inductive Rule where
  /-- Reads nothing. -/
  | empty
  | seq (first next : Rule)
  /-- Reads one token as a leaf, of the given kind or of its own. -/
  | take (kind : Option NodeKind)
  /-- Goes on by the kind of the token `distance` places ahead. -/
  | look (distance : Nat) (next : TokenKind → Rule)
  | fail (failure : Failure)
  /-- Lets the last node fill a slot of the node that is to come. -/
  | label (field : Field)
  /-- As `label`, but parentheses around the last node become nodes of their own. -/
  | labelInner (field : Field)
  /-- Makes the whole fragment the children of one node. -/
  | wrap (kind : NodeKind)
  /-- Reads into a fragment of its own, which is then added to the one around it. -/
  | apart (rule : Rule)
  | call (name : Nonterminal)
  | within (context : Context) (rule : Rule)
  | byContext (next : Context → Rule)
  | byDialect (next : Dialect → Rule)
  | byOperand (next : Option Operand → Rule)
  /-- Reads into a fragment of its own. On failure an error node stands for it. -/
  | recover (recovery : Recovery) (rule : Rule)
  /-- Goes on with `next` if `trial` reads, and otherwise from where it was with `otherwise`. -/
  | attempt (trial next otherwise : Rule)
  /-- Has the text of the token it is at as the name that failures inside `rule` quote. -/
  | naming (rule : Rule)

namespace Rule

def steps : List Rule → Rule
  | [] => .empty
  | [rule] => rule
  | rule :: rules => .seq rule (steps rules)

def onKind (next : TokenKind → Rule) : Rule := .look 0 next

def ifAt (kind : TokenKind) (yes no : Rule) : Rule :=
  onKind fun found => if found = kind then yes else no

def expectAs (kind : TokenKind) (what : String) : Rule :=
  ifAt kind (.take none) (.fail (.expected what))

def expect (kind : TokenKind) : Rule := expectAs kind kind.text

def optional (kind : TokenKind) : Rule := ifAt kind (.take none) .empty

def withoutHandler (power : String) (kind : TokenKind) : Rule :=
  .fail (.brokenTables (power ++ " registered for `" ++ kind.text ++ "` without a handler"))

def child (name : Nonterminal) : Rule := .apart (.call name)

def inField (field : Field) (rule : Rule) : Rule := steps [rule, .label field]

end Rule

end LosslessSyntax
