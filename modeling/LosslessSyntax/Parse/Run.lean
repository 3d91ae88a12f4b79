import LosslessSyntax.Grammar
import LosslessSyntax.Parse.Cursor
/-!
What rules do: given a setting, a fragment and a cursor, a rule gives a longer fragment and a
cursor further on, or it fails with a diagnostic. Nonterminals are expanded to a bounded depth,
which the length of the stream gives.
-/
namespace LosslessSyntax

/-- What stays the same while a rule runs, but for what the rule itself changes inside. -/
structure Setting where
  stream : TokenStream
  dialect : Dialect
  context : Context
  /-- The name that failures quote. -/
  name : String

inductive Outcome (α : Type) where
  | done (value : α) (cursor : Cursor)
  | failed (diagnostic : Diagnostic) (cursor : Cursor)

def Operand.ofNodes (nodes : List Node) : Option Operand :=
  nodes.getLast?.map fun node => ⟨node.kind, (node.childByField? .operator).map (·.kind)⟩

def Failure.diagnostic (failure : Failure) (name : String) (token : Token) (nodes : List Node) :
    Diagnostic :=
  let operand := ((Operand.ofNodes nodes).map fun operand => operand.kind.name).getD ""
  match failure with
  | .expected what => .ofToken token (.expectedToken what token.value)
  | .unexpected => .ofToken token (.unexpectedToken token.value)
  | .noRuleApplies => .ofToken token (.noRuleApplies token.value)
  | .misplaced message => ⟨.misplacedToken token.value message, token.span⟩
  | .invalidAssignmentTarget => ⟨.invalidAssignmentTarget operand, token.span⟩
  | .invalidCallTarget => ⟨.invalidCallTarget operand, token.span⟩
  | .chainedRange => ⟨.chainedRange, token.span⟩
  | .chainedCast => ⟨.chainedCast, token.span⟩
  | .mixedVariantShape => ⟨.mixedVariantShape name, token.span⟩
  | .missingInitializer => ⟨.missingInitializer name, token.span⟩
  | .needsExtendedDialect feature => ⟨.dialectFeature feature, token.span⟩
  | .misplacedNode message =>
    match nodes with
    | [] => ⟨.misplacedToken token.value message, token.span⟩
    | node :: _ => ⟨.misplacedToken node.kind.name message, node.span⟩
  | .brokenTables message => .internal message

def Node.ofTokenAs (kind : Option NodeKind) (token : Token) : Node :=
  match kind with
  | some kind => .leaf kind token.span
  | none => .ofToken token

def replaceLast (change : Node → List Node) : List Node → List Node
  | [] => []
  | [node] => change node
  | node :: rest => node :: replaceLast change rest

/-- The node in a slot. An expression in parentheses leaves them outside the slot. -/
def Node.innerInField (field : Field) (node : Node) : List Node :=
  match node.kind, node.children with
  | .groupedExpression, [opening, inner, closing] => [opening, inner.withField field, closing]
  | _, _ => [node.withField field]

/-- Has an error node stand for a part that began at `start` and failed at the cursor, and skips
to where reading can go on. Broken invariants are not for recovery and stay failures. -/
def TokenStream.recover (stream : TokenStream) (recovery : Recovery) (start : Nat)
    (diagnostic : Diagnostic) (cursor : Cursor) : Outcome Node :=
  if diagnostic.isInternal then .failed diagnostic cursor
  else
    let skipped := cursor.skip recovery stream start
    .done (stream.errorNode start skipped.position diagnostic) (skipped.examine stream start)

/-- What a rule or nonterminal does. -/
abbrev Action := Setting → List Node → Cursor → Outcome (List Node)

/-- What a rule does, given what nonterminals do. -/
def Rule.run (expand : Nonterminal → Action) : Rule → Action
  | .empty, _, nodes, cursor => .done nodes cursor
  | .seq first next, setting, nodes, cursor =>
    match first.run expand setting nodes cursor with
    | .done nodes cursor => next.run expand setting nodes cursor
    | .failed diagnostic cursor => .failed diagnostic cursor
  | .take kind, setting, nodes, cursor =>
    .done (nodes ++ [.ofTokenAs kind (setting.stream.get cursor.position)])
      (cursor.advance setting.stream)
  | .look distance next, setting, nodes, cursor =>
    let index := cursor.position + distance
    (next (setting.stream.kind index)).run expand setting nodes
      (cursor.examine setting.stream index)
  | .fail failure, setting, nodes, cursor =>
    .failed (failure.diagnostic setting.name (setting.stream.get cursor.position) nodes)
      (cursor.examineHere setting.stream)
  | .label field, _, nodes, cursor =>
    .done (replaceLast (fun node => [node.withField field]) nodes) cursor
  | .labelInner field, _, nodes, cursor =>
    .done (replaceLast (Node.innerInField field) nodes) cursor
  | .wrap kind, setting, nodes, cursor =>
    .done [.ofChildren kind (setting.stream.get cursor.position).span.start nodes]
      (if nodes.isEmpty then cursor.examineHere setting.stream else cursor)
  | .apart rule, setting, nodes, cursor =>
    match rule.run expand setting [] cursor with
    | .done more cursor => .done (nodes ++ more) cursor
    | .failed diagnostic cursor => .failed diagnostic cursor
  | .call name, setting, nodes, cursor => expand name setting nodes cursor
  | .within context rule, setting, nodes, cursor =>
    rule.run expand { setting with context } nodes cursor
  | .byContext next, setting, nodes, cursor =>
    (next setting.context).run expand setting nodes cursor
  | .byDialect next, setting, nodes, cursor =>
    (next setting.dialect).run expand setting nodes cursor
  | .byOperand next, setting, nodes, cursor =>
    (next (Operand.ofNodes nodes)).run expand setting nodes cursor
  | .recover recovery rule, setting, nodes, cursor =>
    match rule.run expand setting [] cursor with
    | .done more cursor => .done (nodes ++ more) cursor
    | .failed diagnostic failed =>
      match setting.stream.recover recovery cursor.position diagnostic failed with
      | .done node cursor => .done (nodes ++ [node]) cursor
      | .failed diagnostic cursor => .failed diagnostic cursor
  | .attempt trial next otherwise, setting, nodes, cursor =>
    match trial.run expand setting nodes cursor with
    | .done nodes cursor => next.run expand setting nodes cursor
    | .failed _ failed => otherwise.run expand setting nodes (failed.rewind cursor.position)
  | .naming rule, setting, nodes, cursor =>
    rule.run expand { setting with name := (setting.stream.get cursor.position).value } nodes
      (cursor.examineHere setting.stream)

namespace Nonterminal

/-- What a nonterminal does when calls may nest to a depth. -/
def run : Nat → Nonterminal → Action
  | 0, _, _, _, cursor => .failed (.internal "the rules call each other without end") cursor
  | depth + 1, name, setting, nodes, cursor => name.rule.run (run depth) setting nodes cursor

/-- How deep calls can nest: a few of them for every token of the stream. -/
def callDepth (stream : TokenStream) : Nat := 16 * (stream.size + 1)

def action (name : Nonterminal) : Action := fun setting nodes cursor =>
  name.run (callDepth setting.stream) setting nodes cursor

end Nonterminal

namespace Rule

def parse (rule : Rule) (setting : Setting) (cursor : Cursor) : Outcome Node :=
  match rule.run Nonterminal.action setting [] cursor with
  | .done [node] cursor => .done node cursor
  | .done _ cursor => .failed (.internal "the rule gives no single node") cursor
  | .failed diagnostic cursor => .failed diagnostic cursor

def holds (choice : Rule → Rule → Rule) (setting : Setting) (cursor : Cursor) : Bool × Cursor :=
  match (choice .empty (.fail .unexpected)).run Nonterminal.action setting [] cursor with
  | .done _ cursor => (true, cursor)
  | .failed _ cursor => (false, cursor)

end Rule

def Nonterminal.parse (name : Nonterminal) : Setting → Cursor → Outcome Node :=
  (Rule.call name).parse

end LosslessSyntax
