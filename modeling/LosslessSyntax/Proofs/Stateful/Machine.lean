import LosslessSyntax.Parse.Run
/-!
Rules as steps of a machine. Here one state is handed on from step to step, on success and on
failure: the context is a part of it that is set and put back, and every token that is read is on
record. A run of a rule knows nothing of that, for its setting is given to it and what it does with
it is nobody else's concern.
-/
namespace LosslessSyntax

structure Machine where
  stream : TokenStream
  dialect : Dialect
  context : Context
  cursor : Cursor
  /-- The indices of the tokens that were read, the last one first. -/
  reads : List Nat

namespace Machine

def setting (machine : Machine) (name : String) : Setting :=
  ⟨machine.stream, machine.dialect, machine.context, name⟩

/-- Reads a token without telling the cursor. -/
def glance (machine : Machine) (index : Nat) : Token × Machine :=
  (machine.stream.get index, { machine with reads := index :: machine.reads })

def glanceAll (machine : Machine) (start stop : Nat) : List Token × Machine :=
  (machine.stream.slice start stop,
    { machine with reads := List.range' start (stop - start) ++ machine.reads })

def look (machine : Machine) (index : Nat) : Token × Machine :=
  let (token, after) := machine.glance (machine.stream.clamp index)
  (token, { after with cursor := after.cursor.examine machine.stream index })

def lookHere (machine : Machine) : Token × Machine := machine.look machine.cursor.position

/-- Moves on by one token, but not past the end of file, and gives the token that was left. The
token tells whether to move before it counts as looked at. -/
def advance (machine : Machine) : Token × Machine :=
  let (token, after) := machine.glance machine.cursor.position
  let moved : Machine :=
    if token.kind = .eof then after
    else { after with cursor := { after.cursor with position := machine.cursor.position + 1 } }
  moved.look machine.cursor.position

def skipUntil (recovery : Recovery) : Nat → Machine → Machine
  | 0, machine => machine
  | fuel + 1, machine =>
    let (token, looked) := machine.lookHere
    if token.kind = .eof ∨ token.kind ∈ recovery.stop then looked
    else
      let (_, moved) := looked.advance
      if token.kind ∈ recovery.inclusive then moved else moved.skipUntil recovery fuel

def skip (machine : Machine) (recovery : Recovery) (start : Nat) : Machine :=
  if machine.cursor.position = start ∧ recovery.forceProgress then
    let (token, looked) := machine.lookHere
    if token.kind = .eof then looked
    else
      let (_, moved) := looked.advance
      if token.kind ∈ recovery.inclusive then moved
      else moved.skipUntil recovery machine.stream.size
  else machine.skipUntil recovery machine.stream.size

def recover (machine : Machine) (recovery : Recovery) (start : Nat) (diagnostic : Diagnostic) :
    Except Diagnostic Node × Machine :=
  if diagnostic.isInternal then (.error diagnostic, machine)
  else
    let (first, looked) := (machine.skip recovery start).look start
    let (tokens, after) := looked.glanceAll start looked.cursor.position
    (.ok { Node.ofChildren .error first.span.start (tokens.map Node.ofToken) with
      diagnostic := some diagnostic }, after)

end Machine

/-- What a machine does to a fragment, given the name that failures quote. -/
abbrev MachineAction :=
  String → List Node → Machine → Except Diagnostic (List Node) × Machine

/-- What a rule has a machine do, given what nonterminals have it do. -/
def Rule.exec (expand : Nonterminal → MachineAction) : Rule → MachineAction
  | .empty, _, nodes, machine => (.ok nodes, machine)
  | .seq first next, name, nodes, machine =>
    match first.exec expand name nodes machine with
    | (.ok nodes, after) => next.exec expand name nodes after
    | (.error diagnostic, after) => (.error diagnostic, after)
  | .take kind, _, nodes, machine =>
    let (token, after) := machine.advance
    (.ok (nodes ++ [.ofTokenAs kind token]), after)
  | .look distance next, name, nodes, machine =>
    let (token, after) := machine.look (machine.cursor.position + distance)
    (next token.kind).exec expand name nodes after
  | .fail failure, name, nodes, machine =>
    let (token, after) := machine.lookHere
    (.error (failure.diagnostic name token nodes), after)
  | .label field, _, nodes, machine =>
    (.ok (replaceLast (fun node => [node.withField field]) nodes), machine)
  | .labelInner field, _, nodes, machine =>
    (.ok (replaceLast (Node.innerInField field) nodes), machine)
  | .wrap kind, _, [], machine =>
    let (token, after) := machine.lookHere
    (.ok [.ofChildren kind token.span.start []], after)
  | .wrap kind, _, first :: rest, machine =>
    (.ok [.ofChildren kind first.span.start (first :: rest)], machine)
  | .apart rule, name, nodes, machine =>
    match rule.exec expand name [] machine with
    | (.ok more, after) => (.ok (nodes ++ more), after)
    | (.error diagnostic, after) => (.error diagnostic, after)
  | .call callee, name, nodes, machine => expand callee name nodes machine
  | .within context rule, name, nodes, machine =>
    let (result, after) := rule.exec expand name nodes { machine with context }
    (result, { after with context := machine.context })
  | .byContext next, name, nodes, machine =>
    (next machine.context).exec expand name nodes machine
  | .byDialect next, name, nodes, machine =>
    (next machine.dialect).exec expand name nodes machine
  | .byOperand next, name, nodes, machine =>
    (next (Operand.ofNodes nodes)).exec expand name nodes machine
  | .recover recovery rule, name, nodes, machine =>
    match rule.exec expand name [] machine with
    | (.ok more, after) => (.ok (nodes ++ more), after)
    | (.error diagnostic, failed) =>
      match failed.recover recovery machine.cursor.position diagnostic with
      | (.ok node, after) => (.ok (nodes ++ [node]), after)
      | (.error diagnostic, after) => (.error diagnostic, after)
  | .attempt trial next otherwise, name, nodes, machine =>
    match trial.exec expand name nodes machine with
    | (.ok nodes, after) => next.exec expand name nodes after
    | (.error _, failed) =>
      otherwise.exec expand name nodes
        { failed with cursor := failed.cursor.rewind machine.cursor.position }
  | .naming rule, _, nodes, machine =>
    let (token, after) := machine.lookHere
    rule.exec expand token.value nodes after

namespace Nonterminal

def exec : Nat → Nonterminal → MachineAction
  | 0, _, _, _, machine => (.error (.internal "the rules call each other without end"), machine)
  | depth + 1, name, quoted, nodes, machine => name.rule.exec (exec depth) quoted nodes machine

def machineAction (name : Nonterminal) : MachineAction := fun quoted nodes machine =>
  name.exec (callDepth machine.stream) quoted nodes machine

end Nonterminal

end LosslessSyntax
