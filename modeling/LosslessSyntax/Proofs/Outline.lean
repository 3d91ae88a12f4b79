import LosslessSyntax.Proofs.SourceFile
/-!
Outlines: trees without spans and without the texts that diagnostics quote. Rules go by the kinds of
tokens and nodes alone, so sources whose tokens have the same kinds have trees of the same outline.
-/
namespace LosslessSyntax

/-- The cause without the texts and numbers that it quotes. -/
def Cause.outline : Cause → Cause
  | .unterminatedString => .unterminatedString
  | .unterminatedChar => .unterminatedChar
  | .invalidEscape _ => .invalidEscape ""
  | .unrecognisedCharacter _ => .unrecognisedCharacter ""
  | .unexpectedToken _ => .unexpectedToken ""
  | .misplacedToken _ _ => .misplacedToken "" ""
  | .expectedToken _ _ => .expectedToken "" ""
  | .unexpectedEndOfInput => .unexpectedEndOfInput
  | .invalidAssignmentTarget _ => .invalidAssignmentTarget ""
  | .invalidCallTarget _ => .invalidCallTarget ""
  | .chainedRange => .chainedRange
  | .chainedCast => .chainedCast
  | .mixedVariantShape _ => .mixedVariantShape ""
  | .missingInitializer _ => .missingInitializer ""
  | .dialectFeature _ => .dialectFeature ""
  | .noRuleApplies _ => .noRuleApplies ""
  | .missingPrecedenceLevel _ => .missingPrecedenceLevel ""
  | .internalInvariant _ => .internalInvariant ""
  | .sourceTooLarge _ _ => .sourceTooLarge 0 0

def Diagnostic.outline (diagnostic : Diagnostic) : Diagnostic :=
  ⟨diagnostic.cause.outline, .emptyAt 0⟩

theorem Diagnostic.isInternal_outline (diagnostic : Diagnostic) :
    diagnostic.outline.isInternal = diagnostic.isInternal := by
  obtain ⟨cause, span⟩ := diagnostic
  cases cause <;> rfl

def Token.outline (token : Token) : Token := ⟨token.kind, "", .emptyAt 0⟩

namespace Node

mutual

/-- The subtree with its slots, kinds and causes alone. -/
def outline : Node → Node
  | ⟨field, kind, _, children, diagnostic⟩ =>
    ⟨field, kind, .emptyAt 0, outlineAll children, diagnostic.map (·.outline)⟩

def outlineAll : List Node → List Node
  | [] => []
  | node :: rest => outline node :: outlineAll rest

end

theorem outlineAll_eq_map (nodes : List Node) : outlineAll nodes = nodes.map outline := by
  induction nodes with
  | nil => rfl
  | cons node nodes ih => rw [outlineAll, ih, List.map_cons]

@[simp] theorem outlineAll_nil : outlineAll [] = [] := rfl

@[simp] theorem outlineAll_append (front back : List Node) :
    outlineAll (front ++ back) = outlineAll front ++ outlineAll back := by
  simp [outlineAll_eq_map]

@[simp] theorem outlineAll_singleton (node : Node) : outlineAll [node] = [node.outline] := rfl

@[simp] theorem outline_kind (node : Node) : node.outline.kind = node.kind := by
  cases node
  rfl

@[simp] theorem outline_field (node : Node) : node.outline.field = node.field := by
  cases node
  rfl

@[simp] theorem outline_children (node : Node) :
    node.outline.children = outlineAll node.children := by
  cases node
  rfl

@[simp] theorem outline_withField (node : Node) (field : Field) :
    (node.withField field).outline = node.outline.withField field := by
  cases node
  rfl

theorem outline_ofToken (token : Token) :
    (ofToken token).outline = (ofToken token.outline).outline := by
  obtain ⟨kind, value, span⟩ := token
  cases kind
  case error reason => cases reason <;> rfl
  all_goals rfl

theorem outline_ofTokenAs (kind : Option NodeKind) (token : Token) :
    (ofTokenAs kind token).outline = (ofTokenAs kind token.outline).outline := by
  cases kind with
  | none => exact outline_ofToken token
  | some kind => rfl

theorem outline_ofChildren (kind : NodeKind) (start : UInt32) (nodes : List Node) :
    (ofChildren kind start nodes).outline = ⟨none, kind, .emptyAt 0, outlineAll nodes, none⟩ := rfl

@[simp] theorem childByField?_outline (node : Node) (field : Field) :
    node.outline.childByField? field = (node.childByField? field).map outline := by
  simp only [childByField?, outline_children, outlineAll_eq_map, List.find?_map]
  congr 2
  funext child
  simp

@[simp] theorem innerInField_outline (node : Node) (field : Field) :
    node.outline.innerInField field = outlineAll (node.innerInField field) := by
  unfold innerInField
  simp only [outline_kind, outline_children]
  rcases node.children with _ | ⟨opening, _ | ⟨inner, _ | ⟨closing, _ | ⟨more, rest⟩⟩⟩⟩
  case cons.cons.cons.nil =>
    by_cases hkind : node.kind = .groupedExpression
    · simp [hkind, outlineAll]
    · simp [hkind, outlineAll]
  all_goals simp [outlineAll]

theorem sexp_outline : (node : Node) → node.outline.sexp = node.sexp
  | ⟨_, kind, _, children, _⟩ => by
    rw [outline, sexp, sexp, sexpAll_outlineAll children]
where
  /-- The same for the nodes of a list. -/
  sexpAll_outlineAll : (nodes : List Node) → sexpAll (outlineAll nodes) = sexpAll nodes
    | [] => rfl
    | node :: rest => by
      rw [outlineAll, sexpAll, sexpAll, outline_kind, outline_field, sexp_outline node,
        sexpAll_outlineAll rest]

end Node

theorem replaceLast_outlineAll {change : Node → List Node} (nodes : List Node)
    (hchange : ∀ node, change node.outline = Node.outlineAll (change node)) :
    Node.outlineAll (replaceLast change nodes) = replaceLast change (Node.outlineAll nodes) := by
  induction nodes with
  | nil => rfl
  | cons node rest ih =>
    cases rest with
    | nil => exact (hchange node).symm
    | cons second rest => simp only [Node.outlineAll, replaceLast] at ih ⊢; rw [ih]

theorem Operand.ofNodes_outlineAll (nodes : List Node) :
    ofNodes (Node.outlineAll nodes) = ofNodes nodes := by
  simp only [ofNodes, Node.outlineAll_eq_map, List.getLast?_map, Option.map_map]
  congr 1
  funext node
  simp [Option.map_map, Function.comp_def]

theorem Failure.outline_diagnostic (failure : Failure) (name : String) (token : Token)
    (nodes : List Node) :
    (failure.diagnostic name token nodes).outline =
      (failure.diagnostic "" token.outline (Node.outlineAll nodes)).outline := by
  have htoken {otherwise otherwise' : Cause} (h : otherwise.outline = otherwise'.outline) :
      (Diagnostic.ofToken token otherwise).outline =
        (Diagnostic.ofToken token.outline otherwise').outline := by
    obtain ⟨kind, value, span⟩ := token
    cases kind
    case error reason => cases reason <;> rfl
    all_goals simp [Diagnostic.ofToken, Diagnostic.outline, Token.outline, h]
  cases failure
  case expected | unexpected | noRuleApplies => exact htoken rfl
  case misplacedNode => cases nodes <;> rfl
  all_goals rfl

namespace TokenStream

structure SameKinds (stream other : TokenStream) : Prop where
  size : stream.body.size = other.body.size
  kind : ∀ index, stream.kind index = other.kind index

namespace SameKinds

variable {stream other : TokenStream} (h : stream.SameKinds other)

include h

theorem outline_get (index : Nat) : (stream.get index).outline = (other.get index).outline := by
  have hkind := h.kind index
  simp only [TokenStream.kind] at hkind
  simp [Token.outline, hkind]

theorem examine (cursor : Cursor) (index : Nat) :
    cursor.examine stream index = cursor.examine other index := by
  simp [Cursor.examine, TokenStream.clamp, h.size]

theorem examineHere (cursor : Cursor) : cursor.examineHere stream = cursor.examineHere other :=
  h.examine cursor cursor.position

theorem advance (cursor : Cursor) : cursor.advance stream = cursor.advance other := by
  simp [Cursor.advance, h.examineHere, h.kind]

theorem skipUntil (cursor : Cursor) (recovery : Recovery) (fuel : Nat) :
    cursor.skipUntil recovery stream fuel = cursor.skipUntil recovery other fuel := by
  induction fuel generalizing cursor with
  | zero => rfl
  | succ fuel ih => simp only [Cursor.skipUntil, h.kind, h.examineHere, h.advance, ih]

theorem skip (cursor : Cursor) (recovery : Recovery) (start : Nat) :
    cursor.skip recovery stream start = cursor.skip recovery other start := by
  simp only [Cursor.skip, h.kind, h.advance, h.skipUntil, TokenStream.size, h.size]

theorem outline_errorNode (start stop : Nat) {diagnostic diagnostic' : Diagnostic}
    (hdiagnostic : diagnostic.outline = diagnostic'.outline) :
    (stream.errorNode start stop diagnostic).outline =
      (other.errorNode start stop diagnostic').outline := by
  have htokens : Node.outlineAll ((stream.slice start stop).map Node.ofToken) =
      Node.outlineAll ((other.slice start stop).map Node.ofToken) := by
    simp only [Node.outlineAll_eq_map, TokenStream.slice, List.map_map]
    refine List.map_congr_left fun index _ => ?_
    rw [Function.comp_apply, Function.comp_apply, Node.outline_ofToken, h.outline_get,
      ← Node.outline_ofToken]
    rfl
  simp only [TokenStream.errorNode, Node.ofChildren, Node.outline, htokens, Option.map_some,
    hdiagnostic]

omit h in
theorem of_map_kind (h : stream.toList.map (·.kind) = other.toList.map (·.kind)) :
    stream.SameKinds other := by
  have hbody : stream.body.toList.map (·.kind) = other.body.toList.map (·.kind) := by
    simp only [TokenStream.toList, List.map_append] at h
    exact List.append_inj_left' h rfl
  have hsize : stream.body.size = other.body.size := by simpa using congrArg List.length hbody
  refine ⟨hsize, fun index => ?_⟩
  by_cases hindex : index < stream.body.size
  · have hindex' : index < other.body.size := hsize ▸ hindex
    have hkind := congrArg (·[index]?) hbody
    simpa [TokenStream.kind, TokenStream.get, hindex, hindex'] using hkind
  · rw [kind_eq_eof_of_le (by omega), kind_eq_eof_of_le (by omega)]

end SameKinds

end TokenStream

def Outcome.Alike : Outcome (List Node) → Outcome (List Node) → Prop
  | .done nodes cursor, .done nodes' cursor' =>
    Node.outlineAll nodes = Node.outlineAll nodes' ∧ cursor = cursor'
  | .failed diagnostic cursor, .failed diagnostic' cursor' =>
    diagnostic.outline = diagnostic'.outline ∧ cursor = cursor'
  | _, _ => False

theorem Outcome.Alike.cases {outcome outcome' : Outcome (List Node)} (h : outcome.Alike outcome') :
    (∃ nodes nodes' cursor, outcome = .done nodes cursor ∧ outcome' = .done nodes' cursor ∧
      Node.outlineAll nodes = Node.outlineAll nodes') ∨
    ∃ diagnostic diagnostic' cursor, outcome = .failed diagnostic cursor ∧
      outcome' = .failed diagnostic' cursor ∧ diagnostic.outline = diagnostic'.outline := by
  rcases outcome with ⟨nodes, cursor⟩ | ⟨diagnostic, cursor⟩ <;>
    rcases outcome' with ⟨nodes', cursor'⟩ | ⟨diagnostic', cursor'⟩
  · obtain ⟨hnodes, rfl⟩ := h
    exact .inl ⟨nodes, nodes', cursor, rfl, rfl, hnodes⟩
  · exact h.elim
  · exact h.elim
  · obtain ⟨hdiagnostic, rfl⟩ := h
    exact .inr ⟨diagnostic, diagnostic', cursor, rfl, rfl, hdiagnostic⟩

/-- What the action does in two streams depends on nothing but outlines. -/
def Action.KindBound (stream other : TokenStream) (action : Action) : Prop :=
  ∀ (dialect : Dialect) (context : Context) (name name' : String) (nodes nodes' : List Node)
    (cursor : Cursor), Node.outlineAll nodes = Node.outlineAll nodes' →
    (action ⟨stream, dialect, context, name⟩ nodes cursor).Alike
      (action ⟨other, dialect, context, name'⟩ nodes' cursor)

section Runs

variable {stream other : TokenStream}

/-- Rules see the kinds of tokens and nodes and nothing else. -/
theorem Rule.run_kindBound {expand : Nonterminal → Action} (hsame : stream.SameKinds other)
    (hexpand : ∀ name, (expand name).KindBound stream other) (rule : Rule) :
    Action.KindBound stream other (rule.run expand) := by
  intro dialect context name name' nodes nodes' cursor hnodes
  induction rule generalizing dialect context name name' nodes nodes' cursor with
  | empty => exact ⟨hnodes, rfl⟩
  | seq first next ihFirst ihNext =>
    rcases (ihFirst dialect context name name' nodes nodes' cursor hnodes).cases with
      ⟨more, more', after, hrun, hrun', hmore⟩ |
        ⟨diagnostic, diagnostic', after, hrun, hrun', hdiagnostic⟩ <;> simp only [run, hrun, hrun']
    · exact ihNext _ _ _ _ _ _ _ hmore
    · exact ⟨hdiagnostic, rfl⟩
  | take kind =>
    refine ⟨?_, hsame.advance cursor⟩
    rw [Node.outlineAll_append, Node.outlineAll_append, hnodes, Node.outlineAll_singleton,
      Node.outlineAll_singleton, Node.outline_ofTokenAs, hsame.outline_get,
      ← Node.outline_ofTokenAs]
  | look distance next ih =>
    simp only [run, hsame.kind, hsame.examine]
    exact ih _ _ _ _ _ _ _ _ hnodes
  | fail failure =>
    refine ⟨?_, hsame.examineHere cursor⟩
    rw [Failure.outline_diagnostic, hsame.outline_get, hnodes, ← Failure.outline_diagnostic]
  | label field =>
    refine ⟨?_, rfl⟩
    rw [replaceLast_outlineAll _ (by simp), replaceLast_outlineAll _ (by simp), hnodes]
  | labelInner field =>
    refine ⟨?_, rfl⟩
    rw [replaceLast_outlineAll _ (by simp), replaceLast_outlineAll _ (by simp), hnodes]
  | wrap kind =>
    have hempty : nodes.isEmpty = nodes'.isEmpty := by
      simpa [Node.outlineAll_eq_map] using congrArg List.isEmpty hnodes
    refine ⟨?_, by rw [hempty, hsame.examineHere]⟩
    rw [Node.outlineAll_singleton, Node.outlineAll_singleton, Node.outline_ofChildren,
      Node.outline_ofChildren, hnodes]
  | apart rule ih =>
    rcases (ih dialect context name name' [] [] cursor rfl).cases with
      ⟨more, more', after, hrun, hrun', hmore⟩ |
        ⟨diagnostic, diagnostic', after, hrun, hrun', hdiagnostic⟩ <;> simp only [run, hrun, hrun']
    · exact ⟨by simp [hnodes, hmore], rfl⟩
    · exact ⟨hdiagnostic, rfl⟩
  | call callee => exact hexpand callee _ _ _ _ _ _ _ hnodes
  | within inner rule ih => exact ih _ _ _ _ _ _ _ hnodes
  | byContext next ih => exact ih _ _ _ _ _ _ _ _ hnodes
  | byDialect next ih => exact ih _ _ _ _ _ _ _ _ hnodes
  | byOperand next ih =>
    have hoperand : Operand.ofNodes nodes = Operand.ofNodes nodes' := by
      rw [← Operand.ofNodes_outlineAll, hnodes, Operand.ofNodes_outlineAll]
    simp only [run, hoperand]
    exact ih _ _ _ _ _ _ _ _ hnodes
  | recover recovery rule ih =>
    rcases (ih dialect context name name' [] [] cursor rfl).cases with
      ⟨more, more', after, hrun, hrun', hmore⟩ |
        ⟨diagnostic, diagnostic', failed, hrun, hrun', hdiagnostic⟩ <;> simp only [run, hrun, hrun']
    · exact ⟨by simp [hnodes, hmore], rfl⟩
    · -- both failures are recovered from, or neither is
      have hinternal := congrArg Diagnostic.isInternal hdiagnostic
      rw [Diagnostic.isInternal_outline, Diagnostic.isInternal_outline] at hinternal
      simp only [TokenStream.recover, hinternal, hsame.skip, hsame.examine]
      by_cases hrecover : diagnostic'.isInternal <;>
        simp only [hrecover, Bool.false_eq_true, if_true, if_false]
      · exact ⟨hdiagnostic, rfl⟩
      · refine ⟨?_, rfl⟩
        rw [Node.outlineAll_append, Node.outlineAll_append, hnodes, Node.outlineAll_singleton,
          Node.outlineAll_singleton, hsame.outline_errorNode _ _ hdiagnostic]
  | attempt trial next otherwise ihTrial ihNext ihOtherwise =>
    rcases (ihTrial dialect context name name' nodes nodes' cursor hnodes).cases with
      ⟨more, more', after, hrun, hrun', hmore⟩ | ⟨_, _, failed, hrun, hrun', -⟩ <;>
      simp only [run, hrun, hrun']
    · exact ihNext _ _ _ _ _ _ _ hmore
    · exact ihOtherwise _ _ _ _ _ _ _ hnodes
  | naming rule ih =>
    simp only [run, hsame.examineHere]
    exact ih _ _ _ _ _ _ _ hnodes

theorem Nonterminal.run_kindBound (hsame : stream.SameKinds other) (depth : Nat)
    (name : Nonterminal) : Action.KindBound stream other (name.run depth) := by
  induction depth generalizing name with
  | zero => exact fun _ _ _ _ _ _ _ _ => ⟨rfl, rfl⟩
  | succ depth ih => exact name.rule.run_kindBound hsame ih

theorem Nonterminal.action_kindBound (hsame : stream.SameKinds other) (name : Nonterminal) :
    Action.KindBound stream other name.action := by
  have hdepth : callDepth stream = callDepth other := by
    simp [callDepth, TokenStream.size, hsame.size]
  intro dialect context name' name'' nodes nodes' cursor hnodes
  simp only [action, hdepth]
  exact name.run_kindBound hsame _ _ _ _ _ _ _ _ hnodes

namespace Setting

variable {dialect : Dialect}

theorem parseItem_outline (hsame : stream.SameKinds other) {cursor after after' : Cursor}
    {item item' : Node × ItemExtent}
    (h : (top stream dialect).parseItem cursor = .done item after)
    (h' : (top other dialect).parseItem cursor = .done item' after') :
    item.1.outline = item'.1.outline ∧ item.2 = item'.2 := by
  obtain ⟨hread, hextent⟩ := parseItem_eq_done_iff.mp h
  obtain ⟨hread', hextent'⟩ := parseItem_eq_done_iff.mp h'
  have halike : (Rule.itemOrError.run Nonterminal.action (top stream dialect) []
      cursor.resetFurthest).Alike
        (Rule.itemOrError.run Nonterminal.action (top other dialect) [] cursor.resetFurthest) :=
    Rule.itemOrError.run_kindBound hsame (Nonterminal.action_kindBound hsame) _ _ _ _ _ _ _ rfl
  rw [hread, hread'] at halike
  obtain ⟨hnode, rfl⟩ := halike
  exact ⟨by simpa using hnode, by rw [hextent, hextent']⟩

theorem Items.outline (hsame : stream.SameKinds other) {start : Nat}
    {items items' : List (Node × ItemExtent)} (h : (top stream dialect).Items start items)
    (h' : (top other dialect).Items start items') :
    Node.outlineAll (items.map (·.1)) = Node.outlineAll (items'.map (·.1)) ∧
      items.map (·.2) = items'.map (·.2) := by
  induction h generalizing items' with
  | finish eof =>
    cases h' with
    | finish => exact ⟨rfl, rfl⟩
    | item kind => exact absurd ((hsame.kind _).symm.trans eof) kind
  | item kind read _ ih =>
    cases h' with
    | finish eof => exact absurd ((hsame.kind _).trans eof) kind
    | item _ read' tail' =>
      obtain ⟨hnode, hextent⟩ := parseItem_outline hsame read read'
      rw [← hextent] at tail'
      obtain ⟨hnodes, hextents⟩ := ih tail'
      simp only [List.map_cons, Node.outlineAll, hnode, hextent, hnodes, hextents, and_self]

end Setting

namespace SyntaxTree

variable {source source' : String} {dialect : Dialect} {items items' : List (Node × ItemExtent)}

theorem outline_ofItems (hsame : stream.SameKinds other)
    (h : (Setting.top stream dialect).Items 0 items)
    (h' : (Setting.top other dialect).Items 0 items') :
    (ofItems source stream items dialect).root.outline =
        (ofItems source' other items' dialect).root.outline ∧
      (ofItems source stream items dialect).items =
        (ofItems source' other items' dialect).items := by
  obtain ⟨hnodes, hextents⟩ := h.outline hsame h'
  exact ⟨by simp only [ofItems, rootOf, Node.ofChildren, Node.outline, hnodes], hextents⟩

/-- How a source is read depends on the kinds of its tokens alone: sources whose tokens have the
same kinds have trees with the same kinds of nodes in the same slots, the same causes of errors at
the same nodes, and items of the same extents. Layout, comments, names and the contents of literals
have no say in it. -/
theorem outline_parse {tree tree' : SyntaxTree} (h : parse source dialect = .ok tree)
    (h' : parse source' dialect = .ok tree')
    (hkinds : (tokenizeSignificant source).map (·.kind) =
      (tokenizeSignificant source').map (·.kind)) :
    tree.root.outline = tree'.root.outline ∧ tree.items = tree'.items := by
  obtain ⟨-, stream, items, hof, hitems, rfl⟩ := eq_ofItems_of_parse h
  obtain ⟨-, stream', items', hof', hitems', rfl⟩ := eq_ofItems_of_parse h'
  have hsame : stream.SameKinds stream' := by
    refine .of_map_kind ?_
    rw [hof, hof', hkinds]
  exact outline_ofItems hsame hitems hitems'

/-- A malformed head of a function, with and without a comment, and with other names. -/
theorem outline_parse_malformed :
    ∃ tree tree', parse "fn f(a \x7b let x = 'y' @ \x7d" .canonical = .ok tree ∧
      parse "fn g(bb\x7b// none\n let i='\\n' # \x7d" .canonical = .ok tree' ∧
      (tokenizeSignificant "fn f(a \x7b let x = 'y' @ \x7d").map (·.kind) =
        (tokenizeSignificant "fn g(bb\x7b// none\n let i='\\n' # \x7d").map (·.kind) ∧
      tree.root.outline = tree'.root.outline ∧ tree.items = tree'.items := by
  have hlength : Text.byteLength "fn f(a \x7b let x = 'y' @ \x7d".toList ≤ maxSourceLength := by
    decide
  have hlength' :
      Text.byteLength "fn g(bb\x7b// none\n let i='\\n' # \x7d".toList ≤ maxSourceLength := by
    decide
  obtain ⟨stream, items, -, -, htree⟩ := parse_eq_ok .canonical hlength
  obtain ⟨stream', items', -, -, htree'⟩ := parse_eq_ok .canonical hlength'
  have hkinds : (tokenizeSignificant "fn f(a \x7b let x = 'y' @ \x7d").map (·.kind) =
      (tokenizeSignificant "fn g(bb\x7b// none\n let i='\\n' # \x7d").map (·.kind) := by
    decide +kernel
  exact ⟨_, _, htree, htree', hkinds, outline_parse htree htree' hkinds⟩

end SyntaxTree

end Runs

end LosslessSyntax
