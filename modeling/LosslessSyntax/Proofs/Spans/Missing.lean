import LosslessSyntax.Proofs.Execution
import LosslessSyntax.Proofs.Licence
import LosslessSyntax.Proofs.Spans.Covers
/-!
Errors that stand for nothing: a list of parameters can be missing altogether, and then an error
without text fills its slot. No other error is without text, since whatever else is recovered from
begins at a token and takes it.
-/
namespace LosslessSyntax

open Node (Throughout)

def Node.Placed (node : Node) : Prop :=
  node.kind = .error → node.span.isEmpty → node.field.isSome

/-- The nodes are placed, but for the last one if a slot is still to come for it. -/
def Node.Settled (pending : Bool) (nodes : List Node) : Prop :=
  Throughout Placed nodes ∨
    pending ∧ ∃ front last, nodes = front ++ [last] ∧ Throughout Placed front ∧
      Throughout Placed last.children

def Rule.isLabel : Rule → Bool
  | .label _ => true
  | _ => false

/-- From a position on a rule makes no error without text, unless a slot is to come for it. -/
def Rule.Places (kinds : Nat → TokenKind) : Bool → Rule → Nat → Prop
  | _, .empty, _ | _, .fail _, _ | _, .label _, _ | _, .labelInner _, _ => True
  | pending, .seq first next, position =>
    first.Places kinds next.isLabel position ∧ ∀ later, next.Places kinds pending later
  | _, .take kind, _ => kind ≠ some .error
  | pending, .look distance next, position =>
    (next (kinds (position + distance))).Places kinds pending position
  | _, .wrap kind, _ => kind ≠ .error
  | pending, .apart rule, position => rule.Places kinds pending position
  | pending, .call name, _ => name = .parameterList → pending
  | pending, .within _ rule, position => rule.Places kinds pending position
  | pending, .byContext next, position => ∀ context, (next context).Places kinds pending position
  | pending, .byDialect next, position => ∀ dialect, (next dialect).Places kinds pending position
  | pending, .byOperand next, position => ∀ operand, (next operand).Places kinds pending position
  | pending, .recover recovery rule, position =>
    (pending ∨ recovery.forceProgress ∧ kinds position ≠ .eof) ∧ rule.Places kinds pending position
  | pending, .attempt trial next otherwise, position =>
    trial.Places kinds false position ∧ (∀ later, next.Places kinds pending later) ∧
      otherwise.Places kinds pending position
  | pending, .naming rule, position => rule.Places kinds pending position

namespace Rule

variable {kinds : Nat → TokenKind} {pending : Bool} {position : Nat} {rule next yes no : Rule}
  {rules : List Rule} {kind : TokenKind} {field : Field}

attribute [simp] Places

@[simp] theorem places_ite {c : Prop} [Decidable c] :
    (if c then yes else no).Places kinds pending position ↔
      (c → yes.Places kinds pending position) ∧ (¬c → no.Places kinds pending position) := by
  split <;> simp [*]

@[simp] theorem places_steps_singleton :
    (steps [rule]).Places kinds pending position ↔ rule.Places kinds pending position := Iff.rfl

@[simp] theorem places_steps_cons :
    (steps (rule :: next :: rules)).Places kinds pending position ↔
      rule.Places kinds (steps (next :: rules)).isLabel position ∧
        ∀ later, (steps (next :: rules)).Places kinds pending later := Iff.rfl

@[simp] theorem places_onKind {next : TokenKind → Rule} :
    (onKind next).Places kinds pending position ↔
      (next (kinds position)).Places kinds pending position := Iff.rfl

@[simp] theorem places_ifAt :
    (ifAt kind yes no).Places kinds pending position ↔
      (kinds position = kind → yes.Places kinds pending position) ∧
        (kinds position ≠ kind → no.Places kinds pending position) := by
  simp [ifAt]

@[simp] theorem places_inField :
    (inField field rule).Places kinds pending position ↔ rule.Places kinds true position :=
  and_iff_left fun _ => trivial

@[simp] theorem places_child {name : Nonterminal} :
    (child name).Places kinds pending position ↔ (name = .parameterList → pending) := Iff.rfl

@[simp] theorem places_expectAs {what : String} :
    (expectAs kind what).Places kinds pending position := by
  simp [expectAs]

@[simp] theorem places_expect : (expect kind).Places kinds pending position := places_expectAs

@[simp] theorem places_optional : (Rule.optional kind).Places kinds pending position := by
  simp [Rule.optional]

end Rule

namespace Grammar

variable {kinds : Nat → TokenKind} {position : Nat} {pending : Bool} {rule yes no : Rule}

@[simp] theorem places_anyType : anyType.Places kinds pending position := by simp [anyType]

@[simp] theorem places_typeField : typeField.Places kinds pending position := by simp [typeField]

@[simp] theorem places_innerExpression : innerExpression.Places kinds pending position := by
  simp [innerExpression]

@[simp] theorem places_defaultExpression : defaultExpression.Places kinds pending position := by
  simp [defaultExpression]

@[simp] theorem places_branch : branch.Places kinds pending position := by simp [branch]

@[simp] theorem places_returnType : returnType.Places kinds pending position := by
  simp [returnType, ifStartsReturnType]

@[simp] theorem places_typeAnnotation : typeAnnotation.Places kinds pending position := by
  unfold typeAnnotation
  simp

@[simp] theorem places_structFields : structFields.Places kinds pending position := by
  simp [structFields]

@[simp] theorem places_structLiteral : structLiteral.Places kinds pending position := by
  simp [structLiteral]

@[simp] theorem places_ifStartsExpression :
    (ifStartsExpression yes no).Places kinds pending position ↔ ∀ dialect,
      (startsExpression dialect (kinds position) → yes.Places kinds pending position) ∧
        (startsExpression dialect (kinds position) = false → no.Places kinds pending position) := by
  simp [ifStartsExpression]

theorem places_unlessBodyEnds (h : kinds position ≠ .eof → rule.Places kinds pending position) :
    (unlessBodyEnds rule).Places kinds pending position := by
  simp only [unlessBodyEnds, Rule.places_onKind]
  split
  · trivial
  · trivial
  · rename_i heof
    simp [ifItemStarts, h heof]

theorem places_operation {kind : TokenKind} {own : BindingPower} {operation : BindingPower → Rule}
    (h : operation? kind = some operation) : (operation own).Places kinds pending position := by
  cases operatesBy_of_operation? h with
  | assignment => simp [assignment]
  | plusEquals => simp [assignment]
  | cast => simp [Grammar.cast]
  | range => simp [range]
  | member =>
    simp [member]
    intro later
    split <;> simp
  | optionalChain =>
    simp [optionalChain]
    intro later
    split <;> simp
  | index => simp [index]
  | functionCall => simp [functionCall]
  | matchExpression => simp [matchExpression]
  | binary => simp [binary]

end Grammar

namespace Nonterminal

open Grammar

variable {kinds : Nat → TokenKind} {position : Nat}

/-- A slot is to come for a list of parameters, and there alone an error can be without text. -/
theorem places_rule (name : Nonterminal) :
    name.rule.Places kinds (name = .parameterList) position := by
  cases name with
  | item =>
    simp [rule, Grammar.item, directive]
    intro later
    fun_cases itemForm? (kinds later) <;> simp
  | functionDefinition => simp [rule, Grammar.functionDefinition]
  | structDefinition =>
    simp [rule, Grammar.structDefinition, genericParameters, memberBody]
    intro later
    split <;> simp
  | enumDefinition => simp [rule, Grammar.enumDefinition, genericParameters, memberBody]
  | constDeclaration => simp [rule, Grammar.constDeclaration]
  | importDeclaration => simp [rule, Grammar.importDeclaration]
  | pathSteps => simp [rule, Grammar.pathSteps]
  | testBlock =>
    simp [rule, Grammar.testBlock]
    intro operand
    split <;> simp
  | parameterList => simp [rule, Grammar.parameterList]
  | members body =>
    refine places_unlessBodyEnds fun heof => ?_
    cases body
    · simp [heof, Recovery.member, memberOf, structField]
    · simp [heof, Recovery.member, memberOf, enumVariant, variantParameters, variantValue]
  | block => simp [rule, Grammar.block]
  | statements =>
    refine places_unlessBodyEnds fun heof => ?_
    simp [heof, Recovery.statement]
  | statement =>
    simp [rule, Grammar.statement]
    fun_cases statementForm? (kinds position) <;> simp
  | variableDeclaration =>
    simp [rule, Grammar.variableDeclaration]
    split <;> simp
  | returnStatement => simp [rule, Grammar.returnStatement]
  | deferStatement => simp [rule, Grammar.deferStatement]
  | ifStatement => simp [rule, Grammar.ifStatement]
  | forStatement => simp [rule, Grammar.forStatement, forHeader]
  | loopStatement => simp [rule, Grammar.loopStatement]
  | jump => simp [rule, Grammar.jump]
  | pattern =>
    simp [rule, Grammar.pattern]
    split <;> simp [variantPattern, bareVariant, variantPayload]
  | expression power =>
    simp [rule, Grammar.expression]
    fun_cases leadingForm? (kinds position) <;> simp
  | operators power =>
    simp only [rule, Grammar.operators, Rule.places_onKind]
    split
    · simp
      split
      · rename_i hoperation
        simp [places_operation hoperation]
      · simp [Rule.withoutHandler]
    · trivial
  | primary =>
    simp [rule, Grammar.primary]
    split <;> simp
  | typeNameExpression =>
    simp [rule, Grammar.typeNameExpression]
    intro _ _
    split <;> simp
  | anonymousStruct => simp [rule, Grammar.anonymousStruct]
  | grouping => simp [rule, Grammar.grouping]
  | arrayLiteral => simp [rule, Grammar.arrayLiteral]
  | unary => simp [rule, Grammar.unary]
  | conditional =>
    have halternative (context : Context) (later : Nat) :
        (alternative context).Places kinds true later := by
      simp [alternative]
      split <;> simp
    simp [rule, Grammar.conditional, halternative]
    intro context
    split <;> simp
  | ifExpression => simp [rule, Grammar.ifExpression]
  | lambda => simp [rule, Grammar.lambda]
  | arms =>
    simp only [rule, Grammar.arms, Rule.places_onKind]
    split
    · trivial
    · trivial
    · rename_i heof
      have hne : kinds position ≠ .eof := heof
      simp [hne, Recovery.arm, matchArm]
  | type power =>
    simp [rule, Grammar.type]
    fun_cases typeForm? (kinds position) <;> simp
  | suffixes power =>
    simp [rule, Grammar.suffixes]
    fun_cases suffixPower? (kinds position) <;> simp [suffix?]
  | primitiveType => simp [rule, Grammar.primitiveType]
  | genericTypeParameter => simp [rule, Grammar.genericTypeParameter]
  | referenceType => simp [rule, Grammar.referenceType]
  | arrayType => simp [rule, Grammar.arrayType]
  | functionType => simp [rule, Grammar.functionType]
  | tupleType => simp [rule, Grammar.tupleType]
  | namedType => simp [rule, Grammar.namedType]
  | genericArguments => simp [rule, Grammar.genericArguments]
  | list listing =>
    simp [rule, Grammar.list]
    cases listing <;> simp [element, parameter, fieldEntry, signatureType]
  | more continuation =>
    simp [rule, Grammar.more]
    cases continuation <;> simp [continuationElement]

end Nonterminal

section Runs

variable {expand : Nonterminal → Action} {setting : Setting} {nodes more : List Node}
  {cursor : Cursor} {pending : Bool}

namespace Node

theorem Placed.withField (node : Node) (field : Field) : (node.withField field).Placed :=
  fun _ _ => rfl

theorem placed_of_kind {node : Node} (h : node.kind ≠ .error) : node.Placed :=
  fun hkind => absurd hkind h

theorem throughout_placed_label (h : Throughout Placed nodes) (field : Field) :
    Throughout Placed (replaceLast (fun node => [node.withField field]) nodes) :=
  h.replaceLast fun node hnode => by
    simp only [throughout_cons, throughout_nil, and_true] at hnode ⊢
    exact ⟨.withField node field, hnode.2⟩

theorem Settled.label (h : Settled true nodes) (field : Field) :
    Throughout Placed (replaceLast (fun node => [node.withField field]) nodes) := by
  rcases h with h | ⟨-, front, last, rfl, hfront, hlast⟩
  · exact throughout_placed_label h field
  · rw [replaceLast_concat, throughout_append, throughout_cons]
    exact ⟨hfront, .withField last field, hlast, throughout_nil⟩

theorem Settled.append (hnodes : Throughout Placed nodes) (h : Settled pending more) :
    Settled pending (nodes ++ more) := by
  rcases h with h | ⟨hpending, front, last, rfl, hfront, hlast⟩
  · exact .inl (throughout_append.mpr ⟨hnodes, h⟩)
  · exact .inr ⟨hpending, nodes ++ front, last, (List.append_assoc ..).symm,
      throughout_append.mpr ⟨hnodes, hfront⟩, hlast⟩

theorem placed_ofToken {stream : TokenStream} (hordered : stream.Ordered) (index : Nat) :
    (ofToken (stream.get index)).Placed := by
  intro hkind hempty
  by_cases hindex : index < stream.body.size
  · have hlt := hordered.lt index hindex
    have heq : (stream.get index).span.start = (stream.get index).span.stop := by
      simpa [ofToken, leaf, Span.isEmpty] using hempty
    rw [heq] at hlt
    exact absurd hlt (lt_irrefl _)
  · have heof : (stream.get index).kind = .eof := TokenStream.kind_eq_eof_of_le (by omega)
    simp [ofToken, leaf, heof, NodeKind.ofToken] at hkind

end Node

theorem TokenStream.settled_errorNode {stream : TokenStream} {start stop : Nat}
    {diagnostic : Diagnostic} (hordered : stream.Ordered)
    (h : pending ∨ start < stop ∧ stop ≤ stream.body.size) :
    Node.Settled pending [stream.errorNode start stop diagnostic] := by
  have htokens := Node.placed_ofToken hordered
  rcases h with hpending | ⟨hlt, hstop⟩
  · exact .inr ⟨hpending, [], _, rfl, Node.throughout_nil,
      Node.throughout_children_errorNode htokens⟩
  · refine .inl (Node.throughout_errorNode htokens fun _ hempty => ?_)
    have hcovers : Covers stream start stop [stream.errorNode start stop diagnostic] :=
      .errorNode hlt.le hstop
    rw [hcovers.isEmpty_eq_false hordered (hlt.le.trans hstop) hlt] at hempty
    contradiction

namespace Nonterminal

def AllPlace (expand : Nonterminal → Action) (stream : TokenStream) : Prop :=
  ∀ (name : Nonterminal) (setting : Setting) (nodes : List Node) (cursor : Cursor),
    setting.stream = stream → Throughout Node.Placed nodes →
      (expand name setting nodes cursor).Satisfies True fun after _ =>
        Node.Settled (name = .parameterList) after

end Nonterminal

open Node in
theorem Rule.Places.satisfies {rule : Rule} {stream : TokenStream} (hordered : stream.Ordered)
    (hexpand : ∀ name, (expand name).Advances)
    (hcalls : Nonterminal.AllPlace expand stream) (hstream : setting.stream = stream)
    (h : rule.Places stream.kind pending cursor.position) (hnodes : Throughout Placed nodes) :
    (rule.run expand setting nodes cursor).Satisfies True fun after _ => Settled pending after := by
  induction rule generalizing setting nodes cursor pending with
  | empty => exact .inl hnodes
  | seq first next ihFirst ihNext =>
    rw [satisfies_seq]
    refine (ihFirst hstream h.1 hnodes).imp fun {middle cursor} hfirst => ?_
    rcases hfirst with hmiddle | hpending
    · exact ihNext hstream (h.2 _) hmiddle
    · -- an error without text is left over, so what comes next has to give it a slot
      cases next with
      | label field => exact .inl (Settled.label (.inr ⟨rfl, hpending.2⟩) field)
      | _ => exact absurd hpending.1 Bool.false_ne_true
  | take kind =>
    rw [satisfies_take]
    refine .inl (throughout_append.mpr ⟨hnodes, ?_⟩)
    simp only [throughout_cons, throughout_nil, and_true]
    cases kind with
    | none =>
      subst hstream
      exact ⟨placed_ofToken hordered _, throughout_nil⟩
    | some kind => exact ⟨placed_of_kind fun hkind => h (congrArg some hkind), throughout_nil⟩
  | look distance next ih =>
    subst hstream
    exact ih _ rfl h hnodes
  | fail => trivial
  | label field => exact .inl (throughout_placed_label hnodes field)
  | labelInner field =>
    refine .inl (hnodes.replaceLast fun node hnode => ?_)
    exact hnode.innerInField (fun node field _ => .withField node field) field
  | wrap kind =>
    rw [satisfies_wrap]
    exact .inl (throughout_cons.mpr ⟨placed_of_kind h, hnodes, throughout_nil⟩)
  | apart rule ih =>
    rw [satisfies_apart]
    exact (ih hstream h throughout_nil).imp fun hmore => hmore.append hnodes
  | call name =>
    refine (hcalls name setting nodes cursor hstream hnodes).imp fun hafter => ?_
    exact hafter.imp_right (And.imp_left fun hname => h (of_decide_eq_true hname))
  | within context rule ih => exact ih hstream h hnodes
  | byContext next ih => exact ih _ hstream (h _) hnodes
  | byDialect next ih => exact ih _ hstream (h _) hnodes
  | byOperand next ih => exact ih _ hstream (h _) hnodes
  | recover recovery rule ih =>
    subst hstream
    obtain ⟨hforced, hrule⟩ := h
    have hinner := ih rfl hrule throughout_nil
    have hreaches := rule.run_advances hexpand setting [] cursor
    simp only [run, TokenStream.recover]
    split <;> rename_i hrun <;> rw [hrun] at hinner hreaches
    · exact Settled.append hnodes hinner
    · rename_i diagnostic failed
      by_cases hinternal : diagnostic.isInternal
      · simp only [hinternal, if_true, Outcome.Satisfies]
      · simp only [hinternal, Bool.false_eq_true, if_false]
        refine Settled.append hnodes (TokenStream.settled_errorNode hordered ?_)
        refine hforced.imp_right fun hforced => ?_
        have hlt := TokenStream.lt_of_kind_ne_eof hforced.2
        exact ⟨Cursor.lt_skip_position hreaches.position_le hforced.1 hforced.2,
          Cursor.skip_position_le recovery (hreaches.position_bound hlt.le) _⟩
  | attempt trial next otherwise ihTrial ihNext ihOtherwise =>
    refine satisfies_attempt ?_ fun furthest => ihOtherwise hstream h.2.2 hnodes
    refine (ihTrial hstream h.1 hnodes).imp fun {middle cursor} hmiddle => ?_
    exact ihNext hstream (h.2.1 _) (hmiddle.resolve_right (by simp))
  | naming rule ih => exact ih hstream h hnodes

namespace Nonterminal

variable {stream : TokenStream} (hordered : stream.Ordered)

include hordered

theorem allPlace_run (depth : Nat) : AllPlace (run depth) stream := by
  induction depth with
  | zero => exact fun _ _ _ _ _ _ => trivial
  | succ depth ih =>
    intro name setting nodes cursor hstream hnodes
    exact name.places_rule.satisfies hordered (run_advances depth) ih hstream hnodes

theorem allPlace_action : AllPlace action stream :=
  fun name setting => allPlace_run hordered (callDepth setting.stream) name setting

end Nonterminal

theorem Setting.Items.placed {stream : TokenStream} {dialect : Dialect} {start : Nat}
    {items : List (Node × ItemExtent)} (hordered : stream.Ordered)
    (h : (Setting.top stream dialect).Items start items) :
    Throughout Node.Placed (items.map (·.1)) := by
  induction h with
  | finish => exact Node.throughout_nil
  | @item start item after items kind read tail ih =>
    have hplaces : Rule.itemOrError.Places stream.kind false start :=
      ⟨.inr ⟨rfl, kind⟩, by simp⟩
    have hrun : (Rule.itemOrError.run Nonterminal.action (top stream dialect) []
        (Cursor.resetFurthest ⟨start, start⟩)).Satisfies True fun after _ =>
          Node.Settled false after :=
      hplaces.satisfies hordered Nonterminal.action_advances (Nonterminal.allPlace_action hordered)
        rfl Node.throughout_nil
    rw [(parseItem_eq_done_iff.mp read).1] at hrun
    exact Node.throughout_append.mpr ⟨hrun.resolve_right (by simp), ih⟩

end Runs

end LosslessSyntax
