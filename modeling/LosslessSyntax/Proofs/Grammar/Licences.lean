import LosslessSyntax.Proofs.Grammar.Sound
import LosslessSyntax.Proofs.Licence
/-!
The licence of each nonterminal. It tells apart the few productions that do what no other does: the
words that begin items are read by the forms of items alone, conditions and loops are made in one
place each, a node can be out of place before a test block only, arms begin behind a `match` and
a brace, and the suffixes of types are read and made in one loop, as references are in one place.
-/
namespace LosslessSyntax

open Rule

/-- Types over an operand that has no parentheses around it. -/
def NodeKind.typeOperators : List NodeKind := [.referenceType, .optionalType, .sliceType]

namespace Nonterminal

/-- The token at a position is the first of an item that begins at `start`, but for a `pub`. -/
def OpensAt (kinds : Nat → TokenKind) (start position : Nat) : Prop :=
  position = start ∨ position = start + 1 ∧ kinds start = .pubKeyword

def isInner : Nonterminal → Bool
  | .item | .functionDefinition | .structDefinition | .enumDefinition | .constDeclaration
  | .importDeclaration | .testBlock | .arms => false
  | _ => true

/-- Nonterminals that make one node of a fragment of their own. -/
def isFresh : Nonterminal → Bool
  | .item | .statement | .ifStatement | .forStatement | .conditional | .ifExpression
  | .expression _ | .type _ | .referenceType => true
  | _ => false

def readsSuffixes : Nonterminal → Bool
  | .type _ | .suffixes _ => true
  | _ => false

def makesOperators : Nonterminal → Bool
  | .referenceType | .suffixes _ => true
  | _ => false

def licence (kinds : Nat → TokenKind) (start : Nat) (name : Nonterminal) : Licence where
  takes position := Grammar.opensItem (kinds position) →
    name = .item ∧ OpensAt kinds start position ∨
      position = start ∧ Grammar.itemForm? (kinds position) = some name
  makes kind :=
    (kind = .ifStatement ∨ kind = .ifExpression → name = .conditional) ∧
      (kind = .forStatement → name = .forStatement) ∧
        (kind ∈ NodeKind.typeOperators → name.makesOperators)
  fails failure := ∀ message, failure = .misplacedNode message → name = .testBlock
  calls callee fresh position := (callee.isFresh → fresh) ∧
    (callee.isInner ∨
      (name = .item ∧ Grammar.itemForm? (kinds position) = some callee ∧
        (Grammar.opensItem (kinds position) → OpensAt kinds start position)) ∨
      callee = .arms ∧ (name = .arms ∨ kinds start = .matchKeyword ∧
        kinds (start + 1) = .openCurly ∧ position = start + 2)) ∧
    ∀ power, callee = .suffixes power → name.readsSuffixes
  recovers recovery position :=
    name = .arms ∨ (∀ kind, Grammar.opensItem kind → kind ∈ recovery.stop) ∧
      (recovery.forceProgress → Grammar.opensItem (kinds position) = false)

section Licence

variable {kinds : Nat → TokenKind} {start position : Nat} {name callee : Nonterminal}
  {kind : TokenKind} {failure : Failure} {recovery : Recovery}

theorem takes_licence (h : Grammar.opensItem (kinds position) = false) :
    (name.licence kinds start).takes position := by
  simp [licence, h]

@[simp] theorem makes_licence {kind : NodeKind} : (name.licence kinds start).makes kind ↔
    (kind = .ifStatement ∨ kind = .ifExpression → name = .conditional) ∧
      (kind = .forStatement → name = .forStatement) ∧
        (kind ∈ NodeKind.typeOperators → name.makesOperators) := Iff.rfl

@[simp] theorem fails_licence : (name.licence kinds start).fails failure ↔
    ∀ message, failure = .misplacedNode message → name = .testBlock := Iff.rfl

@[simp] theorem calls_licence {fresh : Bool} :
    (name.licence kinds start).calls callee fresh position ↔ (callee.isFresh → fresh) ∧
      (callee.isInner ∨
        (name = .item ∧ Grammar.itemForm? (kinds position) = some callee ∧
          (Grammar.opensItem (kinds position) → OpensAt kinds start position)) ∨
        callee = .arms ∧ (name = .arms ∨ kinds start = .matchKeyword ∧
          kinds (start + 1) = .openCurly ∧ position = start + 2)) ∧
      ∀ power, callee = .suffixes power → name.readsSuffixes := Iff.rfl

theorem recovers_licence (h : ∀ kind, Grammar.opensItem kind → kind ∈ recovery.stop)
    (hforce : recovery.forceProgress → Grammar.opensItem (kinds position) = false) :
    (name.licence kinds start).recovers recovery position := .inr ⟨h, hforce⟩

end Licence

end Nonterminal

namespace Rule

variable {licence : Licence} {kinds : Nat → TokenKind} {fresh : Bool} {goal : Nat → Prop}
  {position : Nat} {kind : TokenKind}

@[simp] theorem heeds_expectAs {what : String} :
    (expectAs kind what).Heeds licence kinds fresh goal position ↔
      (kinds position = kind → kind ≠ .eof ∧ licence.takes position ∧ goal (position + 1)) ∧
        (kinds position ≠ kind → licence.fails (.expected what)) := by
  simp +contextual [expectAs]

@[simp] theorem heeds_expect :
    (expect kind).Heeds licence kinds fresh goal position ↔
      (kinds position = kind → kind ≠ .eof ∧ licence.takes position ∧ goal (position + 1)) ∧
        (kinds position ≠ kind → licence.fails (.expected kind.text)) := heeds_expectAs

@[simp] theorem heeds_optional :
    (Rule.optional kind).Heeds licence kinds fresh goal position ↔
      (kinds position = kind → kind ≠ .eof ∧ licence.takes position ∧ goal (position + 1)) ∧
        (kinds position ≠ kind → goal position) := by
  simp +contextual [Rule.optional]

end Rule

attribute [local simp] Nonterminal.takes_licence Nonterminal.isInner
  Nonterminal.isFresh Nonterminal.readsSuffixes Nonterminal.makesOperators NodeKind.typeOperators
  Grammar.opensItem

namespace Grammar

variable {kinds : Nat → TokenKind} {start position : Nat} {fresh : Bool} {goal : Nat → Prop}
  {rule : Rule}

theorem mem_stop_of_opensItem {recovery : Recovery}
    (h : recovery ∈ [Recovery.item, .statement, .parameters, .member]) :
    ∀ kind, opensItem kind → kind ∈ recovery.stop := by
  revert recovery
  decide

theorem heeds_unlessBodyEnds {licence : Licence} (hgoal : goal position)
    (h : kinds position ≠ .eof → opensItem (kinds position) = false →
      rule.Heeds licence kinds fresh goal position) :
    (unlessBodyEnds rule).Heeds licence kinds fresh goal position := by
  simp only [unlessBodyEnds, heeds_onKind]
  split
  · exact hgoal
  · exact hgoal
  · rename_i heof
    simp only [ifItemStarts, heeds_onKind, heeds_ite, Heeds]
    refine ⟨fun _ => hgoal, fun hitem => ⟨fun _ => ⟨fun _ => hgoal, fun _ => ?_⟩, fun _ => ?_⟩⟩
    · exact h heof (by simpa using hitem)
    · exact h heof (by simpa using hitem)

end Grammar

namespace Nonterminal

open Grammar

theorem takes_itemForm {name : Nonterminal} {kinds : Nat → TokenKind} {start : Nat}
    (h : itemForm? (kinds start) = some name) : (name.licence kinds start).takes start :=
  fun _ => .inr ⟨rfl, h⟩

theorem expects_itemForm {kind : TokenKind} {form : Nonterminal} {ahead : List TokenKind}
    (h : itemForm? kind = some form) : form.Expects ahead := by
  revert h
  fun_cases itemForm? kind <;> rintro ⟨⟩ <;> trivial

theorem heeds_itemForm {kinds : Nat → TokenKind} {start position : Nat}
    (h : opensItem (kinds position) → OpensAt kinds start position) :
    (match itemForm? (kinds position) with
      | some form => Rule.call form
      | none => .fail (.expected "item")).Heeds (item.licence kinds start) kinds false
      (fun _ => True) position := by
  split
  · rename_i form hform
    have hfresh : form.isFresh → false := by
      revert hform
      fun_cases itemForm? (kinds position) <;> rintro ⟨⟩ <;> decide
    have hsuffixes (power : BindingPower) : form = suffixes power → item.readsSuffixes := by
      revert hform
      fun_cases itemForm? (kinds position) <;> rintro ⟨⟩ <;> rintro ⟨⟩
    exact ⟨⟨hfresh, .inr (.inl ⟨rfl, hform, h⟩), hsuffixes⟩, expects_itemForm hform,
      fun _ => trivial⟩
  · simp

theorem ne_of_levelOf? : ∀ kind, (Precedence.levelOf? kind).isSome →
    kind ≠ .eof ∧ opensItem kind = false := by
  decide

theorem heeds_operation {kinds : Nat → TokenKind} {start : Nat} {goal : Nat → Prop}
    {power own : BindingPower} {kind : TokenKind} {operation : BindingPower → Rule}
    (hkind : kinds start = kind) (hoperation : operation? kind = some operation)
    (hgoal : ∀ later, goal later) :
    (operation own).Heeds ((operators power).licence kinds start) kinds false goal start := by
  cases operatesBy_of_operation? hoperation with
  | assignment => simp [assignment, hkind, hgoal, defaultExpression]
  | plusEquals => simp [assignment, hkind, hgoal, defaultExpression]
  | cast => simp [Grammar.cast, hkind, hgoal, typeField, anyType]
  | range => simp [range, hkind, hgoal, ifStartsExpression]
  | member =>
    simp [member, hkind]
    split <;> simp_all
  | optionalChain =>
    simp [optionalChain, hkind]
    split <;> simp_all
  | index => simp +contextual [index, hkind, hgoal, innerExpression]
  | functionCall => simp +contextual [functionCall, hkind, hgoal]
  | matchExpression => simp +contextual [matchExpression, hkind, hgoal]
  | binary known =>
    obtain ⟨heof, hopens⟩ := ne_of_levelOf? kind (Option.isSome_iff_exists.mpr ⟨_, known⟩)
    simp only [binary, heeds_steps_cons, heeds_inField, Heeds, hkind]
    exact ⟨heof, takes_licence (hkind ▸ hopens), by simp, by simp [hgoal]⟩

theorem heeds_rule (name : Nonterminal) (kinds : Nat → TokenKind) (start : Nat)
    (h : name.Expects [kinds start]) :
    name.rule.Heeds (name.licence kinds start) kinds name.isFresh (fun _ => True) start := by
  cases name with
  | item =>
    simp only [rule, Grammar.item, heeds_steps_cons, heeds_optional]
    have hrest (position : Nat) (hopens : OpensAt kinds start position) :
        directive.Heeds (item.licence kinds start) kinds false ((steps [onKind fun kind =>
          match itemForm? kind with
          | some form => .call form
          | none => .fail (.expected "item")]).Heeds (item.licence kinds start) kinds false
            fun _ => True) position := by
      simp only [directive, heeds_ifAt, Heeds, heeds_ite, heeds_steps_singleton, heeds_onKind]
      refine ⟨fun hkind => ⟨fun hfunction => ?_, by simp⟩,
        fun _ => heeds_itemForm fun _ => hopens⟩
      refine ⟨by simp [hkind], fun _ => .inl ⟨rfl, hopens⟩, by simp, heeds_itemForm ?_⟩
      simp [hfunction]
    exact ⟨fun hpub => ⟨by simp, fun _ => .inl ⟨rfl, .inl rfl⟩, hrest _ (.inr ⟨rfl, hpub⟩)⟩,
      fun _ => hrest _ (.inl rfl)⟩
  | functionDefinition =>
    simp +contextual [Grammar.functionDefinition, returnType, ifStartsReturnType, anyType]
  | structDefinition =>
    simp +contextual [Grammar.structDefinition, genericParameters, memberBody, takes_itemForm,
      itemForm?]
    intro _
    generalize hkind : kinds (start + 1) = kind
    split <;> simp +contextual [hkind]
  | enumDefinition =>
    simp +contextual [Grammar.enumDefinition, genericParameters, memberBody, takes_itemForm,
      itemForm?]
  | constDeclaration =>
    simp +contextual [Grammar.constDeclaration, typeAnnotation, typeField, anyType, innerExpression]
  | importDeclaration =>
    simp +contextual [Grammar.importDeclaration, takes_itemForm, itemForm?]
  | pathSteps => simp +contextual [Grammar.pathSteps]
  | testBlock =>
    simp [Grammar.testBlock]
    intro operand
    split <;> simp +contextual [takes_itemForm, itemForm?]
  | parameterList =>
    simp +contextual [Grammar.parameterList]
    exact recovers_licence (mem_stop_of_opensItem (by decide)) (by simp [Recovery.parameters])
  | members body =>
    refine heeds_unlessBodyEnds trivial fun heof hitem => ?_
    simp
    refine ⟨recovers_licence (mem_stop_of_opensItem (by decide)) fun _ => hitem, ?_⟩
    cases body
    · simp +contextual [memberOf, structField, typeField, anyType]
    · simp +contextual [memberOf, enumVariant, variantParameters, variantValue, innerExpression]
  | block => simp +contextual [Grammar.block]
  | statements =>
    refine heeds_unlessBodyEnds trivial fun heof hitem => ?_
    simp
    exact recovers_licence (mem_stop_of_opensItem (by decide)) fun _ => hitem
  | statement =>
    simp [Grammar.statement]
    generalize hkind : kinds start = kind
    fun_cases statementForm? kind <;> simp [hkind, ifStartsExpression, innerExpression]
  | variableDeclaration =>
    simp [Grammar.variableDeclaration]
    simp at h
    rcases h with h | h
    · simp +contextual [h, typeAnnotation, typeField, anyType, innerExpression]
    · simp +contextual [h, typeAnnotation, typeField, anyType, innerExpression]
  | returnStatement =>
    simp +contextual [Grammar.returnStatement, ifStartsExpression, innerExpression]
  | deferStatement => simp +contextual [Grammar.deferStatement, innerExpression]
  | ifStatement => simp [Grammar.ifStatement]
  | forStatement => simp +contextual [Grammar.forStatement, forHeader, defaultExpression]
  | loopStatement => simp +contextual [Grammar.loopStatement]
  | jump =>
    simp at h
    rcases h with h | h <;> simp [Grammar.jump, h]
  | pattern =>
    simp [Grammar.pattern]
    generalize hkind : kinds start = kind
    split <;> simp +contextual [hkind, variantPattern, bareVariant, variantPayload]
  | expression power =>
    simp [Grammar.expression]
    generalize hkind : kinds start = kind
    fun_cases leadingForm? kind <;> simp_all
  | operators power =>
    simp only [rule, Grammar.operators, heeds_onKind]
    generalize hkind : kinds start = kind
    split
    · rename_i own hown
      obtain ⟨operation, hoperation⟩ :=
        Option.isSome_iff_exists.mp (operation?_isSome kind (by simp [hown]))
      have hnext : (steps [operation own, .call (.operators power)]).Heeds
          ((operators power).licence kinds start) kinds false (fun _ => True) start :=
        heeds_operation hkind hoperation fun _ => by simp
      simp only [hoperation]
      split_ifs
      · simp
      · simp [hnext]
      · exact hnext
    · simp
  | primary =>
    simp [Grammar.primary]
    generalize hkind : kinds start = kind
    split <;> simp +contextual [hkind, structLiteral, structFields]
  | typeNameExpression =>
    simp at h
    simp [Grammar.typeNameExpression, h]
    intro _ _
    generalize hkind : kinds (start + 1) = kind
    split <;> simp +contextual [h, hkind, structLiteral, structFields]
  | anonymousStruct => simp +contextual [Grammar.anonymousStruct, structFields]
  | grouping => simp +contextual [Grammar.grouping, defaultExpression]
  | arrayLiteral => simp +contextual [Grammar.arrayLiteral, defaultExpression]
  | unary =>
    have hkind := Precedence.mem_of_isLeading h
    simp only [List.mem_cons, List.not_mem_nil, or_false] at hkind
    rcases hkind with h | h | h <;> simp [Grammar.unary, h]
  | conditional =>
    have hother (context : Context) :
        let kind : NodeKind := if context = .statement then .ifStatement else .ifExpression
        kind ≠ .forStatement ∧ kind ≠ .referenceType ∧ kind ≠ .optionalType ∧
          kind ≠ .sliceType := by
      split <;> simp
    simp +contextual [Grammar.conditional, defaultExpression, branch, innerExpression, hother]
    intro context _ later _
    simp only [alternative, heeds_onKind]
    split <;> simp [innerExpression, hother]
  | ifExpression => simp [Grammar.ifExpression]
  | lambda => simp +contextual [Grammar.lambda, returnType, ifStartsReturnType, anyType]
  | arms =>
    simp [Grammar.arms]
    generalize hkind : kinds start = kind
    split <;> simp +contextual [hkind, matchArm, branch, innerExpression, licence]
  | type power =>
    simp [Grammar.type]
    generalize hkind : kinds start = kind
    fun_cases typeForm? kind <;> simp
  | suffixes power =>
    simp [Grammar.suffixes]
    generalize hkind : kinds start = kind
    fun_cases suffixPower? kind <;> simp +contextual [hkind, suffix?]
  | primitiveType => simp +contextual [Grammar.primitiveType]
  | genericTypeParameter => simp +contextual [Grammar.genericTypeParameter]
  | referenceType => simp +contextual [Grammar.referenceType]
  | arrayType => simp +contextual [Grammar.arrayType, typeField, anyType, innerExpression]
  | functionType => simp +contextual [Grammar.functionType, anyType]
  | tupleType => simp +contextual [Grammar.tupleType]
  | namedType => simp +contextual [Grammar.namedType]
  | genericArguments => simp +contextual [Grammar.genericArguments]
  | list listing =>
    simp [Grammar.list]
    cases listing <;> simp +contextual [element, parameter, fieldEntry, signatureType, typeField,
      anyType, defaultExpression]
  | more continuation =>
    simp [Grammar.more]
    cases continuation <;> simp +contextual [continuationElement, defaultExpression]

end Nonterminal

end LosslessSyntax
