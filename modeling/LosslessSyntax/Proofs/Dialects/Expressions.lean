import LosslessSyntax.Proofs.Dialects.Productions
/-!
Expressions in both dialects. Where the canonical dialect leaves a brace behind a name, operands and
whole expressions end in that name.
-/
namespace LosslessSyntax

open Node (Throughout Clean)
open Rule Grammar

/-- No range ends at a function. -/
def TokenStream.SplitsRanges (stream : TokenStream) : Prop :=
  ∀ index, stream.kind index = .dotDot → stream.kind (index + 1) ≠ .fnKeyword

/-- Behind the end of file there are no ranges. -/
instance (stream : TokenStream) : Decidable stream.SplitsRanges :=
  decidable_of_iff (∀ index < stream.body.size, stream.kind index = .dotDot →
      stream.kind (index + 1) ≠ .fnKeyword) <| by
    refine ⟨fun h index hrange => h index ?_ hrange, fun h index _ => h index⟩
    refine TokenStream.lt_of_kind_ne_eof ?_
    simp [hrange]

def BraceAt (kinds : Nat → TokenKind) (inCondition : Bool) (after : List Node) (position : Nat) :
    Prop :=
  kinds position = .openCurly ∧ Node.lastEndsInName inCondition after

theorem BraceAt.label {kinds : Nat → TokenKind} {inCondition : Bool} {after : List Node}
    {position : Nat} {field : Field} (h : BraceAt kinds inCondition after position) :
    BraceAt kinds inCondition (replaceLast (fun node => [node.withField field]) after) position :=
  ⟨h.1, Node.lastEndsInName_label h.2⟩

def Setting.StuckAt (setting : Setting) : List Node → Nat → Prop :=
  BraceAt setting.stream.kind (setting.context == .condition)

/-- From one place on a rule does the same in both dialects, or the canonical one gets stuck. -/
def Rule.Agrees (rule : Rule) (expand : Nonterminal → Action) (setting : Setting)
    (stuck : List Node → Nat → Prop) (nodes : List Node) (cursor : Cursor) : Prop :=
  ∀ cursor' : Cursor, cursor'.position = cursor.position →
    (rule.run expand setting nodes cursor).Mirrors (fun _ => True) stuck
      (rule.run expand setting.extended nodes cursor')

structure Setting.Paired (setting : Setting) (expand : Nonterminal → Action) : Prop where
  stops : Nonterminal.Stops setting.stream expand
  mirrors : Nonterminal.AllMirror setting.stream expand
  dialect : setting.dialect = .canonical

variable {expand : Nonterminal → Action} {setting : Setting} {nodes : List Node} {cursor : Cursor}
  {stuck : List Node → Nat → Prop}

namespace Setting.Paired

theorem within (h : setting.Paired expand) (context : Context) :
    { setting with context }.Paired expand :=
  ⟨h.stops, h.mirrors, h.dialect⟩

theorem call (h : setting.Paired expand) {name : Nonterminal}
    (hproper : name.IsProper (setting.stream.kind cursor.position)) :
    (Rule.call name).Agrees expand setting (name.Sticks setting.stream.kind setting.context) nodes
      cursor :=
  fun cursor' hposition =>
    h.mirrors name setting nodes cursor cursor' rfl h.dialect hposition hproper

end Setting.Paired

namespace Rule

variable {rule first next otherwise : Rule} {stuck' : List Node → Nat → Prop}

theorem Agrees.imp (h : rule.Agrees expand setting stuck nodes cursor)
    (hstuck : ∀ after position, stuck after position → stuck' after position) :
    rule.Agrees expand setting stuck' nodes cursor :=
  fun cursor' hposition => (h cursor' hposition).imp (fun _ => id) hstuck

theorem agrees_look {distance : Nat} {next : TokenKind → Rule}
    (h : ∀ here : Cursor, here.position = cursor.position →
      (next (setting.stream.kind (here.position + distance))).Agrees expand setting stuck nodes
        here) :
    (Rule.look distance next).Agrees expand setting stuck nodes cursor := by
  intro cursor' hposition
  simp only [run, hposition]
  exact h (cursor.examine setting.stream _) rfl _ hposition

theorem agrees_byContext {next : Context → Rule}
    (h : (next setting.context).Agrees expand setting stuck nodes cursor) :
    (Rule.byContext next).Agrees expand setting stuck nodes cursor := h

theorem agrees_byOperand {next : Option Operand → Rule}
    (h : (next (Operand.ofNodes nodes)).Agrees expand setting stuck nodes cursor) :
    (Rule.byOperand next).Agrees expand setting stuck nodes cursor := h

theorem agrees_fail {failure : Failure} :
    (Rule.fail failure).Agrees expand setting stuck nodes cursor :=
  fun _ _ => trivial

theorem Agrees.apart
    (h : rule.Agrees expand setting (fun more => stuck (nodes ++ more)) [] cursor) :
    (Rule.apart rule).Agrees expand setting stuck nodes cursor :=
  fun cursor' hposition => mirrors_apart (h cursor' hposition)

variable (hpaired : setting.Paired expand)

include hpaired

theorem agrees_seq (hfirst : first.Agrees expand setting stuck nodes cursor)
    (hnext : ∀ after here, next.Agrees expand setting stuck' after here)
    (hstuck : ∀ (after : List Node) (here : Cursor), stuck after here.position →
      (next.run expand setting after here).Balks stuck') :
    (first.seq next).Agrees expand setting stuck' nodes cursor :=
  fun cursor' hposition => mirrors_seq hpaired.stops.retains (hfirst cursor' hposition)
    (fun after here here' hhere _ => hnext after here here' hhere) hstuck

theorem agrees_of_mirrors (h : rule.Mirrors setting.stream.kind (fun _ => True) (fun _ => False)
      cursor.position) :
    rule.Agrees expand setting stuck nodes cursor :=
  fun _ hposition => (h.outcome hpaired.stops.retains hpaired.stops.balks hpaired.mirrors
    hpaired.dialect hposition).imp (fun _ => id) fun _ _ => False.elim

theorem agrees_andThen (goal : Nat → Prop)
    (h : first.Mirrors setting.stream.kind goal (fun _ => False) cursor.position)
    (hnext : ∀ after (here : Cursor), goal here.position →
      next.Agrees expand setting stuck after here) :
    (first.seq next).Agrees expand setting stuck nodes cursor :=
  fun _ hposition => mirrors_seq hpaired.stops.retains
    (h.outcome hpaired.stops.retains hpaired.stops.balks hpaired.mirrors hpaired.dialect hposition)
    (fun after here here' hhere hgoal => hnext after here hgoal here' hhere) fun _ _ => False.elim

theorem agrees_empty : Rule.empty.Agrees expand setting stuck nodes cursor :=
  agrees_of_mirrors hpaired trivial

theorem agrees_take {kind : Option NodeKind} :
    (Rule.take kind).Agrees expand setting stuck nodes cursor :=
  agrees_of_mirrors hpaired ⟨fun _ => trivial, fun _ => trivial⟩

theorem agrees_wrap {kind : NodeKind} :
    (Rule.wrap kind).Agrees expand setting stuck nodes cursor :=
  agrees_of_mirrors hpaired trivial

theorem Agrees.inField {field : Field} (h : rule.Agrees expand setting stuck nodes cursor)
    (hlabel : ∀ after position, stuck after position →
      stuck' (replaceLast (fun node => [node.withField field]) after) position) :
    (Rule.inField field rule).Agrees expand setting stuck' nodes cursor :=
  agrees_seq hpaired h (fun _ _ => agrees_of_mirrors hpaired trivial)
    fun after here hstuck _ => hlabel after here.position hstuck

theorem agrees_attempt {trial : Rule}
    (htrial : trial.Agrees expand setting (fun _ _ => False) nodes cursor)
    (hnext : ∀ after here, next.Agrees expand setting stuck after here)
    (hotherwise : ∀ furthest,
      (otherwise.run expand setting nodes ⟨cursor.position, furthest⟩).Balks stuck) :
    (Rule.attempt trial next otherwise).Agrees expand setting stuck nodes cursor :=
  fun cursor' hposition => mirrors_attempt hpaired.stops.retains (htrial cursor' hposition)
    (fun after here here' hhere _ => hnext after here here' hhere) hotherwise

theorem agrees_childExpression {power : BindingPower} (hpower : power < .member) :
    (child (.expression power)).Agrees expand setting setting.StuckAt nodes cursor := by
  have hcall : (Rule.call (.expression power)).Agrees expand setting _ [] cursor :=
    hpaired.call hpower
  exact (hcall.imp fun _ _ hbrace => ⟨hbrace.1, Node.lastEndsInName_append hbrace.2⟩).apart

theorem agrees_operand {power : BindingPower} (hpower : power < .member) (field : Field) :
    (inField field (child (.expression power))).Agrees expand setting setting.StuckAt nodes cursor :=
  (agrees_childExpression hpaired hpower).inField hpaired fun _ _ => BraceAt.label

theorem agrees_operation {operand : Rule} {kind : NodeKind}
    (hkind : kind ∈ [.binaryExpression, .unaryExpression, .assignmentExpression])
    (h : operand.Agrees expand setting setting.StuckAt nodes cursor) :
    (steps [operand, .wrap kind]).Agrees expand setting setting.StuckAt nodes cursor := by
  refine agrees_seq hpaired h (fun _ _ => agrees_wrap hpaired) ?_
  rintro after here ⟨hcurly, hends⟩
  rw [Outcome.Balks, satisfies_steps_singleton, satisfies_wrap]
  refine fun _ => ⟨by split <;> exact hcurly, ?_⟩
  simp only [List.mem_cons, List.not_mem_nil, or_false] at hkind
  rcases hkind with rfl | rfl | rfl <;> exact hends

theorem agrees_behindSign {rest : Rule}
    (hrest : ∀ after (here : Cursor),
      (setting.stream.kind cursor.position ≠ .eof → here.position = cursor.position + 1) →
      rest.Agrees expand setting stuck after here) :
    (Rule.seq (.label .left) (.seq (inField .operator (.take none)) rest)).Agrees expand setting
      stuck nodes cursor := by
  refine agrees_andThen hpaired (· = cursor.position) rfl fun after here hstart => ?_
  refine agrees_andThen hpaired (fun position =>
    setting.stream.kind cursor.position ≠ .eof → position = cursor.position + 1) ?_ hrest
  simp +contextual [hstart]

end Rule

namespace Nonterminal

variable (hpaired : setting.Paired expand)

include hpaired

theorem agrees_unary : unary.rule.Agrees expand setting setting.StuckAt nodes cursor :=
  agrees_andThen hpaired (fun _ => True) (by simp) fun _ _ _ =>
    agrees_operation hpaired (by simp) (agrees_operand hpaired (by decide) _)

theorem agrees_binary {own : BindingPower} (hown : own < .member) :
    (binary own).Agrees expand setting setting.StuckAt nodes cursor :=
  agrees_behindSign hpaired fun _ _ _ =>
    agrees_operation hpaired (by simp) (agrees_operand hpaired hown _)

theorem agrees_assignment : assignment.Agrees expand setting setting.StuckAt nodes cursor := by
  refine agrees_byOperand ?_
  split
  · exact agrees_behindSign hpaired fun _ _ _ =>
      agrees_operation hpaired (by simp) (agrees_operand hpaired (by decide) _)
  · exact agrees_fail

/-- A function right behind the two dots is the only end of a range that the dialects read in
different ways. -/
theorem agrees_range {own : BindingPower} (hown : own < .member)
    (hkind : setting.stream.kind cursor.position = .dotDot)
    (hfunction : setting.stream.kind (cursor.position + 1) ≠ .fnKeyword) :
    (range own).Agrees expand setting setting.StuckAt nodes cursor := by
  refine agrees_byOperand ?_
  split
  · exact agrees_fail
  refine agrees_behindSign hpaired fun after here hstart => agrees_operation hpaired (by simp) ?_
  have hend : setting.stream.kind here.position ≠ .fnKeyword := by
    rwa [hstart (by simp [hkind])]
  refine agrees_look fun later hlater later' hlater' => ?_
  simp only [Rule.run, startsExpression, Nat.add_zero, hlater, hend, if_false]
  split
  · exact agrees_operand hpaired hown _ _ hlater'
  · exact agrees_empty hpaired _ hlater'

omit hpaired in
theorem mirrors_member {position : Nat} :
    member.Mirrors setting.stream.kind (fun _ => True) (fun _ => False) position := by
  simp only [member, mirrors_steps_cons, Mirrors]
  refine ⟨fun _ => ?_, fun _ => ?_⟩ <;> rw [mirrors_steps_singleton, mirrors_onKind] <;> split <;>
    simp

omit hpaired in
theorem mirrors_optionalChain {position : Nat} :
    optionalChain.Mirrors setting.stream.kind (fun _ => True) (fun _ => False) position := by
  simp only [optionalChain, mirrors_steps_cons, Mirrors]
  refine ⟨fun _ => ?_, fun _ => ?_⟩ <;> rw [mirrors_steps_singleton, mirrors_onKind] <;> split <;>
    simp

theorem agrees_operationOf {kind : TokenKind} {own : BindingPower}
    {operation : BindingPower → Rule} (hkind : setting.stream.kind cursor.position = kind)
    (hown : Precedence.power? kind = some own) (hoperation : operation? kind = some operation)
    (hrange : kind = .dotDot → setting.stream.kind (cursor.position + 1) ≠ .fnKeyword) :
    (operation own).Agrees expand setting setting.StuckAt nodes cursor := by
  cases operatesBy_of_operation? hoperation with
  | assignment => exact agrees_assignment hpaired
  | plusEquals => exact agrees_assignment hpaired
  | cast => exact agrees_of_mirrors hpaired (by simp [Grammar.cast, typeField, anyType])
  | range =>
    obtain rfl := Option.some.inj hown
    exact agrees_range hpaired (by decide) hkind (hrange rfl)
  | member => exact agrees_of_mirrors hpaired mirrors_member
  | optionalChain => exact agrees_of_mirrors hpaired mirrors_optionalChain
  | index => exact agrees_of_mirrors hpaired (by simp +contextual [index, innerExpression])
  | functionCall => exact agrees_of_mirrors hpaired (by simp +contextual [functionCall])
  | matchExpression => exact agrees_of_mirrors hpaired (by simp +contextual [matchExpression])
  | binary known associativity =>
    exact agrees_binary hpaired (Precedence.lt_member known associativity hown)

theorem balks_operators {power : BindingPower} (h : setting.StuckAt nodes cursor.position) :
    ((Rule.call (.operators power)).run expand setting nodes cursor).Balks setting.StuckAt := by
  refine Outcome.Satisfies.imp (hpaired.stops.rests power setting nodes cursor rfl h.1) ?_
  rintro _ later ⟨rfl, hlater⟩ _
  exact hlater ▸ h

theorem agrees_operators {power : BindingPower} (hpower : power < .member)
    (hrange : setting.stream.SplitsRanges) :
    (operators power).rule.Agrees expand setting setting.StuckAt nodes cursor := by
  refine agrees_look fun here _ => ?_
  rw [Nat.add_zero]
  generalize hkind : setting.stream.kind here.position = kind
  rcases hown : Precedence.power? kind with _ | own
  · exact agrees_empty hpaired
  obtain ⟨operation, hoperation⟩ :=
    Option.isSome_iff_exists.mp (Grammar.operation?_isSome kind (by simp [hown]))
  have hnext (here : Cursor) (hkind : setting.stream.kind here.position = kind) :
      (Rule.steps [operation own, .call (.operators power)]).Agrees expand setting setting.StuckAt
        nodes here :=
    agrees_seq hpaired
      (agrees_operationOf hpaired hkind hown hoperation fun h => hrange _ (hkind.trans h))
      (fun _ _ => hpaired.call hpower) fun _ _ => balks_operators hpaired
  simp only [hoperation]
  split
  · exact agrees_empty hpaired
  split
  · refine agrees_look fun later hlater => ?_
    split
    · exact agrees_empty hpaired
    · exact hnext later (hlater ▸ hkind)
  · exact hnext here hkind

theorem agrees_primary : primary.rule.Agrees expand setting setting.StuckAt nodes cursor := by
  refine agrees_look fun here _ => ?_
  rw [Nat.add_zero]
  split
  · rename_i hkind
    intro here' hhere
    simp only [Rule.run, hpaired.dialect]
    rw [if_neg (by decide), if_pos (by rfl)]
    -- the extended dialect looks behind the name, the canonical one takes it at once
    by_cases hstruct : setting.stream.kind (here.position + 1) = .openCurly ∧
      setting.context ≠ .condition
    · refine fun _ => .inr ⟨?_, ?_⟩
      · rw [Cursor.advance_position_of_ne_eof (by simp [hkind])]
        exact hstruct.1
      · rw [Node.lastEndsInName_concat,
          Node.endsInName_of_identifier (Node.kind_ofTokenAs_get hkind)]
        simp [hstruct.2]
    · rw [not_and_not_right] at hstruct
      simp only [Rule.run, hhere]
      split
      · rename_i hcurly
        change Outcome.Mirrors _ _ _ (Rule.run expand
          (if setting.context = .condition then .take none else structLiteral) _ _ _)
        rw [if_pos (hstruct hcurly)]
        exact agrees_take hpaired _ hhere
      · exact agrees_take hpaired _ hhere
  all_goals first
    | exact agrees_take hpaired
    | exact agrees_fail

theorem agrees_typeNameExpression
    (hkind : setting.stream.kind cursor.position = .typeIdentifier) :
    typeNameExpression.rule.Agrees expand setting
      (fun after position => setting.stream.kind position = .openParen ∧
        after.getLast?.map (·.kind) = some .typeIdentifier) nodes cursor := by
  refine agrees_byContext ?_
  split
  · exact agrees_take hpaired
  refine agrees_look fun here hhere => ?_
  split
  · exact agrees_of_mirrors hpaired (by simp +contextual [structLiteral, structFields])
  · rename_i hparen
    -- types are read alike, but for brackets with an expression that only one dialect can read
    refine agrees_attempt hpaired ?_ ?_ fun furthest _ => ⟨?_, ?_⟩
    · exact agrees_of_mirrors hpaired (by simp)
    · exact fun _ _ => agrees_of_mirrors hpaired (by simp +contextual [structFields])
    · rw [hhere] at hparen ⊢
      rwa [Cursor.advance_position_of_ne_eof (by simp [hkind])]
    · rw [List.getLast?_concat, Option.map_some, hhere, Node.kind_ofTokenAs_get hkind]
      rfl
  · exact agrees_take hpaired

omit hpaired in
theorem sticks_of_leadingForm? {kind : TokenKind} {form : Nonterminal}
    (h : leadingForm? kind = some form) :
    form.IsProper kind ∧ ∀ after position,
      form.Sticks setting.stream.kind setting.context after position →
        setting.StuckAt after position ∨ setting.stream.kind position = .openParen ∧
          after.getLast?.map (·.kind) = some .typeIdentifier := by
  revert h
  fun_cases leadingForm? kind <;> rintro ⟨⟩ <;> refine ⟨by simp, fun after position => ?_⟩ <;>
    simp +contextual [Sticks, Setting.StuckAt, BraceAt]

theorem agrees_expression {power : BindingPower} (hpower : power < .member) :
    (expression power).rule.Agrees expand setting setting.StuckAt nodes cursor := by
  refine agrees_look fun here _ => ?_
  rw [Nat.add_zero]
  split
  · rename_i form hform
    obtain ⟨hproper, hsticks⟩ := sticks_of_leadingForm? hform
    refine agrees_seq hpaired ((hpaired.call hproper).imp hsticks)
      (fun _ _ => hpaired.call hpower) ?_
    rintro after here (hstuck | ⟨hparen, hlast⟩)
    · exact balks_operators hpaired hstuck
    · exact Outcome.Satisfies.imp
        (hpaired.stops.refuses power setting after here rfl hparen hpower hlast) False.elim
  · exact agrees_fail

end Nonterminal

end LosslessSyntax
