import LosslessSyntax.Proofs.Dialects.Expressions
/-!
An `if` or a `for` in both dialects. Where its head is stuck at a brace, the canonical dialect goes
on with a block, and what it makes then is not clean.
-/
namespace LosslessSyntax

open Node (Throughout Clean)
open Rule Grammar

namespace Node

variable {nodes : List Node} {head body : Node}

theorem leadsIntoBlock_of_head (hfield : head.field ∈ [some .condition, some .iterable])
    (hends : head.endsInName true) (hbody : body.kind = .block) :
    leadsIntoBlock (nodes ++ [head, body]) := by
  refine leadsIntoBlock_append ?_
  simp only [List.mem_cons, List.not_mem_nil, or_false] at hfield
  rcases hfield with hfield | hfield <;> simp [leadsIntoBlock, hfield, hends, hbody]

theorem innerInField_of_endsInName {inCondition : Bool} (field : Field)
    (h : head.endsInName inCondition) : head.innerInField field = [head.withField field] := by
  refine (head.innerInField_eq field).resolve_left ?_
  rintro ⟨opening, inner, closing, hkind, -, -⟩
  cases head
  subst hkind
  simp [endsInName] at h

theorem leadsIntoBlock_concat {last other : Node} (hkind : other.kind = last.kind) :
    leadsIntoBlock (nodes ++ [other]) = leadsIntoBlock (nodes ++ [last]) := by
  induction nodes with
  | nil => rfl
  | cons first nodes ih =>
    cases nodes with
    | nil => simp [leadsIntoBlock, hkind]
    | cons second nodes =>
      simp only [List.cons_append, leadsIntoBlock] at ih ⊢
      rw [ih]

theorem lasting_leadsIntoBlock : Lasting (fun nodes => leadsIntoBlock nodes) where
  append nodes more h := by
    induction nodes with
    | nil => contradiction
    | cons first nodes ih =>
      cases nodes with
      | nil => contradiction
      | cons second nodes =>
        simp only [leadsIntoBlock, List.cons_append, Bool.or_eq_true] at h ih ⊢
        exact h.imp id ih
  label nodes field h := by
    rcases List.eq_nil_or_concat nodes with rfl | ⟨front, last, rfl⟩
    · contradiction
    · rw [List.concat_eq_append] at h ⊢
      rw [replaceLast_concat]
      rwa [leadsIntoBlock_concat (show (last.withField field).kind = last.kind from rfl)]

end Node

variable {expand : Nonterminal → Action} {setting : Setting} {nodes : List Node} {cursor : Cursor}

namespace Nonterminal

section Misleads

variable (hstops : Stops setting.stream expand)

include hstops

theorem leadsIntoBlock_body {head : Node} {field : Field} {rule : Rule}
    (hrule : rule = child .block ∨
      rule = branch ∧ setting.stream.kind cursor.position = .openCurly)
    (hfield : head.field ∈ [some .condition, some .iterable]) (hends : head.endsInName true) :
    ((inField field rule).run expand setting (nodes ++ [head]) cursor).Satisfies True
      fun after _ => Node.leadsIntoBlock after := by
  have hblock (here : Cursor) : ((child .block).run expand setting (nodes ++ [head])
      here).Satisfies True fun after _ => Node.leadsIntoBlock after := by
    rw [satisfies_child]
    refine (hstops.block setting [] here).imp ?_
    rintro _ _ ⟨body, rfl, hbody⟩
    rw [List.append_assoc]
    exact Node.leadsIntoBlock_of_head hfield hends hbody
  rw [satisfies_inField]
  refine Outcome.Satisfies.imp ?_ fun h => Node.lasting_leadsIntoBlock.label _ field h
  rcases hrule with rfl | ⟨rfl, hcurly⟩
  · exact hblock cursor
  · rw [branch, satisfies_ifAt]
    exact ⟨fun _ => hblock _, fun hne => absurd hcurly hne⟩

omit hstops in
theorem not_clean_wrap {kind : NodeKind} (h : Node.leadsIntoBlock nodes)
    (hkind : kind ∈ [.ifStatement, .ifExpression, .forStatement]) :
    ((Rule.wrap kind).run expand setting nodes cursor).Satisfies True fun after _ =>
      ¬Throughout Clean after := by
  rw [satisfies_wrap]
  intro hclean
  have hmisleads := (hclean.of_mem List.mem_cons_self).1.misleads
  simp only [Node.misleads, Node.ofChildren, h, Bool.and_true, List.contains_eq_mem,
    decide_eq_false_iff_not] at hmisleads
  exact hmisleads hkind

omit hstops in
theorem leadsIntoBlock_alternative {context : Context} (h : Node.leadsIntoBlock nodes) :
    ((inField .alternative (alternative context)).run expand setting nodes cursor).Satisfies True
      fun after _ => Node.leadsIntoBlock after := by
  have hchild (name : Nonterminal) (setting : Setting) (here : Cursor) :
      ((child name).run expand setting nodes here).Satisfies True fun after _ =>
        Node.leadsIntoBlock after := by
    rw [satisfies_child]
    exact .of_forall fun more _ => Node.lasting_leadsIntoBlock.append _ more h
  rw [satisfies_inField]
  refine Outcome.Satisfies.imp ?_ fun h => Node.lasting_leadsIntoBlock.label _ _ h
  rw [alternative, satisfies_onKind]
  split
  · exact hchild _ _ _
  · split <;> exact hchild _ _ _
  · exact hchild _ _ _

theorem balks_conditional {context : Context} {stuck : List Node → Nat → Prop}
    (hcurly : setting.stream.kind cursor.position = .openCurly)
    (hends : Node.lastEndsInName true nodes) :
    ((steps [.labelInner .condition, inField .consequence branch,
      ifAt .elseKeyword (steps [.take none, inField .alternative (alternative context)]) .empty,
      .wrap (if context = .statement then .ifStatement else .ifExpression)]).run expand setting
        nodes cursor).Balks stuck := by
  refine Outcome.balks_of_not_clean ?_
  rcases List.eq_nil_or_concat nodes with rfl | ⟨front, head, rfl⟩
  · contradiction
  rw [List.concat_eq_append] at hends ⊢
  rw [Node.lastEndsInName_concat] at hends
  have hinner := Node.innerInField_of_endsInName .condition hends
  have hwrap (after : List Node) (here : Cursor) (h : Node.leadsIntoBlock after) :
      ((Rule.wrap (if context = .statement then .ifStatement else .ifExpression)).run expand setting
        after here).Satisfies True fun after _ => ¬Throughout Clean after :=
    not_clean_wrap h (by split <;> simp)
  simp only [satisfies_steps_cons, satisfies_steps_singleton, satisfies_labelInner,
    replaceLast_concat, hinner]
  have hfield : (head.withField .condition).field ∈ [some .condition, some .iterable] := by
    simp [Node.withField]
  refine (leadsIntoBlock_body hstops (.inr ⟨rfl, hcurly⟩) hfield (by simpa)).imp ?_
  intro after here h
  rw [satisfies_ifAt]
  refine ⟨fun _ => ?_, fun _ => hwrap _ _ h⟩
  rw [satisfies_steps_cons, satisfies_take]
  exact (leadsIntoBlock_alternative (Node.lasting_leadsIntoBlock.append _ _ h)).imp
    fun h => hwrap _ _ h

end Misleads

/-- Where a branch of an `if` is stuck: a brace comes behind a name, or what it is behind is part of
a statement. -/
def BranchSticks (kinds : Nat → TokenKind) (context : Context) (after : List Node)
    (position : Nat) : Prop :=
  kinds position = .openCurly ∧ (context = .statement ∨ Node.lastEndsInName false after)

theorem BranchSticks.label {kinds : Nat → TokenKind} {context : Context} {after : List Node}
    {position : Nat} {field : Field} (h : BranchSticks kinds context after position) :
    BranchSticks kinds context (replaceLast (fun node => [node.withField field]) after) position :=
  ⟨h.1, h.2.imp_right Node.lastEndsInName_label⟩

def IterableSticks (kinds : Nat → TokenKind) (after : List Node) (position : Nat) : Prop :=
  kinds position = .openCurly ∧ ∃ front, ∃ head : Node, after = front ++ [head] ∧
    head.field = some .iterable ∧ head.endsInName true

theorem BraceAt.iterable {kinds : Nat → TokenKind} {after : List Node} {position : Nat}
    (h : BraceAt kinds true after position) :
    IterableSticks kinds (replaceLast (fun node => [node.withField .iterable]) after) position := by
  obtain ⟨hcurly, hends⟩ := h
  rcases List.eq_nil_or_concat after with rfl | ⟨front, head, rfl⟩
  · contradiction
  rw [List.concat_eq_append] at hends ⊢
  rw [Node.lastEndsInName_concat] at hends
  rw [replaceLast_concat]
  exact ⟨hcurly, front, _, rfl, rfl, by simpa⟩

theorem balks_wrapConditional
    (h : BranchSticks setting.stream.kind setting.context nodes cursor.position) :
    ((Rule.wrap (if setting.context = .statement then .ifStatement else .ifExpression)).run expand
      setting nodes cursor).Balks (conditional.Sticks setting.stream.kind setting.context) := by
  rw [Outcome.Balks, satisfies_wrap]
  refine fun _ => ⟨by split <;> exact h.1, ?_⟩
  by_cases hcontext : setting.context = .statement
  · exact .inl hcontext
  · refine .inr fun inCondition => ?_
    rw [if_neg hcontext]
    exact h.2.resolve_left hcontext

variable (hpaired : setting.Paired expand)

include hpaired

theorem agrees_innerExpression :
    innerExpression.Agrees expand setting (BraceAt setting.stream.kind false) nodes cursor :=
  agrees_childExpression (hpaired.within .expression) default_lt_member

theorem agrees_branch :
    branch.Agrees expand setting (BraceAt setting.stream.kind false) nodes cursor := by
  refine agrees_look fun here _ => ?_
  split
  · exact agrees_of_mirrors hpaired (by simp)
  · exact agrees_innerExpression hpaired

theorem agrees_alternative :
    (alternative setting.context).Agrees expand setting
      (BranchSticks setting.stream.kind setting.context) nodes cursor := by
  have hinner (here : Cursor) : innerExpression.Agrees expand setting
      (BranchSticks setting.stream.kind setting.context) nodes here :=
    (agrees_innerExpression hpaired).imp fun _ _ hbrace => ⟨hbrace.1, .inr hbrace.2⟩
  refine agrees_look fun here _ => ?_
  split
  · exact agrees_of_mirrors hpaired (by simp)
  · split
    · rename_i hcontext
      have hcall : (Rule.call .conditional).Agrees expand { setting with context := .statement } _ []
          here := (hpaired.within .statement).call trivial
      exact (hcall.imp fun _ _ h => ⟨h.1, .inl hcontext⟩).apart
    · exact hinner here
  · exact hinner here

theorem agrees_else :
    (ifAt .elseKeyword (steps [.take none, inField .alternative (alternative setting.context)])
      .empty).Agrees expand setting (BranchSticks setting.stream.kind setting.context) nodes
        cursor := by
  refine agrees_look fun here _ => ?_
  split
  · refine agrees_andThen hpaired (fun _ => True) ⟨fun _ => trivial, fun _ => trivial⟩ ?_
    exact fun _ _ _ => (agrees_alternative hpaired).inField hpaired fun _ _ => BranchSticks.label
  · exact agrees_empty hpaired

theorem agrees_conditional :
    conditional.rule.Agrees expand setting (conditional.Sticks setting.stream.kind setting.context)
      nodes cursor := by
  refine agrees_byContext (agrees_andThen hpaired (fun _ => True) (by simp) fun after here _ => ?_)
  -- behind a condition that is stuck the brace begins a block, and the whole `if` misleads
  refine agrees_seq hpaired (agrees_childExpression (hpaired.within .condition) default_lt_member)
    (fun after here => ?_) fun after here h => balks_conditional hpaired.stops h.1 h.2
  refine agrees_andThen hpaired (fun _ => True) trivial fun after here _ => ?_
  refine agrees_seq hpaired ((agrees_branch hpaired).inField hpaired fun _ _ => BraceAt.label)
    (fun after here => ?_) fun after here h => ?_
  · exact agrees_seq hpaired (agrees_else hpaired) (fun _ _ => agrees_wrap hpaired)
      fun _ _ => balks_wrapConditional
  · -- a branch that is stuck is the last one, for a brace is no `else`
    rw [Outcome.Balks, satisfies_steps_cons, satisfies_ifAt]
    refine ⟨fun helse => absurd (h.1.symm.trans helse) (by decide), fun _ => ?_⟩
    change ((Rule.wrap _).run expand setting after _).Balks _
    exact balks_wrapConditional ⟨h.1, .inr h.2⟩

theorem agrees_ifExpression :
    ifExpression.rule.Agrees expand setting setting.StuckAt nodes cursor := by
  have hcall : (Rule.call .conditional).Agrees expand { setting with context := .expression } _ nodes
      cursor := (hpaired.within .expression).call trivial
  exact hcall.imp fun _ _ h => ⟨h.1, h.2.resolve_left (by simp) _⟩

theorem agrees_forHeader :
    (ifAt .openParen (steps [.take none, forHeader true]) (forHeader false)).Agrees expand setting
      (IterableSticks setting.stream.kind) nodes cursor := by
  refine agrees_look fun here _ => ?_
  split
  · exact agrees_of_mirrors hpaired (by simp +contextual [forHeader, defaultExpression])
  refine agrees_andThen hpaired (fun _ => True) (by simp) fun after here _ => ?_
  refine agrees_andThen hpaired (fun _ => True) (by simp) fun after here _ => ?_
  have hhead : (Rule.within .condition defaultExpression).Agrees expand setting
      (BraceAt setting.stream.kind true) after here :=
    agrees_childExpression (hpaired.within .condition) default_lt_member
  exact agrees_seq hpaired (hhead.inField hpaired fun _ _ => BraceAt.iterable)
    (fun _ _ => agrees_empty hpaired) fun _ _ h _ => h

theorem agrees_forStatement :
    forStatement.rule.Agrees expand setting (forStatement.Sticks setting.stream.kind setting.context)
      nodes cursor := by
  refine agrees_andThen hpaired (fun _ => True) (by simp) fun after here _ => ?_
  refine agrees_seq hpaired (agrees_forHeader hpaired)
    (fun _ _ => agrees_of_mirrors hpaired (by simp)) ?_
  rintro _ here ⟨-, front, head, rfl, hfield, hends⟩
  refine Outcome.balks_of_not_clean ?_
  rw [satisfies_steps_cons]
  exact (leadsIntoBlock_body hpaired.stops (.inl rfl) (by simp [hfield]) hends).imp
    fun h => not_clean_wrap h (by simp)

end Nonterminal

end LosslessSyntax
