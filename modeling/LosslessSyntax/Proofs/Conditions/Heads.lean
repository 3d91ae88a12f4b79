import LosslessSyntax.Proofs.Conditions.Bare
import LosslessSyntax.Proofs.Grammar.Licences
/-!
Heads: where an `if` or a `for` stands, the expression in front of its body is bare, unless there
are parentheses around it.
-/
namespace LosslessSyntax

open Node (Throughout)

def HeadAt (index : Nat) (nodes : List Node) : Prop :=
  ∃ head : Node, nodes[index]? = some head ∧ head.Bare

/-- An `if` as far as it has been read: a bare condition comes second, or a condition in parentheses
third. -/
def IfHead (nodes : List Node) : Prop :=
  HeadAt 1 nodes ∨
    ∃ inner, nodes[2]? = some inner ∧ inner.field = some .condition ∧ 3 < nodes.length

/-- A `for` as far as it has been read: what is gone through comes fourth and is bare, or there are
parentheses. -/
def ForHead (nodes : List Node) : Prop :=
  HeadAt 3 nodes ∨ ∃ child ∈ nodes, child.kind = .token .openParen

/-- An `if` or a `for` leaves the brace of its body to the body. -/
structure Node.KeepsBrace (node : Node) : Prop where
  conditional : node.kind = .ifStatement ∨ node.kind = .ifExpression → IfHead node.children
  loop : node.kind = .forStatement → ForHead node.children

open Node (KeepsBrace)

/-- What has been read of a node stays known, whatever is read behind it. -/
structure Lasting (P : List Node → Prop) : Prop where
  append : ∀ nodes more, P nodes → P (nodes ++ more)
  label : ∀ nodes field, P nodes → P (replaceLast (fun node => [node.withField field]) nodes)

theorem getElem?_label {nodes : List Node} {index : Nat} {node : Node} (field : Field)
    (h : nodes[index]? = some node) :
    ∃ field', (replaceLast (fun node => [node.withField field]) nodes)[index]? =
      some { node with field := field' } ∧ (index + 1 < nodes.length → field' = node.field) := by
  rcases List.eq_nil_or_concat nodes with rfl | ⟨front, last, rfl⟩
  · simp at h
  rw [List.concat_eq_append] at h ⊢
  rw [replaceLast_concat]
  rcases Nat.lt_or_ge index front.length with hlt | hge
  · rw [List.getElem?_append_left hlt] at h ⊢
    exact ⟨node.field, by cases node; exact h, fun _ => rfl⟩
  · rw [List.getElem?_append_right hge] at h ⊢
    have hindex : index - front.length = 0 := by
      by_contra hne
      rw [List.getElem?_eq_none (by simp; omega)] at h
      contradiction
    rw [hindex] at h ⊢
    obtain rfl := Option.some.inj h
    refine ⟨some field, rfl, fun hlt => ?_⟩
    simp at hlt
    omega

theorem length_label (nodes : List Node) (field : Field) :
    (replaceLast (fun node => [node.withField field]) nodes).length = nodes.length := by
  rcases List.eq_nil_or_concat nodes with rfl | ⟨front, last, rfl⟩
  · rfl
  · simp [List.concat_eq_append, replaceLast_concat]

theorem getElem?_append_of_some {nodes more : List Node} {index : Nat} {node : Node}
    (h : nodes[index]? = some node) : (nodes ++ more)[index]? = some node := by
  rw [List.getElem?_append_left (List.getElem?_eq_some_iff.mp h).1, h]

theorem lasting_headAt (index : Nat) : Lasting (HeadAt index) where
  append nodes more := by
    rintro ⟨head, hhead, hbare⟩
    exact ⟨head, getElem?_append_of_some hhead, hbare⟩
  label nodes field := by
    rintro ⟨head, hhead, hbare⟩
    obtain ⟨field', hlabel, -⟩ := getElem?_label field hhead
    exact ⟨_, hlabel, hbare.kind_ne, fun _ hslot _ => hbare.operand hslot⟩

theorem lasting_ifHead : Lasting IfHead where
  append nodes more := by
    rintro (h | ⟨inner, hinner, hfield, hlength⟩)
    · exact .inl ((lasting_headAt 1).append _ _ h)
    · refine .inr ⟨inner, getElem?_append_of_some hinner, hfield, ?_⟩
      rw [List.length_append]
      omega
  label nodes field := by
    rintro (h | ⟨inner, hinner, hfield, hlength⟩)
    · exact .inl ((lasting_headAt 1).label _ _ h)
    · obtain ⟨field', hlabel, hsame⟩ := getElem?_label field hinner
      refine .inr ⟨_, hlabel, (hsame hlength).trans hfield, ?_⟩
      rwa [length_label]

theorem lasting_forHead : Lasting ForHead where
  append nodes more := by
    rintro (h | ⟨child, hchild, hkind⟩)
    · exact .inl ((lasting_headAt 3).append _ _ h)
    · exact .inr ⟨child, List.mem_append_left _ hchild, hkind⟩
  label nodes field := by
    rintro (h | ⟨child, hchild, hkind⟩)
    · exact .inl ((lasting_headAt 3).label _ _ h)
    · obtain ⟨index, hindex⟩ := List.getElem?_of_mem hchild
      obtain ⟨field', hlabel, -⟩ := getElem?_label field hindex
      exact .inr ⟨_, List.mem_of_getElem? hlabel, hkind⟩

def Invariant.heads : Invariant where
  position _ := True
  node := KeepsBrace
  diagnostic _ := True

namespace Node

theorem keepsBrace_of_kind {node : Node}
    (h : node.kind ∉ [.ifStatement, .ifExpression, .forStatement]) : node.KeepsBrace := by
  simp only [List.mem_cons, List.not_mem_nil, or_false, not_or] at h
  exact ⟨fun hkind => absurd hkind (by simp [h]), fun hkind => absurd hkind h.2.2⟩

theorem keepsBrace_ofToken (token : Token) : (ofToken token).KeepsBrace := by
  have hkinds : ∀ kind, NodeKind.ofToken kind ∉ [.ifStatement, .ifExpression, .forStatement] := by
    decide
  exact keepsBrace_of_kind (hkinds token.kind)

theorem keepsBrace_errorNode {stream : TokenStream} {start stop : Nat} {diagnostic : Diagnostic} :
    (stream.errorNode start stop diagnostic).KeepsBrace :=
  keepsBrace_of_kind (by simp [TokenStream.errorNode, ofChildren])

theorem keepsBrace_withField {node : Node} {field : Field} (h : node.KeepsBrace) :
    (node.withField field).KeepsBrace :=
  ⟨h.conditional, h.loop⟩

end Node

namespace Nonterminal

theorem keeps_heads {name : Nonterminal} {stream : TokenStream} {start : Nat}
    (hconditional : name ≠ .conditional) (hloop : name ≠ .forStatement) :
    (name.licence stream.kind start).Keeps stream .heads := by
  refine Licence.keeps_ofNodes (fun _ => Node.keepsBrace_of_kind)
    (fun _ _ => Node.keepsBrace_withField) (fun kind hmakes => ?_) (by decide) (by decide)
  simp only [List.mem_cons, List.not_mem_nil, or_false, not_or]
  exact ⟨fun h => hconditional (hmakes.1 (.inl h)), fun h => hconditional (hmakes.1 (.inr h)),
    fun h => hloop (hmakes.2.1 h)⟩

def AllKeepHeads (expand : Nonterminal → Action) : Prop :=
  ∀ (name : Nonterminal) (setting : Setting) (nodes : List Node) (cursor : Cursor),
    (name.isFresh → nodes = []) → name.Expects [setting.stream.kind cursor.position] →
    Throughout KeepsBrace nodes →
    (expand name setting nodes cursor).Satisfies True fun after _ => Throughout KeepsBrace after

end Nonterminal

theorem Outcome.keeps_heads_iff {outcome : Outcome (List Node)} :
    outcome.Keeps .heads (fun _ => True) ↔
      outcome.Satisfies True fun after _ => Throughout KeepsBrace after :=
  keeps_ofNodes_iff

variable {expand : Nonterminal → Action} {setting : Setting} {nodes : List Node} {cursor : Cursor}

def Rule.Adds (expand : Nonterminal → Action) (setting : Setting) (rule : Rule) : Prop :=
  ∀ (nodes : List Node) (cursor : Cursor),
    (rule.run expand setting nodes cursor).Satisfies True fun after _ =>
      ∃ more, after = nodes ++ more ∧ Throughout KeepsBrace more

namespace Rule

variable {P : List Node → Prop} {rule : Rule}

theorem Adds.keeps (h : rule.Adds expand setting) (hlasting : Lasting P)
    (hnodes : P nodes ∧ Throughout KeepsBrace nodes) :
    (rule.run expand setting nodes cursor).Satisfies True fun after _ =>
      P after ∧ Throughout KeepsBrace after := by
  refine (h nodes cursor).imp ?_
  rintro _ _ ⟨more, rfl, hmore⟩
  exact ⟨hlasting.append _ _ hnodes.1, Node.throughout_append.mpr ⟨hnodes.2, hmore⟩⟩

theorem Adds.inField (h : rule.Adds expand setting) (hlasting : Lasting P) (field : Field)
    (hnodes : P nodes ∧ Throughout KeepsBrace nodes) :
    ((Rule.inField field rule).run expand setting nodes cursor).Satisfies True fun after _ =>
      P after ∧ Throughout KeepsBrace after := by
  rw [satisfies_inField]
  refine (h nodes cursor).imp ?_
  rintro _ _ ⟨more, rfl, hmore⟩
  refine ⟨hlasting.label _ _ (hlasting.append _ _ hnodes.1), ?_⟩
  refine (Node.throughout_append.mpr ⟨hnodes.2, hmore⟩).replaceLast fun node hnode => ?_
  simp only [Node.throughout_cons, Node.throughout_nil, and_true] at hnode ⊢
  exact ⟨Node.keepsBrace_withField hnode.1, hnode.2⟩

theorem adds_expect (kind : TokenKind) : (expect kind).Adds expand setting := by
  intro nodes cursor
  rw [satisfies_expect]
  refine ⟨fun _ => ⟨_, rfl, ?_⟩, fun _ => trivial⟩
  simp [Node.keepsBrace_ofToken]

variable (hcalls : Nonterminal.AllKeepHeads expand)

include hcalls

theorem adds_child (name : Nonterminal) (hexpects : ∀ ahead, name.Expects ahead) :
    (child name).Adds expand setting := by
  intro nodes cursor
  rw [satisfies_child]
  exact (hcalls name setting [] cursor (fun _ => rfl) (hexpects _) Node.throughout_nil).imp
    fun h => ⟨_, rfl, h⟩

theorem adds_innerExpression : Grammar.innerExpression.Adds expand setting :=
  adds_child hcalls (.expression .default) fun _ => trivial

theorem adds_branch : Grammar.branch.Adds expand setting := by
  intro nodes cursor
  rw [Grammar.branch, satisfies_ifAt]
  exact ⟨fun _ => adds_child hcalls .block (fun _ => trivial) _ _,
    fun _ => adds_innerExpression hcalls _ _⟩

theorem adds_alternative (context : Context) :
    (Grammar.alternative context).Adds expand setting := by
  intro nodes cursor
  rw [Grammar.alternative, satisfies_onKind]
  split
  · exact adds_child hcalls .block (fun _ => trivial) _ _
  · split
    · exact adds_child hcalls .conditional (fun _ => trivial) _ _
    · exact adds_innerExpression hcalls _ _
  · exact adds_innerExpression hcalls _ _

end Rule

namespace Nonterminal

variable (hcalls : AllKeepHeads expand) (hbare : AllStayBare expand)

include hcalls hbare

theorem isBare_head :
    ((Rule.within .condition Grammar.defaultExpression).run expand setting nodes cursor).Satisfies
      True fun after _ =>
        ∃ head : Node, after = nodes ++ [head] ∧ head.Bare ∧ Throughout KeepsBrace [head] := by
  simp only [Grammar.defaultExpression, Rule.satisfies_within, Rule.satisfies_child]
  refine ((hcalls (.expression .default) _ _ _ (fun _ => rfl) trivial Node.throughout_nil).and
    (hbare (.expression .default) _ _ _ rfl rfl)).imp ?_
  rintro _ _ ⟨hkeeps, head, rfl, hhead⟩
  exact ⟨head, rfl, hhead, hkeeps⟩

omit hcalls hbare in
theorem ifHead_innerInField {opening head : Node} (hopening : opening.KeepsBrace)
    (hleaf : opening.children = []) (hhead : head.Bare) (hkeeps : Throughout KeepsBrace [head]) :
    IfHead ([opening] ++ head.innerInField .condition) ∧
      Throughout KeepsBrace ([opening] ++ head.innerInField .condition) := by
  refine ⟨?_, Node.throughout_append.mpr ⟨?_, ?_⟩⟩
  · rcases head.innerInField_eq .condition with ⟨_, inner, _, -, -, hinner⟩ | hinner <;> rw [hinner]
    · exact .inr ⟨_, rfl, rfl, Nat.lt_succ_self 3⟩
    · exact .inl ⟨_, rfl, Node.bare_withField.mpr hhead⟩
  · simp [hopening, hleaf]
  · exact hkeeps.innerInField (fun _ _ => Node.keepsBrace_withField) .condition

theorem keepsHeads_conditional :
    (conditional.rule.run expand setting [] cursor).Satisfies True fun after _ =>
      Throughout KeepsBrace after := by
  simp only [rule, Grammar.conditional, Rule.satisfies_byContext, Rule.satisfies_steps_cons,
    Rule.satisfies_steps_singleton, Rule.satisfies_expect, List.nil_append]
  refine ⟨fun _ => ?_, fun _ => trivial⟩
  refine (isBare_head hcalls hbare).imp ?_
  rintro _ _ ⟨head, rfl, hhead, hkeeps⟩
  rw [Rule.satisfies_labelInner, replaceLast_concat]
  have hread := ifHead_innerInField (Node.keepsBrace_ofToken (setting.stream.get cursor.position))
    rfl hhead hkeeps
  refine ((Rule.adds_branch hcalls).inField lasting_ifHead _ hread).imp ?_
  intro nodes _ hread
  have hwrap (nodes : List Node) (offset : UInt32) (kind : NodeKind) (hkind : kind ≠ .forStatement)
      (h : IfHead nodes ∧ Throughout KeepsBrace nodes) :
      Throughout KeepsBrace [.ofChildren kind offset nodes] := by
    simp only [Node.throughout_cons, Node.throughout_nil, and_true]
    exact ⟨⟨fun _ => h.1, fun h => absurd h hkind⟩, h.2⟩
  have hkind : (if setting.context = .statement then NodeKind.ifStatement else .ifExpression) ≠
      .forStatement := by
    split <;> decide
  simp only [Rule.satisfies_ifAt, Rule.satisfies_steps_cons, Rule.satisfies_steps_singleton,
    Rule.satisfies_take, Rule.satisfies_empty, Rule.satisfies_wrap]
  refine ⟨fun _ => ?_, fun _ => hwrap _ _ _ hkind hread⟩
  refine ((Rule.adds_alternative hcalls _).inField lasting_ifHead _ ⟨?_, ?_⟩).imp ?_
  · exact lasting_ifHead.append _ _ hread.1
  · refine Node.throughout_append.mpr ⟨hread.2, ?_⟩
    simp [Node.ofTokenAs, Node.keepsBrace_ofToken]
  · exact fun h => hwrap _ _ _ hkind h

omit hbare in
theorem forHead_parenthesised (h : ForHead nodes ∧ Throughout KeepsBrace nodes) :
    ((Grammar.forHeader true).run expand setting nodes cursor).Satisfies True fun after _ =>
      ForHead after ∧ Throughout KeepsBrace after := by
  have hexpression : (Rule.within .expression Grammar.defaultExpression).Adds expand setting :=
    Rule.adds_child hcalls (.expression .default) fun _ => trivial
  simp only [Grammar.forHeader, Rule.satisfies_steps_cons, Rule.satisfies_steps_singleton, if_true]
  refine ((Rule.adds_expect .identifier).inField lasting_forHead _ h).imp fun h => ?_
  refine ((Rule.adds_expect .inKeyword).keeps lasting_forHead h).imp fun h => ?_
  refine (hexpression.inField lasting_forHead _ h).imp fun h => ?_
  exact (Rule.adds_expect .closeParen).keeps lasting_forHead h

theorem forHead_bare {keyword : Token} :
    ((Grammar.forHeader false).run expand setting [.ofToken keyword] cursor).Satisfies True
      fun after _ => ForHead after ∧ Throughout KeepsBrace after := by
  simp only [Grammar.forHeader, Rule.satisfies_steps_cons, Rule.satisfies_steps_singleton,
    Rule.satisfies_inField, Rule.satisfies_expect, Bool.false_eq_true, if_false, replaceLast,
    List.cons_append, List.nil_append]
  refine ⟨fun _ => ⟨fun _ => ?_, fun _ => trivial⟩, fun _ => trivial⟩
  refine (isBare_head hcalls hbare).imp ?_
  rintro _ _ ⟨head, rfl, hhead, hkeeps⟩
  refine ⟨.inl ⟨head.withField .iterable, rfl, Node.bare_withField.mpr hhead⟩, ?_⟩
  simp only [Node.throughout_cons, Node.throughout_nil, and_true] at hkeeps
  simp [replaceLast, Node.keepsBrace_ofToken, Node.keepsBrace_withField, hkeeps]

theorem keepsHeads_forStatement :
    (forStatement.rule.run expand setting [] cursor).Satisfies True fun after _ =>
      Throughout KeepsBrace after := by
  have hbody (nodes : List Node) (cursor : Cursor)
      (h : ForHead nodes ∧ Throughout KeepsBrace nodes) :
      ((Rule.inField .body (Rule.child .block)).run expand setting nodes cursor).Satisfies True
        fun after cursor => ((Rule.wrap .forStatement).run expand setting after cursor).Satisfies
          True fun after _ => Throughout KeepsBrace after := by
    refine ((Rule.adds_child hcalls .block fun _ => trivial).inField lasting_forHead _ h).imp ?_
    intro nodes _ h
    simp only [Rule.satisfies_wrap, Node.throughout_cons, Node.throughout_nil, and_true]
    exact ⟨⟨by simp, fun _ => h.1⟩, h.2⟩
  simp only [rule, Grammar.forStatement, Rule.satisfies_steps_cons, Rule.satisfies_expect,
    Rule.satisfies_ifAt, Rule.satisfies_take, List.nil_append, List.cons_append]
  refine ⟨fun _ => ⟨fun hparen => ?_, fun _ => ?_⟩, fun _ => trivial⟩
  · refine (forHead_parenthesised hcalls ⟨.inr ⟨_, List.mem_cons_of_mem _ List.mem_cons_self, ?_⟩,
      ?_⟩).imp fun h => hbody _ _ h
    · exact congrArg NodeKind.ofToken hparen
    · simp [Node.ofTokenAs, Node.keepsBrace_ofToken]
  · exact (forHead_bare hcalls hbare).imp fun h => hbody _ _ h

omit hcalls hbare

theorem allKeepHeads_run (depth : Nat) : AllKeepHeads (run depth) := by
  induction depth with
  | zero =>
    intro name setting nodes cursor _ _ _
    simp [run, Outcome.Satisfies]
  | succ depth ih =>
    intro name setting nodes cursor hfresh hexpects hnodes
    by_cases hconditional : name = .conditional
    · obtain rfl := hconditional
      obtain rfl := hfresh rfl
      exact keepsHeads_conditional ih (allStayBare_run depth)
    by_cases hloop : name = .forStatement
    · obtain rfl := hloop
      obtain rfl := hfresh rfl
      exact keepsHeads_forStatement ih (allStayBare_run depth)
    rw [← Outcome.keeps_heads_iff]
    refine (heeds_rule name setting.stream.kind cursor.position hexpects).keeps
      (keeps_heads hconditional hloop) (run_advances depth) ?_ hfresh trivial hnodes
    intro name fresh inner nodes cursor hstream hcall hfresh hexpects _ hnodes
    exact Outcome.keeps_heads_iff.mpr
      (ih name inner nodes cursor (fun h => hfresh (hcall.1 h)) (hstream ▸ hexpects) hnodes)

end Nonterminal

theorem Setting.Items.keepsBrace {setting : Setting} {start : Nat}
    {items : List (Node × ItemExtent)} (h : setting.Items start items) :
    Throughout KeepsBrace (items.map (·.1)) := by
  change Throughout Invariant.heads.node _
  refine h.throughout fun cursor => ?_
  exact Rule.keeps_recover Nonterminal.action_advances (fun _ => Node.keepsBrace_ofToken _)
    (fun _ _ _ _ => Node.keepsBrace_errorNode) (fun _ _ _ => trivial) Node.throughout_nil
    (Outcome.keeps_heads_iff.mpr (Nonterminal.allKeepHeads_run _ .item _ _ _ (fun _ => rfl) trivial
      Node.throughout_nil))
    fun _ => trivial

end LosslessSyntax
