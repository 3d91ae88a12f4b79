import LosslessSyntax.Proofs.Conditions.Bare
import LosslessSyntax.Proofs.Grammar.Licences
import LosslessSyntax.Proofs.Types.RoundTrip
/-!
Operands of types: what is read as a type has no reference to a type with a suffix in it, and no
suffix behind a type that ends in a function type.
-/
namespace LosslessSyntax

open Node (Throughout)

def NodeKind.suffixed : List NodeKind := [.optionalType, .sliceType]

namespace Node

/-- A function type, or a reference to what ends in one. -/
inductive EndsInFunction : Node → Prop where
  | function {node : Node} (kind : node.kind = .functionType) : EndsInFunction node
  | reference {node target : Node} (kind : node.kind = .referenceType)
      (child : target ∈ node.children) (ends : EndsInFunction target) : EndsInFunction node

/-- The operands of references and suffixes are such that no parentheses are missing. Their other
children are tokens, of which the same holds. -/
structure KeepsOperands (node : Node) : Prop where
  reference : node.kind = .referenceType →
    ∀ target ∈ node.children, target.kind ∉ NodeKind.suffixed
  suffix : node.kind ∈ NodeKind.suffixed →
    ∀ operand ∈ node.children, ¬operand.EndsInFunction

variable {node : Node}

theorem not_endsInFunction (hfunction : node.kind ≠ .functionType)
    (hreference : node.kind ≠ .referenceType) : ¬node.EndsInFunction := by
  rintro (hkind | ⟨hkind, -, -⟩)
  · exact hfunction hkind
  · exact hreference hkind

theorem endsInFunction_withField {field : Field} (h : (node.withField field).EndsInFunction) :
    node.EndsInFunction := by
  cases h with
  | function kind => exact .function kind
  | reference kind child ends => exact .reference kind child ends

theorem kind_ofToken_notMem (token : Token) :
    (ofToken token).kind ∉ [.functionType, .referenceType, .optionalType, .sliceType] := by
  have hkinds : ∀ kind, NodeKind.ofToken kind ∉
      [.functionType, .referenceType, .optionalType, .sliceType] := by decide
  exact hkinds token.kind

theorem not_endsInFunction_ofToken (token : Token) : ¬(ofToken token).EndsInFunction := by
  have hkind := kind_ofToken_notMem token
  simp only [List.mem_cons, not_or] at hkind
  exact not_endsInFunction hkind.1 hkind.2.1

end Node

/-- The fragment is one type, and a suffix behind it is not for a function type at its end. Read for
a reference, the type has no suffix. -/
def OperandTypeAt (stream : TokenStream) (power : BindingPower) (nodes : List Node)
    (cursor : Cursor) : Prop :=
  ∃ node : Node, nodes = [node] ∧
    (node.EndsInFunction → ¬stream.HasSuffix cursor.position) ∧
    (.member ≤ power → node.kind ∉ NodeKind.suffixed)

/-- The fragment is one type, and all suffixes that bind tighter than a power have been read. -/
def TypeAt (stream : TokenStream) (power : BindingPower) (nodes : List Node) (cursor : Cursor) :
    Prop :=
  OperandTypeAt stream power nodes cursor ∧ (power < .member → ¬stream.HasSuffix cursor.position)

namespace Nonterminal

def EndsType (setting : Setting) (nodes : List Node) (cursor : Cursor)
    (outcome : Outcome (List Node)) : Nonterminal → Prop
  | .type power => nodes = [] → outcome.Satisfies True (TypeAt setting.stream power)
  | .suffixes power =>
    OperandTypeAt setting.stream power nodes cursor →
      outcome.Satisfies True (TypeAt setting.stream power)
  | .primitiveType | .genericTypeParameter | .referenceType | .arrayType | .functionType
  | .tupleType | .namedType =>
    nodes = [] → outcome.Satisfies True fun after cursor =>
      ∀ power, OperandTypeAt setting.stream power after cursor
  | _ => True

def AllEndTypes (expand : Nonterminal → Action) : Prop :=
  ∀ (name : Nonterminal) (setting : Setting) (nodes : List Node) (cursor : Cursor),
    name.EndsType setting nodes cursor (expand name setting nodes cursor)

variable {expand : Nonterminal → Action} {setting : Setting} {nodes : List Node} {cursor : Cursor}

theorem operandTypeAt_of_kind {stream : TokenStream} {power : BindingPower} {node : Node}
    (h : node.kind ∉ [.functionType, .referenceType, .optionalType, .sliceType]) :
    OperandTypeAt stream power [node] cursor := by
  simp only [List.mem_cons, List.not_mem_nil, or_false, not_or] at h
  exact ⟨node, rfl, fun hends => absurd hends (Node.not_endsInFunction h.1 h.2.1),
    fun _ => by simp [NodeKind.suffixed, h]⟩

theorem endsType_of_endsIn {rule : Rule}
    (h : rule.EndsIn (· ∉ [.functionType, .referenceType, .optionalType, .sliceType])) :
    (rule.run expand setting nodes cursor).Satisfies True fun after cursor =>
      ∀ power, OperandTypeAt setting.stream power after cursor := by
  refine h.satisfies.imp ?_
  rintro _ _ ⟨node, rfl, hkind⟩
  exact fun _ => operandTypeAt_of_kind hkind

variable (hcalls : AllEndTypes expand)

include hcalls

theorem endsType_referenceType :
    (referenceType.rule.run expand setting [] cursor).Satisfies True fun after cursor =>
      ∀ power, OperandTypeAt setting.stream power after cursor := by
  simp only [rule, Grammar.referenceType, Rule.satisfies_steps_cons, Rule.satisfies_steps_singleton,
    Rule.satisfies_expect, Rule.satisfies_inField, Rule.satisfies_child, Rule.satisfies_wrap]
  refine ⟨fun _ => ?_, fun _ => trivial⟩
  refine (hcalls (.type .member) setting _ _ rfl).imp ?_
  rintro _ after ⟨⟨target, rfl, hends, -⟩, -⟩ power
  refine ⟨_, rfl, fun hreference => ?_, fun _ => by simp [Node.ofChildren, NodeKind.suffixed]⟩
  refine hends ?_
  cases hreference with
  | function hkind => simp [Node.ofChildren] at hkind
  | reference _ hchild hends =>
    simp only [Node.ofChildren, List.nil_append, List.singleton_append, replaceLast, List.mem_cons,
      List.not_mem_nil, or_false] at hchild
    rcases hchild with rfl | rfl
    · exact absurd hends (Node.not_endsInFunction_ofToken _)
    · exact Node.endsInFunction_withField hends

theorem endsType_functionType :
    (functionType.rule.run expand setting nodes cursor).Satisfies True fun after cursor =>
      ∀ power, OperandTypeAt setting.stream power after cursor := by
  simp only [rule, Grammar.functionType, Grammar.anyType, Rule.satisfies_steps_cons,
    Rule.satisfies_steps_singleton, Rule.satisfies_expect, Rule.satisfies_inField,
    Rule.satisfies_child, Rule.satisfies_wrap, Rule.satisfies_call]
  refine ⟨fun _ => ⟨fun _ => ?_, fun _ => trivial⟩, fun _ => trivial⟩
  refine .of_forall fun list _ => ⟨fun _ => ?_, fun _ => trivial⟩
  refine (hcalls (.type .default) setting _ _ rfl).imp ?_
  rintro _ after ⟨⟨result, rfl, -⟩, hnone⟩ power
  rw [replaceLast_concat]
  refine ⟨_, rfl, fun _ => ?_, fun _ => by simp [Node.ofChildren, NodeKind.suffixed]⟩
  simpa using hnone (by decide)

theorem endsType_form {form : Nonterminal} {kind : TokenKind}
    (h : Grammar.typeForm? kind = some form) :
    (expand form setting [] cursor).Satisfies True fun after cursor =>
      ∀ power, OperandTypeAt setting.stream power after cursor := by
  have hform := hcalls form setting [] cursor
  revert h
  fun_cases Grammar.typeForm? kind <;> rintro ⟨⟩ <;> exact hform rfl

theorem endsType_type (power : BindingPower) :
    ((type power).rule.run expand setting [] cursor).Satisfies True
      (TypeAt setting.stream power) := by
  simp only [rule, Grammar.type, Rule.satisfies_onKind]
  split
  · rename_i form hform
    simp only [Rule.satisfies_steps_cons, Rule.satisfies_steps_singleton, Rule.satisfies_call]
    refine (endsType_form hcalls hform).imp fun hafter => ?_
    exact hcalls (.suffixes power) setting _ _ (hafter power)
  · trivial

omit hcalls in
theorem satisfies_suffixes {power : BindingPower} {operand : Node}
    {done : List Node → Cursor → Prop}
    (hstop : (power < .member → ¬setting.stream.HasSuffix cursor.position) →
      ∀ after : Cursor, after.position = cursor.position → done [operand] after)
    (hnext : power < .member → setting.stream.HasSuffix cursor.position →
      ∀ kind ∈ NodeKind.suffixed, ∀ (offset : UInt32) (tokens : List Token) (after : Cursor),
        (expand (.suffixes power) setting
          [.ofChildren kind offset (operand.withField .type :: tokens.map .ofToken)]
          after).Satisfies True done) :
    ((suffixes power).rule.run expand setting [operand] cursor).Satisfies True done := by
  simp only [rule, Grammar.suffixes, Rule.satisfies_onKind]
  split
  case h_2 hnone =>
    refine hstop (fun _ => ?_) _ rfl
    rintro (hquestion | ⟨hopen, -⟩)
    · simp [hquestion, Grammar.suffixPower?] at hnone
    · simp [hopen, Grammar.suffixPower?] at hnone
  rename_i own hown
  obtain ⟨rfl, hkind⟩ := Grammar.suffixPower?_eq_some hown
  split
  · rename_i hle
    exact hstop (fun hlt => absurd hlt (Nat.not_lt.mpr hle)) _ rfl
  rename_i hlt
  have hlt := Nat.not_le.mp hlt
  rcases hkind with hquestion | hopen
  · simp only [hquestion, Grammar.suffix?, reduceCtorEq, if_false, Rule.satisfies_steps_cons,
      Rule.satisfies_steps_singleton, Rule.satisfies_label, Rule.satisfies_take,
      Rule.satisfies_wrap, Rule.satisfies_call]
    exact hnext hlt (.inl hquestion) .optionalType (by decide) _ [_] _
  · simp only [hopen, Grammar.suffix?, if_true, Rule.satisfies_look]
    split
    · rename_i hclose
      simp only [Rule.satisfies_steps_cons, Rule.satisfies_steps_singleton, Rule.satisfies_label,
        Rule.satisfies_expect, Rule.satisfies_wrap, Rule.satisfies_call]
      refine ⟨fun _ => ⟨fun _ => ?_, fun _ => trivial⟩, fun _ => trivial⟩
      exact hnext hlt (.inr ⟨hopen, hclose⟩) .sliceType (by decide) _ [_, _] _
    · rename_i hclose
      refine hstop (fun _ => ?_) _ rfl
      rintro (hquestion | ⟨-, hclosed⟩)
      · simp [hopen] at hquestion
      · exact hclose hclosed

theorem endsType_suffixes {power : BindingPower}
    (h : OperandTypeAt setting.stream power nodes cursor) :
    ((suffixes power).rule.run expand setting nodes cursor).Satisfies True
      (TypeAt setting.stream power) := by
  obtain ⟨operand, rfl, hends, hkind⟩ := h
  refine satisfies_suffixes (fun hnone after hafter => ?_)
    fun hlt _ kind hkind offset tokens after => ?_
  · exact ⟨⟨operand, rfl, hafter ▸ hends, hkind⟩, hafter ▸ hnone⟩
  · refine hcalls (.suffixes power) setting _ _
      ⟨_, rfl, fun hends => absurd hends ?_, fun hle => ?_⟩
    · refine Node.not_endsInFunction ?_ ?_
      all_goals
        rintro rfl
        contradiction
    · exact absurd hlt (Nat.not_lt.mpr hle)

omit hcalls in
theorem endsType_primitiveType :
    (primitiveType.rule.run expand setting [] cursor).Satisfies True fun after cursor =>
      ∀ power, OperandTypeAt setting.stream power after cursor := by
  simp only [rule, Grammar.primitiveType, Rule.satisfies_expect]
  refine ⟨fun hkind _ => operandTypeAt_of_kind ?_, fun _ => trivial⟩
  have hleaf : (Node.ofToken (setting.stream.get cursor.position)).kind = .primitiveType :=
    congrArg NodeKind.ofToken hkind
  rw [hleaf]
  decide

theorem endsType_rule (name : Nonterminal) :
    name.EndsType setting nodes cursor (name.rule.run expand setting nodes cursor) := by
  cases name with
  | type power =>
    rintro rfl
    exact endsType_type hcalls power
  | suffixes power => exact endsType_suffixes hcalls
  | primitiveType =>
    rintro rfl
    exact endsType_primitiveType
  | referenceType =>
    rintro rfl
    exact endsType_referenceType hcalls
  | functionType => exact fun _ => endsType_functionType hcalls
  | genericTypeParameter =>
    exact fun _ => endsType_of_endsIn (by simp [rule, Grammar.genericTypeParameter])
  | arrayType => exact fun _ => endsType_of_endsIn (by simp [rule, Grammar.arrayType])
  | tupleType => exact fun _ => endsType_of_endsIn (by simp [rule, Grammar.tupleType])
  | namedType => exact fun _ => endsType_of_endsIn (by simp [rule, Grammar.namedType])
  | _ => trivial

omit hcalls

theorem allEndTypes_run (depth : Nat) : AllEndTypes (run depth) := by
  induction depth with
  | zero =>
    intro name setting nodes cursor
    cases name with
    | type | suffixes | primitiveType | genericTypeParameter | referenceType | arrayType
    | functionType | tupleType | namedType => exact fun _ => trivial
    | _ => trivial
  | succ depth ih => exact fun name _ _ _ => endsType_rule ih name

end Nonterminal

namespace Node

theorem keepsOperands_of_kind {node : Node} (h : node.kind ∉ NodeKind.typeOperators) :
    node.KeepsOperands := by
  simp only [NodeKind.typeOperators, List.mem_cons, List.not_mem_nil, or_false, not_or] at h
  exact ⟨fun hkind => absurd hkind h.1, fun hkind => by simp [NodeKind.suffixed, h] at hkind⟩

theorem keepsOperands_ofToken (token : Token) : (ofToken token).KeepsOperands := by
  have hkinds : ∀ kind, NodeKind.ofToken kind ∉ NodeKind.typeOperators := by decide
  exact keepsOperands_of_kind (hkinds token.kind)

theorem keepsOperands_withField {node : Node} {field : Field} (h : node.KeepsOperands) :
    (node.withField field).KeepsOperands := ⟨h.reference, h.suffix⟩

end Node

open Node (KeepsOperands)

namespace Nonterminal

/-- In all that nonterminals make, operands are as they have to be. The loop over suffixes relies on
the operand that it finds. -/
def AllKeepOperands (expand : Nonterminal → Action) : Prop :=
  ∀ (name : Nonterminal) (setting : Setting) (nodes : List Node) (cursor : Cursor),
    (name.isFresh → nodes = []) → name.Expects [setting.stream.kind cursor.position] →
    Throughout KeepsOperands nodes →
    (∀ power, name = .suffixes power → OperandTypeAt setting.stream power nodes cursor) →
    (expand name setting nodes cursor).Satisfies True fun after _ => Throughout KeepsOperands after

theorem keeps_operands {name : Nonterminal} {stream : TokenStream} {start : Nat}
    (hname : name.makesOperators = false) :
    (name.licence stream.kind start).Keeps stream (.ofNodes KeepsOperands) := by
  refine Licence.keeps_ofNodes (fun _ => Node.keepsOperands_of_kind)
    (fun _ _ => Node.keepsOperands_withField) (fun kind hmakes hkind => ?_) (by decide) (by decide)
  simpa [hname] using hmakes.2.2 hkind

variable {expand : Nonterminal → Action} {setting : Setting} {nodes : List Node} {cursor : Cursor}
  (hcalls : AllKeepOperands expand) (htypes : AllEndTypes expand)

include hcalls htypes

theorem keepsOperands_referenceType :
    (referenceType.rule.run expand setting [] cursor).Satisfies True fun after _ =>
      Throughout KeepsOperands after := by
  simp only [rule, Grammar.referenceType, Rule.satisfies_steps_cons, Rule.satisfies_steps_singleton,
    Rule.satisfies_expect, Rule.satisfies_inField, Rule.satisfies_child, Rule.satisfies_wrap]
  refine ⟨fun _ => ?_, fun _ => trivial⟩
  refine ((htypes (.type .member) setting _ _ rfl).and
    (hcalls (.type .member) setting _ _ (fun _ => rfl) trivial Node.throughout_nil
      fun _ h => Nonterminal.noConfusion h)).imp ?_
  rintro _ after ⟨⟨⟨target, rfl, -, hkind⟩, -⟩, htarget⟩
  simp only [List.nil_append, List.singleton_append, replaceLast, Node.throughout_cons,
    Node.throughout_nil, and_true] at htarget ⊢
  refine ⟨⟨fun _ child hchild => ?_, fun hsuffixed => ?_⟩, ?_⟩
  · simp only [Node.ofChildren, List.mem_cons, List.not_mem_nil, or_false] at hchild
    rcases hchild with rfl | rfl
    · exact fun hmem => Node.kind_ofToken_notMem _
        (List.mem_cons_of_mem _ (List.mem_cons_of_mem _ hmem))
    · exact hkind (Nat.le_refl _)
  · simp [Node.ofChildren, NodeKind.suffixed] at hsuffixed
  · simp [Node.ofChildren, Node.keepsOperands_ofToken, Node.keepsOperands_withField htarget.1,
      htarget.2]

omit htypes in
/-- A suffix is put behind a type only if that does not end in a function type, whose result would
have taken the suffix. -/
theorem keepsOperands_suffixes {power : BindingPower} (hnodes : Throughout KeepsOperands nodes)
    (h : OperandTypeAt setting.stream power nodes cursor) :
    ((suffixes power).rule.run expand setting nodes cursor).Satisfies True fun after _ =>
      Throughout KeepsOperands after := by
  obtain ⟨operand, rfl, hends, -⟩ := h
  refine satisfies_suffixes (fun _ _ _ => hnodes)
    fun hlt hsuffix kind hkind offset tokens after => ?_
  have hfunction : kind ≠ .functionType ∧ kind ≠ .referenceType := by
    constructor <;>
    · rintro rfl
      contradiction
  refine hcalls (.suffixes power) setting _ _ (by simp [isFresh]) trivial ?_ fun other hother => ?_
  · simp only [Node.throughout_cons, Node.throughout_nil, and_true] at hnodes ⊢
    refine ⟨⟨fun h => absurd h hfunction.2, fun _ child hchild => ?_⟩, ?_⟩
    · rcases List.mem_cons.mp hchild with rfl | hchild
      · exact fun hfunction => hends (Node.endsInFunction_withField hfunction) hsuffix
      · obtain ⟨token, -, rfl⟩ := List.mem_map.mp hchild
        exact Node.not_endsInFunction_ofToken token
    · refine Node.throughout_cons.mpr ⟨Node.keepsOperands_withField hnodes.1, hnodes.2, ?_⟩
      exact Node.throughout_map_ofToken Node.keepsOperands_ofToken _
  · obtain rfl := Nonterminal.suffixes.inj hother
    exact ⟨_, rfl, fun hends => absurd hends (Node.not_endsInFunction hfunction.1 hfunction.2),
      fun hle => absurd hlt (Nat.not_lt.mpr hle)⟩

theorem keepsOperands_type (power : BindingPower) :
    ((type power).rule.run expand setting [] cursor).Satisfies True fun after _ =>
      Throughout KeepsOperands after := by
  simp only [rule, Grammar.type, Rule.satisfies_onKind]
  split
  · rename_i form hform
    have hform' : form.Expects [setting.stream.kind cursor.position] ∧
        ∀ power, form ≠ .suffixes power := by
      revert hform
      fun_cases Grammar.typeForm? (setting.stream.kind cursor.position) <;> rintro ⟨⟩ <;>
        exact ⟨trivial, fun _ => by simp⟩
    simp only [Rule.satisfies_steps_cons, Rule.satisfies_steps_singleton, Rule.satisfies_call]
    have hoperand := hcalls form setting [] (cursor.examineHere setting.stream) (fun _ => rfl)
      hform'.1 Node.throughout_nil fun power h => absurd h (hform'.2 power)
    refine ((endsType_form htypes hform).and hoperand).imp ?_
    rintro left after ⟨htype, hleft⟩
    exact hcalls (.suffixes power) setting _ _ (by simp [isFresh]) trivial hleft
      fun other _ => htype other
  · trivial

omit hcalls htypes

theorem allKeepOperands_run (depth : Nat) : AllKeepOperands (run depth) := by
  induction depth with
  | zero => exact fun _ _ _ _ _ _ _ _ => trivial
  | succ depth ih =>
    intro name setting nodes cursor hfresh hexpects hnodes hsuffixes
    by_cases hreference : name = .referenceType
    · obtain rfl := hreference
      obtain rfl := hfresh rfl
      exact keepsOperands_referenceType ih (allEndTypes_run depth)
    by_cases hloop : name.readsSuffixes
    · cases name with
      | type power =>
        obtain rfl := hfresh rfl
        exact keepsOperands_type ih (allEndTypes_run depth) power
      | suffixes power => exact keepsOperands_suffixes ih hnodes (hsuffixes _ rfl)
      | _ => contradiction
    have hname : name.makesOperators = false := by
      cases name with
      | referenceType | suffixes => contradiction
      | _ => rfl
    rw [← Outcome.keeps_ofNodes_iff]
    refine (heeds_rule name setting.stream.kind cursor.position hexpects).keeps
      (keeps_operands hname) (run_advances depth) ?_ hfresh trivial hnodes
    intro callee fresh inner nodes cursor hstream hcall hfresh hexpects _ hnodes
    refine Outcome.keeps_ofNodes_iff.mpr (ih callee inner nodes cursor (fun h => hfresh (hcall.1 h))
      (hstream ▸ hexpects) hnodes fun power h => ?_)
    exact absurd (hcall.2.2 power h) hloop

theorem keepsOperands_parse {power : BindingPower} {node : Node} {after : Cursor}
    (h : (type power).parse setting cursor = .done node after) :
    ∀ below ∈ node.preorder, below.KeepsOperands := by
  have hkeeps := allKeepOperands_run (callDepth setting.stream) (type power) setting [] cursor
    (fun _ => rfl) trivial Node.throughout_nil fun _ h => Nonterminal.noConfusion h
  simp only [Nonterminal.parse, Rule.parse, Rule.run, action] at h
  split at h
  · rename_i hrun
    rw [hrun] at hkeeps
    cases h
    simpa [Outcome.Satisfies, Throughout, Node.preorderAll] using hkeeps
  · contradiction
  · contradiction

end Nonterminal

namespace TypeTerm

/-- The tokens of a well-formed type, with something behind them that cannot go on with it, are read
as that type and as nothing else. The other way round, whatever is read as a type, in any dialect,
context and at any power, has only such operands of references and suffixes as well-formed types
have. -/
theorem parse_type (setting : Setting) (cursor : Cursor) :
    (∀ type : TypeTerm, type.WellFormed →
      setting.stream.HasKinds cursor.position type.kinds →
      setting.stream.kind (cursor.position + type.length) ≠ .openParen →
      ¬setting.stream.HasSuffix (cursor.position + type.length) →
      ∃ after, (Nonterminal.type .default).parse setting cursor =
          .done (type.node setting.stream cursor.position) after ∧
        after.position = cursor.position + type.length) ∧
    ∀ power node after, (Nonterminal.type power).parse setting cursor = .done node after →
      ∀ below ∈ node.preorder, below.KeepsOperands :=
  ⟨fun _ hformed => hformed.parse_type_eq_done cursor, fun _ _ _ => Nonterminal.keepsOperands_parse⟩

/-- A function type before an assignment, with suffixes, lists and a reference in it. -/
theorem parse_type_function :
    let stream := (TokenStream.ofList?
      (tokenizeSignificant "fn(&$t, n: [u8; 4]) (Pair(u8?[],), ()) = m")).get (by decide +kernel)
    let setting : Setting := ⟨stream, .canonical, .statement, ""⟩
    let type := function [(false, reference parameter), (true, array primitive .number)] false
      (tuple [(false, generic [(false, slice (optional primitive))] true), (false, tuple [] false)]
        false)
    type.WellFormed ∧ stream.HasKinds 0 type.kinds ∧ stream.kind (0 + type.length) ≠ .openParen ∧
      ¬stream.HasSuffix (0 + type.length) ∧
      (∃ after,
        (Nonterminal.type .default).parse setting ⟨0, 0⟩ = .done (type.node stream 0) after ∧
          after.position = 0 + type.length) ∧
      ∀ below ∈ (type.node stream 0).preorder, below.KeepsOperands := by
  intro stream setting type
  have hreference : (reference parameter).WellFormed := .reference .parameter rfl
  have harray : (array primitive .number).WellFormed := .array .primitive (by decide)
  have hslice : (slice (optional primitive)).WellFormed := .slice (.optional .primitive rfl) rfl
  have hgeneric : (generic [(false, slice (optional primitive))] true).WellFormed :=
    .generic (by simp [hslice]) (by simp) (by simp)
  have hunit : (tuple [] false).WellFormed := .tuple (by simp) (by simp)
  have hformed : type.WellFormed :=
    .function (by simp [hreference, harray]) (.tuple (by simp [hgeneric, hunit]) (by simp))
  have hkinds : stream.HasKinds 0 type.kinds := by decide +kernel
  have hnext : stream.kind (0 + type.length) = .assignment := by decide +kernel
  have hsuffix : ¬stream.HasSuffix (0 + type.length) :=
    TokenStream.not_hasSuffix_of_kind hnext (by decide)
  have hname : stream.kind (0 + type.length) ≠ .openParen := by
    rw [hnext]
    decide
  obtain ⟨hread, hkeeps⟩ := parse_type setting ⟨0, 0⟩
  obtain ⟨after, hparse, hstop⟩ := hread type hformed hkinds hname hsuffix
  exact ⟨hformed, hkinds, hname, hsuffix, ⟨after, hparse, hstop⟩, hkeeps .default _ after hparse⟩

end TypeTerm

end LosslessSyntax
