import LosslessSyntax.Proofs.Errors.Reports
import LosslessSyntax.Proofs.Following
/-!
Runs of rules report along paths. Where a run fails, its diagnostic is about a token that it has
come by, so that the error node in its place stands for tokens up to that one at least.
-/
namespace LosslessSyntax

open Node (Throughout)

/-- From a position on a rule has errors stand for tokens, unless a token was read as a leaf just
before, and skipping stops at no malformed token. Wherever the rule ends, the goal holds of the
position and of whether a leaf has just been read there. -/
def Rule.Traceable (kinds : Nat → TokenKind) : Rule → (Bool → Nat → Prop) → Bool → Nat → Prop
  | .empty, goal, solid, position | .label _, goal, solid, position
  | .labelInner _, goal, solid, position => goal solid position
  | .seq first next, goal, solid, position =>
    first.Traceable kinds (next.Traceable kinds goal) solid position
  | .take kind, goal, solid, position =>
    kind ≠ some .error ∧ (kinds position = .eof → goal solid position) ∧
      (kinds position ≠ .eof → goal true (position + 1))
  | .look distance next, goal, solid, position =>
    (next (kinds (position + distance))).Traceable kinds goal solid position
  | .fail _, _, _, _ => True
  | .wrap kind, goal, solid, position => kind ≠ .error ∧ goal solid position
  | .apart rule, goal, solid, position => rule.Traceable kinds goal solid position
  | .call name, goal, solid, _ =>
    (name = .parameterList → solid) ∧ ∀ solid later, goal solid later
  | .within _ rule, goal, solid, position => rule.Traceable kinds goal solid position
  | .byContext next, goal, solid, position =>
    ∀ context, (next context).Traceable kinds goal solid position
  | .byDialect next, goal, solid, position =>
    ∀ dialect, (next dialect).Traceable kinds goal solid position
  | .byOperand next, goal, solid, position =>
    ∀ operand, (next operand).Traceable kinds goal solid position
  | .recover recovery rule, goal, solid, position =>
    (solid ∨ recovery.forceProgress ∧ kinds position ≠ .eof) ∧
      (∀ reason, .error reason ∉ recovery.stop) ∧
      rule.Traceable kinds (fun _ _ => True) solid position ∧ ∀ solid later, goal solid later
  | .attempt trial next otherwise, goal, solid, position =>
    trial.Traceable kinds (next.Traceable kinds goal) solid position ∧
      otherwise.Traceable kinds goal solid position
  | .naming rule, goal, solid, position => rule.Traceable kinds goal solid position

namespace Node

/-- The diagnostic of an error begins no later than those of its tokens. -/
def Prompt (node : Node) : Prop :=
  node.kind = .error → ∀ own ∈ node.diagnostic, ∀ child ∈ node.children,
    ∀ diagnostic ∈ child.diagnostic, own.Before diagnostic

structure Upright (node : Node) : Prop where
  marked : node.IsMarked
  first : ∀ child ∈ node.children.head?, node.span.start = child.span.start

theorem lingers_prompt : Lingers Prompt where
  withField _ _ := Iff.rfl
  grouped node hkind _ herror := by
    rw [hkind] at herror
    contradiction

theorem Upright.withField (node : Node) (field : Field) (h : node.Upright) :
    (node.withField field).Upright := ⟨h.marked, h.first⟩

theorem prompt_of_leaf {node : Node} (h : node.children = []) : node.Prompt := by
  simp [Prompt, h]

end Node

/-- The nodes are read from `start` up to `stop`, and they report on the way along a path on which
exactly the errors that are not prompt break the order. -/
structure Traced (stream : TokenStream) (start : Nat) (entry : Bool) (stop : Nat) (solid : Bool)
    (nodes : List Node) : Prop where
  path : ∃ runs, Reports stream start entry stop solid runs ∧
    Node.reported nodes = runs.flatten ∧
    (Throughout Node.Prompt nodes ↔ ∀ run ∈ runs, run.Pairwise Diagnostic.Before)
  still : nodes = [] → stop = start
  head : ∀ node ∈ nodes.head?, node.span.start = (stream.get start).span.start
  upright : Throughout Node.Upright nodes

def Outcome.Traces (stream : TokenStream) (start : Nat) (entry : Bool)
    (goal : Bool → Nat → Prop) : Outcome (List Node) → Prop
  | .done nodes cursor =>
    ∃ solid, Traced stream start entry cursor.position solid nodes ∧ goal solid cursor.position
  | .failed diagnostic cursor => diagnostic.isInternal = false →
    ∃ index, start ≤ index ∧ index ≤ cursor.position ∧ diagnostic.IsAt stream index

namespace Cursor

variable {cursor : Cursor} {stream : TokenStream} {recovery : Recovery}

theorem kind_of_skipUntil_eq {fuel : Nat}
    (h : (cursor.skipUntil recovery stream (fuel + 1)).position = cursor.position) :
    stream.kind cursor.position = .eof ∨ stream.kind cursor.position ∈ recovery.stop := by
  simp only [skipUntil] at h
  by_contra hkind
  have hmoved : (cursor.advance stream).position = cursor.position + 1 :=
    advance_position_of_ne_eof fun heof => hkind (.inl heof)
  rw [if_neg hkind] at h
  split at h
  · omega
  · have := (cursor.advance stream).position_le_skipUntil stream recovery fuel
    omega

theorem kind_of_skip_eq {start : Nat}
    (h : (cursor.skip recovery stream start).position = cursor.position) :
    stream.kind cursor.position = .eof ∨ stream.kind cursor.position ∈ recovery.stop := by
  simp only [skip] at h
  split at h
  · rename_i hforced
    have hmoved : (cursor.advance stream).position = cursor.position + 1 :=
      advance_position_of_ne_eof hforced.2.2
    split at h
    · omega
    · have := (cursor.advance stream).position_le_skipUntil stream recovery stream.size
      omega
  · exact kind_of_skipUntil_eq h

end Cursor

namespace TokenStream

variable {stream : TokenStream} {index : Nat}

theorem lexical_eq_nil (h : ∀ reason, stream.kind index ≠ .error reason) :
    stream.lexical index = [] := by
  simp only [lexical, Node.ofToken]
  split
  · exact absurd (by assumption) (h _)
  · rfl

end TokenStream

namespace Node

variable {node : Node} {nodes : List Node} {stream : TokenStream} {start stop : Nat}

theorem preorderAll_map_ofToken (tokens : List Token) :
    preorderAll (tokens.map ofToken) = tokens.map ofToken := by
  induction tokens with
  | nil => rfl
  | cons token tokens ih => simp [preorderAll, preorder_eq, ih]

theorem upright_ofToken (token : Token) : (ofToken token).Upright :=
  ⟨isMarked_ofToken token, by simp⟩

theorem first_spanOf (offset : UInt32) :
    ∀ child ∈ nodes.head?, (spanOf offset nodes).start = child.span.start := by
  rintro child hchild
  obtain ⟨last, hlast⟩ : ∃ last, nodes.getLast? = some last :=
    ⟨_, List.getLast?_eq_some_getLast (List.ne_nil_of_mem (List.mem_of_mem_head? hchild))⟩
  simp only [spanOf, Option.mem_def.mp hchild, hlast]

theorem upright_ofChildren {kind : NodeKind} (hkind : kind ≠ .error) (offset : UInt32)
    (children : List Node) : (ofChildren kind offset children).Upright :=
  ⟨isMarked_ofChildren hkind, first_spanOf offset⟩

theorem upright_errorNode (diagnostic : Diagnostic) :
    (stream.errorNode start stop diagnostic).Upright :=
  ⟨by simp [IsMarked, TokenStream.errorNode, ofChildren], first_spanOf _⟩

theorem children_ofTokenAs (kind : Option NodeKind) (token : Token) :
    (ofTokenAs kind token).children = [] := by
  cases kind <;> rfl

theorem span_ofTokenAs (kind : Option NodeKind) (token : Token) :
    (ofTokenAs kind token).span = token.span := by
  cases kind <;> rfl

theorem prompt_ofTokenAs (kind : Option NodeKind) (token : Token) :
    Throughout Prompt [ofTokenAs kind token] := by
  rw [throughout_cons, children_ofTokenAs]
  exact ⟨prompt_of_leaf (children_ofTokenAs kind token), throughout_nil, throughout_nil⟩

theorem upright_ofTokenAs {kind : Option NodeKind} (hkind : kind ≠ some .error) (token : Token) :
    Throughout Upright [ofTokenAs kind token] := by
  rw [throughout_cons, children_ofTokenAs]
  refine ⟨⟨?_, by simp [children_ofTokenAs]⟩, throughout_nil, throughout_nil⟩
  cases kind with
  | none => exact isMarked_ofToken token
  | some kind =>
    have hne : kind ≠ .error := fun h => hkind (congrArg some h)
    simp [IsMarked, ofTokenAs, leaf, hne]

theorem reported_ofTokenAs (kind : Option NodeKind) :
    reported [ofTokenAs kind (stream.get stop)] = [] ∨
      reported [ofTokenAs kind (stream.get stop)] = stream.lexical stop := by
  rw [reported_singleton, children_ofTokenAs, reported_nil, List.append_nil]
  cases kind with
  | none => exact .inr rfl
  | some kind => exact .inl rfl

theorem pairwise_reported_ofTokenAs (kind : Option NodeKind) :
    (reported [ofTokenAs kind (stream.get stop)]).Pairwise Diagnostic.Before := by
  rw [reported_singleton, children_ofTokenAs, reported_nil, List.append_nil]
  cases (ofTokenAs kind (stream.get stop)).diagnostic <;> simp

theorem reported_errorNode (diagnostic : Diagnostic) :
    reported [stream.errorNode start stop diagnostic] =
      diagnostic :: stream.lexicals start stop := by
  rw [reported_singleton]
  rfl

theorem throughout_prompt_errorNode_iff {diagnostic : Diagnostic} :
    Throughout Prompt [stream.errorNode start stop diagnostic] ↔
      ∀ next ∈ stream.lexicals start stop, diagnostic.Before next := by
  have hleaves : Throughout Prompt (stream.errorNode start stop diagnostic).children :=
    throughout_children_errorNode fun _ => prompt_of_leaf rfl
  rw [throughout_cons, and_iff_left ⟨hleaves, throughout_nil⟩, TokenStream.lexicals, reported,
    preorderAll_map_ofToken]
  simp only [Prompt, TokenStream.errorNode, ofChildren, Option.mem_def, Option.some.injEq,
    forall_eq', List.mem_filterMap, forall_exists_index, and_imp, true_implies]
  exact ⟨fun h next child hchild => h child hchild next,
    fun h child hchild next => h next child hchild⟩

end Node

namespace Traced

variable {stream : TokenStream} {start middle stop : Nat} {entry solid solid' : Bool}
  {nodes more : List Node} {node : Node} {field : Field}

theorem nil (hstart : start ≤ stream.body.size) : Traced stream start entry start entry [] where
  path := ⟨[], .nil hstart, rfl, by simp⟩
  still _ := rfl
  head := by simp
  upright := Node.throughout_nil

theorem le (h : Traced stream start entry stop solid nodes) : start ≤ stop :=
  let ⟨_, hpath, _⟩ := h.path
  hpath.le

theorem bound (h : Traced stream start entry stop solid nodes) : stop ≤ stream.body.size :=
  let ⟨_, hpath, _⟩ := h.path
  hpath.bound

theorem append (hfront : Traced stream start entry middle solid' nodes)
    (hback : Traced stream middle solid' stop solid more) :
    Traced stream start entry stop solid (nodes ++ more) := by
  obtain ⟨runs, hruns, hreported, hprompt⟩ := hfront.path
  obtain ⟨runs', hruns', hreported', hprompt'⟩ := hback.path
  constructor
  case path =>
    refine ⟨runs ++ runs', hruns.append hruns', ?_, ?_⟩
    · rw [Node.reported_append, hreported, hreported', List.flatten_append]
    · rw [Node.throughout_append, hprompt, hprompt', List.forall_mem_append]
  case still =>
    intro hnil
    obtain ⟨hnodes, hmore⟩ := List.append_eq_nil_iff.mp hnil
    rw [hback.still hmore, hfront.still hnodes]
  case head =>
    cases nodes with
    | nil => exact hfront.still rfl ▸ hback.head
    | cons node nodes => exact hfront.head
  case upright => exact Node.throughout_append.mpr ⟨hfront.upright, hback.upright⟩

theorem congr (h : Traced stream start entry stop solid nodes)
    (hreported : Node.reported more = Node.reported nodes)
    (hprompt : Throughout Node.Prompt more ↔ Throughout Node.Prompt nodes)
    (hstill : more = [] → nodes = [])
    (hhead : ∀ node ∈ more.head?, node.span.start = (stream.get start).span.start)
    (hupright : Throughout Node.Upright more) : Traced stream start entry stop solid more := by
  obtain ⟨runs, hruns, hflatten, hiff⟩ := h.path
  exact ⟨⟨runs, hruns, hreported.trans hflatten, hprompt.trans hiff⟩,
    fun hmore => h.still (hstill hmore), hhead, hupright⟩

theorem leaf {kind : Option NodeKind} (hkind : kind ≠ some .error)
    (hstop : stop < stream.body.size) :
    Traced stream stop solid (stop + 1) true [.ofTokenAs kind (stream.get stop)] where
  path := by
    refine ⟨[_], .leaf (.nil hstop.le) hstop (Node.reported_ofTokenAs kind),
      List.flatten_singleton.symm, iff_of_true (Node.prompt_ofTokenAs kind _) ?_⟩
    rintro _ (_ | ⟨_, ⟨⟩⟩)
    exact Node.pairwise_reported_ofTokenAs kind
  still := by simp
  head := by simp [Node.span_ofTokenAs]
  upright := Node.upright_ofTokenAs hkind _

theorem endOfFile {kind : Option NodeKind} (hkind : kind ≠ some .error)
    (hstop : stop ≤ stream.body.size) (heof : stream.kind stop = .eof) :
    Traced stream stop solid stop solid [.ofTokenAs kind (stream.get stop)] where
  path := by
    refine ⟨[], .nil hstop, ?_, iff_of_true (Node.prompt_ofTokenAs kind _) (by simp)⟩
    have hlexical : stream.lexical stop = [] := TokenStream.lexical_eq_nil (by simp [heof])
    rcases Node.reported_ofTokenAs kind with h | h
    · exact h
    · rw [h, hlexical]
      rfl
  still := by simp
  head := by simp [Node.span_ofTokenAs]
  upright := Node.upright_ofTokenAs hkind _

theorem replaceLast {change : Node → List Node} (h : Traced stream start entry stop solid nodes)
    (hne : ∀ node, change node ≠ [])
    (hreported : ∀ node : Node, node.Upright → Node.reported (change node) = Node.reported [node])
    (hprompt : ∀ node,
      Throughout Node.Prompt (change node) ↔ Throughout Node.Prompt [node])
    (hhead : ∀ node : Node, node.Upright →
      ∀ first ∈ (change node).head?, first.span.start = node.span.start)
    (hupright : ∀ node, Throughout Node.Upright [node] →
      Throughout Node.Upright (change node)) :
    Traced stream start entry stop solid (replaceLast change nodes) := by
  rcases List.eq_nil_or_concat nodes with rfl | ⟨front, last, rfl⟩
  · exact h
  rw [List.concat_eq_append] at h ⊢
  rw [replaceLast_concat]
  obtain ⟨hfront, hlast⟩ := Node.throughout_append.mp h.upright
  have hself := (Node.throughout_cons.mp hlast).1
  refine h.congr ?_ ?_ ?_ ?_ ?_
  · rw [Node.reported_append, Node.reported_append, hreported last hself]
  · rw [Node.throughout_append, Node.throughout_append, hprompt]
  · simp [hne]
  · intro node hnode
    cases front with
    | nil => rw [hhead last hself node hnode, h.head last rfl]
    | cons first front => exact h.head node hnode
  · exact Node.throughout_append.mpr ⟨hfront, hupright last hlast⟩

theorem label (h : Traced stream start entry stop solid nodes) (field : Field) :
    Traced stream start entry stop solid
      (LosslessSyntax.replaceLast (fun node => [node.withField field]) nodes) := by
  refine h.replaceLast (by simp) (fun node _ => node.reported_withField field) (fun node => ?_)
    (fun node _ => ?_) fun node hnode => ?_
  · simp only [Node.throughout_cons, Node.throughout_nil, Node.lingers_prompt.withField]
    rfl
  · simp [Node.withField]
  · simp only [Node.throughout_cons, Node.throughout_nil, and_true] at hnode ⊢
    exact ⟨hnode.1.withField node field, hnode.2⟩

theorem labelInner (h : Traced stream start entry stop solid nodes) (field : Field) :
    Traced stream start entry stop solid
      (LosslessSyntax.replaceLast (Node.innerInField field) nodes) := by
  refine h.replaceLast (fun node => ?_)
    (fun node hnode => Node.reported_innerInField hnode.marked field) (fun node => ?_)
    (fun node hnode => ?_) fun node hnode => ?_
  · rcases node.innerInField_eq field with ⟨_, _, _, -, -, heq⟩ | heq <;> simp [heq]
  · exact ⟨Node.lingers_prompt.of_innerInField, fun hprompt =>
      hprompt.innerInField (fun _ _ => id) field⟩
  · rcases node.innerInField_eq field with ⟨opening, _, _, -, hchildren, heq⟩ | heq
    · simpa [heq] using (hnode.first opening (by simp [hchildren])).symm
    · simp [heq, Node.withField]
  · exact hnode.innerInField (fun node field h => h.withField node field) field

theorem wrap {kind : NodeKind} (h : Traced stream start entry stop solid nodes)
    (hkind : kind ≠ .error) : Traced stream start entry stop solid
      [.ofChildren kind (stream.get stop).span.start nodes] := by
  have hprompt : (Node.ofChildren kind (stream.get stop).span.start nodes).Prompt :=
    fun herror => absurd herror hkind
  refine h.congr (Node.reported_singleton _) ?_ (by simp) (fun node hnode => ?_) ?_
  · rw [Node.throughout_cons]
    exact ⟨fun hnodes => hnodes.2.1, fun hnodes => ⟨hprompt, hnodes, Node.throughout_nil⟩⟩
  · obtain rfl := Option.some.inj hnode
    cases nodes with
    | nil => rw [h.still rfl]; rfl
    | cons first nodes =>
      rw [← h.head first rfl]
      exact Node.first_spanOf _ first rfl
  · rw [Node.throughout_cons]
    exact ⟨Node.upright_ofChildren hkind _ nodes, h.upright, Node.throughout_nil⟩

theorem error (hordered : stream.Ordered) {index last : Nat} {diagnostic : Diagnostic}
    (hle : stop ≤ index) (hupto : index ≤ last) (hlast : last ≤ stream.body.size)
    (habout : diagnostic.IsAt stream index) (htext : stop < last ∨ solid)
    (hregular : index = last → stream.lexical last = []) :
    Traced stream stop solid last false [stream.errorNode stop last diagnostic] := by
  have hstop := hle.trans hupto
  constructor
  case path =>
    refine ⟨_, .error (.nil (hstop.trans hlast)) hle hupto hlast habout htext hregular, ?_, ?_⟩
    · simpa using Node.reported_errorNode diagnostic
    · rw [Node.throughout_prompt_errorNode_iff]
      simpa using (hordered.pairwise_run hstop hlast).symm
  case still => simp
  case head =>
    intro node hnode
    exact (Covers.errorNode hstop hlast).start_eq hnode
  case upright =>
    exact Node.throughout_errorNode (fun _ => Node.upright_ofToken _)
      (Node.upright_errorNode diagnostic)

end Traced

theorem Failure.exists_isAt {stream : TokenStream} {start stop : Nat} {entry solid : Bool}
    {nodes : List Node} (failure : Failure) (name : String)
    (h : Traced stream start entry stop solid nodes)
    (hinternal : (failure.diagnostic name (stream.get stop) nodes).isInternal = false) :
    ∃ index, start ≤ index ∧ index ≤ stop ∧
      (failure.diagnostic name (stream.get stop) nodes).IsAt stream index := by
  cases failure with
  | misplacedNode message =>
    cases nodes with
    | nil => exact ⟨stop, h.le, le_rfl, rfl⟩
    | cons node nodes => exact ⟨start, le_rfl, h.le, h.head node rfl⟩
  | brokenTables => contradiction
  | expected | unexpected | noRuleApplies =>
    exact ⟨stop, h.le, le_rfl, congrArg Span.start (Diagnostic.span_ofToken _ _)⟩
  | _ => exact ⟨stop, h.le, le_rfl, rfl⟩

namespace Outcome

variable {stream : TokenStream} {start middle : Nat} {entry solid : Bool}
  {goal goal' : Bool → Nat → Prop} {nodes : List Node} {outcome : Outcome (List Node)}

theorem Traces.imp (h : outcome.Traces stream start entry goal)
    (hgoal : ∀ solid later, goal solid later → goal' solid later) :
    outcome.Traces stream start entry goal' := by
  cases outcome with
  | done nodes cursor =>
    obtain ⟨solid, htraced, hdone⟩ := h
    exact ⟨solid, htraced, hgoal _ _ hdone⟩
  | failed => exact h

end Outcome

def Nonterminal.AllTrace (expand : Nonterminal → Action) (stream : TokenStream) : Prop :=
  ∀ (name : Nonterminal) (setting : Setting) (nodes : List Node) (cursor : Cursor) (start : Nat)
    (entry solid : Bool), setting.stream = stream → (name = .parameterList → solid) →
    Traced stream start entry cursor.position solid nodes →
    (expand name setting nodes cursor).Traces stream start entry fun _ _ => True

section Runs

variable {expand : Nonterminal → Action} {setting : Setting} {nodes : List Node}
  {cursor : Cursor} {stream : TokenStream} {start : Nat} {entry solid : Bool}
  {goal : Bool → Nat → Prop}

theorem Rule.traces_apart {rule : Rule}
    (hnodes : Traced stream start entry cursor.position solid nodes)
    (hrule : (rule.run expand setting [] cursor).Traces stream cursor.position solid goal) :
    ((Rule.apart rule).run expand setting nodes cursor).Traces stream start entry goal := by
  simp only [run]
  split <;> rename_i hrun <;> rw [hrun] at hrule
  · obtain ⟨solid', hmore, hgoal⟩ := hrule
    exact ⟨solid', hnodes.append hmore, hgoal⟩
  · intro hinternal
    obtain ⟨index, hstart, hstop, hat⟩ := hrule hinternal
    exact ⟨index, hnodes.le.trans hstart, hstop, hat⟩

theorem Rule.traces_recover {rule : Rule} {recovery : Recovery} (hordered : stream.Ordered)
    (hexpand : ∀ name, (expand name).Advances) (hstream : setting.stream = stream)
    (hnodes : Traced stream start entry cursor.position solid nodes)
    (hrule : (rule.run expand setting [] cursor).Traces stream cursor.position solid
      fun _ _ => True)
    (htext : solid ∨ recovery.forceProgress ∧ stream.kind cursor.position ≠ .eof)
    (hstop : ∀ reason, .error reason ∉ recovery.stop) (hgoal : ∀ solid later, goal solid later) :
    ((Rule.recover recovery rule).run expand setting nodes cursor).Traces stream start entry
      goal := by
  subst hstream
  have hreaches := rule.run_advances hexpand setting [] cursor
  simp only [run, TokenStream.recover]
  split <;> rename_i hrun <;> rw [hrun] at hrule hreaches
  · obtain ⟨solid', hmore, -⟩ := hrule
    exact ⟨solid', hnodes.append hmore, hgoal _ _⟩
  rename_i diagnostic failed
  by_cases hinternal : diagnostic.isInternal
  · simp only [hinternal, if_true]
    exact fun h => absurd hinternal (by simp [h])
  simp only [hinternal, Bool.false_eq_true, if_false]
  obtain ⟨index, hindex, hfailed, hat⟩ := hrule (by simpa using hinternal)
  have hskip := failed.position_le_skip setting.stream recovery cursor.position
  have hbound := Cursor.skip_position_le recovery (hreaches.position_bound hnodes.bound)
    cursor.position
  refine ⟨false, hnodes.append ?_, hgoal _ _⟩
  refine .error hordered hindex (hfailed.trans hskip) hbound hat ?_ ?_
  · refine htext.symm.imp_left fun hforced => ?_
    exact Cursor.lt_skip_position hreaches.position_le hforced.1 hforced.2
  · -- a diagnostic about the token behind the error is about one that ends skipping
    intro hlast
    rw [Cursor.examine_position] at hlast ⊢
    have hsame : (failed.skip recovery setting.stream cursor.position).position =
        failed.position := by omega
    refine TokenStream.lexical_eq_nil fun reason hkind => ?_
    rw [hsame] at hkind
    rcases Cursor.kind_of_skip_eq hsame with heof | hmem
    · rw [hkind] at heof
      contradiction
    · rw [hkind] at hmem
      exact hstop reason hmem

theorem Rule.Traceable.traces {rule : Rule} (hordered : stream.Ordered)
    (hexpand : ∀ name, (expand name).Advances) (hcalls : Nonterminal.AllTrace expand stream)
    (hstream : setting.stream = stream)
    (h : rule.Traceable stream.kind goal solid cursor.position)
    (hnodes : Traced stream start entry cursor.position solid nodes) :
    (rule.run expand setting nodes cursor).Traces stream start entry goal := by
  induction rule generalizing setting nodes cursor start entry solid goal with
  | empty => exact ⟨solid, hnodes, h⟩
  | seq first next ihFirst ihNext =>
    have hfirst := ihFirst hstream h hnodes
    simp only [run]
    split <;> rename_i hrun <;> rw [hrun] at hfirst
    · obtain ⟨solid', hmiddle, hnext⟩ := hfirst
      exact ihNext hstream hnext hmiddle
    · exact hfirst
  | take kind =>
    subst hstream
    obtain ⟨hkind, heof, hpass⟩ := h
    by_cases hend : setting.stream.kind cursor.position = .eof
    · have hadvance : (cursor.advance setting.stream).position = cursor.position := by
        simp [Cursor.advance, hend]
      refine ⟨solid, ?_, ?_⟩ <;> rw [hadvance]
      · exact hnodes.append (.endOfFile hkind hnodes.bound hend)
      · exact heof hend
    · have hadvance := Cursor.advance_position_of_ne_eof hend
      refine ⟨true, ?_, ?_⟩ <;> rw [hadvance]
      · exact hnodes.append (.leaf hkind (TokenStream.lt_of_kind_ne_eof hend))
      · exact hpass hend
  | look distance next ih =>
    subst hstream
    exact ih _ rfl h hnodes
  | fail failure =>
    subst hstream
    exact fun hinternal => failure.exists_isAt setting.name hnodes hinternal
  | label field => exact ⟨solid, hnodes.label field, h⟩
  | labelInner field => exact ⟨solid, hnodes.labelInner field, h⟩
  | wrap kind =>
    subst hstream
    simp only [run]
    refine ⟨solid, ?_, ?_⟩ <;> split
    · exact hnodes.wrap h.1
    · exact hnodes.wrap h.1
    · exact h.2
    · exact h.2
  | apart rule ih => exact traces_apart hnodes (ih hstream h (.nil hnodes.bound))
  | call name =>
    exact (hcalls name setting nodes cursor start entry solid hstream h.1 hnodes).imp
      fun _ _ _ => h.2 _ _
  | within context rule ih => exact ih hstream h hnodes
  | byContext next ih => exact ih _ hstream (h _) hnodes
  | byDialect next ih => exact ih _ hstream (h _) hnodes
  | byOperand next ih => exact ih _ hstream (h _) hnodes
  | recover recovery rule ih =>
    obtain ⟨htext, hstop, hrule, hgoal⟩ := h
    exact traces_recover hordered hexpand hstream hnodes
      (ih hstream hrule (.nil hnodes.bound)) htext hstop hgoal
  | attempt trial next otherwise ihTrial ihNext ihOtherwise =>
    have htrial := ihTrial hstream h.1 hnodes
    simp only [run]
    split <;> rename_i hrun <;> rw [hrun] at htrial
    · obtain ⟨solid', hmiddle, hnext⟩ := htrial
      exact ihNext hstream hnext hmiddle
    · exact ihOtherwise hstream h.2 hnodes
  | naming rule ih => exact ih hstream h hnodes

end Runs

end LosslessSyntax
