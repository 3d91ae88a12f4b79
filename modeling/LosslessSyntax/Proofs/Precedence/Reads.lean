import LosslessSyntax.Proofs.Descent
import LosslessSyntax.Proofs.Precedence.Operation
/-!
What rules read: productions that succeed, with the nodes they make and the token they end at, if
calls may nest deep enough.
-/
namespace LosslessSyntax

open Operation (nodeOf)

/-- From a fragment and a token on, a rule reads to another fragment and another token. -/
def Rule.Reads (rule : Rule) (setting : Setting) (nodes : List Node) (start : Nat)
    (after : List Node) (stop : Nat) : Prop :=
  ∃ enough, ∀ depth, enough ≤ depth → ∀ cursor : Cursor, cursor.position = start →
    (rule.run (Nonterminal.run depth) setting nodes cursor).Satisfies False fun found cursor =>
      found = after ∧ cursor.position = stop

theorem Operation.ofChildren_cons {kind : NodeKind} {offset : UInt32} {node : Node}
    {nodes : List Node} :
    Node.ofChildren kind offset (node :: nodes) = nodeOf kind (node :: nodes) := by
  simp only [nodeOf, Node.ofChildren, Node.spanOf, List.head?_cons, List.getLast?_cons]

namespace Rule.Reads

variable {setting : Setting} {nodes middle after : List Node} {start between stop : Nat}

theorem call {name : Nonterminal} (h : name.rule.Reads setting nodes start after stop) :
    (Rule.call name).Reads setting nodes start after stop := by
  obtain ⟨enough, h⟩ := h
  refine ⟨enough + 1, fun depth hdepth cursor hcursor => ?_⟩
  obtain ⟨depth, rfl⟩ : ∃ lower, depth = lower + 1 := ⟨depth - 1, by omega⟩
  exact h depth (by omega) cursor hcursor

theorem empty : Rule.empty.Reads setting nodes start nodes start :=
  ⟨0, fun _ _ _ hcursor => ⟨rfl, hcursor⟩⟩

theorem seq {first next : Rule} (h : first.Reads setting nodes start middle between)
    (h' : next.Reads setting middle between after stop) :
    (first.seq next).Reads setting nodes start after stop := by
  obtain ⟨enough, h⟩ := h
  obtain ⟨enough', h'⟩ := h'
  refine ⟨max enough enough', fun depth hdepth cursor hcursor => ?_⟩
  rw [satisfies_seq]
  refine (h depth (by omega) cursor hcursor).imp ?_
  rintro _ _ ⟨rfl, hbetween⟩
  exact h' depth (by omega) _ hbetween

theorem look {distance : Nat} {next : TokenKind → Rule}
    (h : (next (setting.stream.kind (start + distance))).Reads setting nodes start after stop) :
    (Rule.look distance next).Reads setting nodes start after stop := by
  obtain ⟨enough, h⟩ := h
  refine ⟨enough, fun depth hdepth cursor hcursor => ?_⟩
  subst hcursor
  exact h depth hdepth _ rfl

theorem onKind {next : TokenKind → Rule}
    (h : (next (setting.stream.kind start)).Reads setting nodes start after stop) :
    (Rule.onKind next).Reads setting nodes start after stop := look h

theorem ifAt_pos {kind : TokenKind} {yes no : Rule} (hkind : setting.stream.kind start = kind)
    (h : yes.Reads setting nodes start after stop) :
    (Rule.ifAt kind yes no).Reads setting nodes start after stop := by
  refine onKind ?_
  rwa [if_pos hkind]

theorem ifAt_neg {kind : TokenKind} {yes no : Rule} (hkind : setting.stream.kind start ≠ kind)
    (h : no.Reads setting nodes start after stop) :
    (Rule.ifAt kind yes no).Reads setting nodes start after stop := by
  refine onKind ?_
  rwa [if_neg hkind]

theorem byContext {next : Context → Rule}
    (h : (next setting.context).Reads setting nodes start after stop) :
    (Rule.byContext next).Reads setting nodes start after stop := h

theorem byDialect {next : Dialect → Rule}
    (h : (next setting.dialect).Reads setting nodes start after stop) :
    (Rule.byDialect next).Reads setting nodes start after stop := h

theorem byOperand {next : Option Operand → Rule}
    (h : (next (Operand.ofNodes nodes)).Reads setting nodes start after stop) :
    (Rule.byOperand next).Reads setting nodes start after stop := h

theorem take (heof : setting.stream.kind start ≠ .eof) :
    (Rule.take none).Reads setting nodes start (nodes ++ [.ofToken (setting.stream.get start)])
      (start + 1) := by
  refine ⟨0, fun depth hdepth cursor hcursor => ?_⟩
  subst hcursor
  simp [Node.ofTokenAs, Cursor.advance_position_of_ne_eof heof]

theorem expect {kind : TokenKind} (hkind : setting.stream.kind start = kind) (heof : kind ≠ .eof) :
    (Rule.expect kind).Reads setting nodes start
      (nodes ++ [.ofToken (setting.stream.get start)]) (start + 1) :=
  ifAt_pos hkind (take (hkind ▸ heof))

theorem within {context : Context} {rule : Rule}
    (h : rule.Reads { setting with context } nodes start after stop) :
    (Rule.within context rule).Reads setting nodes start after stop := h

theorem apart {rule : Rule} {more : List Node} (h : rule.Reads setting [] start more stop) :
    (Rule.apart rule).Reads setting nodes start (nodes ++ more) stop := by
  obtain ⟨enough, h⟩ := h
  refine ⟨enough, fun depth hdepth cursor hcursor => ?_⟩
  rw [satisfies_apart]
  refine (h depth hdepth cursor hcursor).imp ?_
  rintro _ _ ⟨rfl, hstop⟩
  exact ⟨rfl, hstop⟩

theorem child {name : Nonterminal} {more : List Node}
    (h : (Rule.call name).Reads setting [] start more stop) :
    (Rule.child name).Reads setting nodes start (nodes ++ more) stop := apart h

theorem label (front : List Node) {field : Field} {node : Node} :
    (Rule.label field).Reads setting (front ++ [node]) start (front ++ [node.withField field])
      start := by
  refine ⟨0, fun depth _ cursor hcursor => ?_⟩
  rw [satisfies_label, replaceLast_concat]
  exact ⟨rfl, hcursor⟩

theorem inField {rule : Rule} {field : Field} {node : Node}
    (h : rule.Reads setting nodes start (middle ++ [node]) stop) :
    (Rule.inField field rule).Reads setting nodes start (middle ++ [node.withField field]) stop :=
  .seq h (.label _)

theorem wrap {kind : NodeKind} {node : Node} :
    (Rule.wrap kind).Reads setting (node :: nodes) start [nodeOf kind (node :: nodes)] start := by
  refine ⟨0, fun depth _ cursor hcursor => ?_⟩
  rw [satisfies_wrap]
  exact ⟨by rw [Operation.ofChildren_cons], hcursor⟩

theorem parse {name : Nonterminal} {node : Node} {cursor : Cursor}
    (h : (Rule.call name).Reads setting [] cursor.position [node] stop)
    (hready : name.Ready ⟨[], [], false⟩) (hstart : setting.stream.kind cursor.position ≠ .eof) :
    ∃ after, name.parse setting cursor = .done node after ∧ after.position = stop := by
  obtain ⟨enough, h⟩ := h
  obtain ⟨_, after, hrun, rfl, hstop⟩ := Outcome.satisfies_false_iff.mp
    (h (max enough (Nonterminal.callDepth setting.stream)) (Nat.le_max_left ..) cursor rfl)
  have hholds : Situation.Holds setting.dialect setting.stream cursor.position cursor.position
      ⟨[], [], false⟩ [] cursor :=
    ⟨.empty _, rfl, by simp, by simp, (TokenStream.lt_of_kind_ne_eof hstart).le⟩
  have hrun' : name.action setting [] cursor = .done [node] after :=
    (Nonterminal.run_eq_action (Nat.le_max_right ..) hready hholds).symm.trans hrun
  exact ⟨after, by simp only [Nonterminal.parse, Rule.parse, Rule.run, hrun'], hstop⟩

end Rule.Reads

open Rule

variable {setting : Setting} {start stop : Nat} {left right : Node} {power own : BindingPower}

namespace Grammar

section Operators

theorem reads_binary (hkind : setting.stream.kind start ≠ .eof)
    (hright : (Rule.call (.expression own)).Reads setting [] (start + 1) [right] stop) :
    (binary own).Reads setting [left] start
      [nodeOf .binaryExpression [left.withField .left,
        (Node.ofToken (setting.stream.get start)).withField .operator, right.withField .right]]
      stop :=
  .seq (.label []) (.seq (.inField (.take hkind)) (.seq (.inField (.child hright)) .wrap))

theorem reads_ifStartsExpression {yes no : Rule} {nodes after : List Node}
    (hstarts : startsExpression setting.dialect (setting.stream.kind start))
    (h : yes.Reads setting nodes start after stop) :
    (ifStartsExpression yes no).Reads setting nodes start after stop := by
  refine Reads.onKind (Reads.byDialect ?_)
  rwa [if_pos hstarts]

theorem reads_range (hkind : setting.stream.kind start ≠ .eof) (hleft : ¬left.IsRange)
    (hstarts : startsExpression setting.dialect (setting.stream.kind (start + 1)))
    (hright : (Rule.call (.expression own)).Reads setting [] (start + 1) [right] stop) :
    (range own).Reads setting [left] start
      [nodeOf .binaryExpression [left.withField .left,
        (Node.ofToken (setting.stream.get start)).withField .operator, right.withField .right]]
      stop := by
  refine Reads.byOperand ?_
  rw [if_neg fun hrange => hleft (isRange_ofNodes.mp hrange)]
  exact .seq (.label []) (.seq (.inField (.take hkind))
    (.seq (reads_ifStartsExpression hstarts (.inField (.child hright))) .wrap))

theorem reads_assignment (hkind : setting.stream.kind start ≠ .eof)
    (hleft : left.kind ∈ assignmentTargets)
    (hright : (Rule.call (.expression .default)).Reads setting [] (start + 1) [right] stop) :
    assignment.Reads setting [left] start
      [nodeOf .assignmentExpression [left.withField .left,
        (Node.ofToken (setting.stream.get start)).withField .operator, right.withField .right]]
      stop := by
  refine Reads.byOperand ?_
  rw [if_pos (by simpa [operandKind?, Operand.ofNodes] using hleft)]
  exact .seq (.label []) (.seq (.inField (.take hkind)) (.seq (.inField (.child hright)) .wrap))

theorem reads_dereference (hkind : setting.stream.kind start ≠ .eof)
    (hstar : setting.stream.kind (start + 1) = .star) :
    member.Reads setting [left] start
      [nodeOf .dereferenceExpression [left.withField .object,
        .ofToken (setting.stream.get start), .ofToken (setting.stream.get (start + 1))]]
      (start + 2) := by
  refine .seq (.label []) (.seq (.take hkind) (.onKind ?_))
  simp only [hstar]
  exact .seq (.take (by simp [hstar])) .wrap

theorem reads_member (hkind : setting.stream.kind start ≠ .eof)
    (hname : setting.stream.kind (start + 1) ∈ Operation.names) :
    member.Reads setting [left] start
      [nodeOf .memberExpression [left.withField .object, .ofToken (setting.stream.get start),
        (Node.ofToken (setting.stream.get (start + 1))).withField .property]]
      (start + 2) := by
  refine .seq (.label []) (.seq (.take hkind) (.onKind ?_))
  simp only [Operation.names, List.mem_cons, List.not_mem_nil, or_false] at hname
  rcases hname with hname | hname | hname
  all_goals
    simp only [hname]
    exact .seq (.inField (.take (by simp [hname]))) .wrap

theorem reads_index (hkind : setting.stream.kind start ≠ .eof)
    (hclose : setting.stream.kind stop = .closeBracket)
    (hright : (Rule.call (.expression .default)).Reads { setting with context := .expression } []
      (start + 1) [right] stop) :
    index.Reads setting [left] start
      [nodeOf .indexExpression [left.withField .object, .ofToken (setting.stream.get start),
        right.withField .index, .ofToken (setting.stream.get stop)]]
      (stop + 1) :=
  .seq (.label []) (.seq (.take hkind) (.seq (.inField (.within (.child hright)))
    (.seq (.expect hclose (by decide)) .wrap)))

theorem reads_functionCall {more : List Node} (hkind : setting.stream.kind start ≠ .eof)
    (hleft : left.kind ∈ callTargets) (hclose : setting.stream.kind stop = .closeParen)
    (hmore : (Rule.call (.list .arguments)).Reads { setting with context := .expression }
      [left.withField .function, .ofToken (setting.stream.get start)] (start + 1)
      (left.withField .function :: .ofToken (setting.stream.get start) :: more) stop) :
    functionCall.Reads setting [left] start
      [nodeOf .functionCall (left.withField .function :: .ofToken (setting.stream.get start) ::
        (more ++ [.ofToken (setting.stream.get stop)]))]
      (stop + 1) := by
  refine Reads.byOperand ?_
  rw [if_pos (by simpa [operandKind?, Operand.ofNodes] using hleft)]
  exact .seq (.label []) (.seq
    (.within (.seq (.take hkind) (.seq hmore (.expect hclose (by decide))))) .wrap)

end Operators

section Types

theorem reads_suffixes {nodes : List Node}
    (h : suffixPower? (setting.stream.kind start) = none) :
    (Rule.call (.suffixes power)).Reads setting nodes start nodes start := by
  refine Reads.call (Reads.onKind ?_)
  simp only [h]
  exact .empty

theorem reads_typeForm (form : Nonterminal) {between : Nat} {after : List Node}
    (hform : typeForm? (setting.stream.kind start) = some form)
    (hleft : (Rule.call form).Reads setting [] start [left] between)
    (hrest : (Rule.call (.suffixes power)).Reads setting [left] between after stop) :
    (Rule.call (.type power)).Reads setting [] start after stop := by
  refine Reads.call (Reads.onKind ?_)
  simp only [hform]
  exact .seq hleft hrest

theorem reads_type (hkind : setting.stream.kind start = .primitive)
    (hnext : suffixPower? (setting.stream.kind (start + 1)) = none) :
    (Rule.call (.type power)).Reads setting [] start [.ofToken (setting.stream.get start)]
      (start + 1) :=
  reads_typeForm .primitiveType (by rw [hkind]; rfl) (.call (.expect hkind (by decide)))
    (reads_suffixes hnext)

theorem reads_cast (hkind : setting.stream.kind start ≠ .eof) (hleft : left.kind ≠ .castExpression)
    (htype : setting.stream.kind (start + 1) = .primitive)
    (hnext : suffixPower? (setting.stream.kind (start + 2)) = none) :
    cast.Reads setting [left] start
      [nodeOf .castExpression [left.withField .value, .ofToken (setting.stream.get start),
        (Node.ofToken (setting.stream.get (start + 1))).withField .type]]
      (start + 2) := by
  refine Reads.byOperand ?_
  rw [if_neg (by simpa [operandKind?, Operand.ofNodes] using hleft)]
  exact .seq (.label []) (.seq (.take hkind)
    (.seq (.inField (.child (reads_type htype hnext))) .wrap))

end Types

section Forms

theorem reads_unary (hkind : setting.stream.kind start ≠ .eof)
    (hright : (Rule.call (.expression .unary)).Reads setting [] (start + 1) [right] stop) :
    (Rule.call .unary).Reads setting [] start
      [nodeOf .unaryExpression [(Node.ofToken (setting.stream.get start)).withField .operator,
        right.withField .operand]]
      stop :=
  .call (.seq (.inField (.take hkind)) (.seq (.inField (.child hright)) .wrap))

theorem reads_grouping (hopen : setting.stream.kind start = .openParen)
    (hclose : setting.stream.kind stop = .closeParen)
    (hright : (Rule.call (.expression .default)).Reads { setting with context := .expression } []
      (start + 1) [right] stop) :
    (Rule.call .grouping).Reads setting [] start
      [nodeOf .groupedExpression [.ofToken (setting.stream.get start), right,
        .ofToken (setting.stream.get stop)]]
      (stop + 1) :=
  .call (.within (.seq (.expect hopen (by decide)) (.seq (.child hright)
    (.ifAt_neg (by simp [hclose]) (.seq (.expect hclose (by decide)) .wrap)))))

theorem reads_primary (hkind : setting.stream.kind start ∈ Operation.atoms)
    (hnext : setting.stream.kind start = .identifier →
      setting.dialect.allowsIdentifierStructNames → setting.context ≠ .condition →
        setting.stream.kind (start + 1) ≠ .openCurly) :
    (Rule.call .primary).Reads setting [] start [.ofToken (setting.stream.get start)]
      (start + 1) := by
  have heof : setting.stream.kind start ≠ .eof := by
    intro heof
    simp [heof, Operation.atoms] at hkind
  have htake : (Rule.take none).Reads setting [] start [.ofToken (setting.stream.get start)]
      (start + 1) := .take heof
  refine Reads.call (Reads.onKind ?_)
  simp only [Operation.atoms, List.mem_cons, List.not_mem_nil, or_false] at hkind
  rcases hkind with hkind | hkind | hkind | hkind | hkind | hkind | hkind | hkind
  · simp only [hkind]
    refine Reads.byDialect ?_
    split
    case isFalse => exact htake
    refine Reads.look ?_
    split
    case isFalse => exact htake
    -- a brace after a name is there only where it begins a body
    rename_i hdialect hbrace
    have hcontext : setting.context = .condition := by
      by_contra hcontext
      exact hnext hkind hdialect hcontext hbrace
    refine Reads.byContext ?_
    rw [if_pos hcontext]
    exact htake
  all_goals
    simp only [hkind]
    exact htake

end Forms

section Loop

variable {nodes after : List Node} {between : Nat}

theorem reads_expression {form : Nonterminal}
    (hform : leadingForm? (setting.stream.kind start) = some form)
    (hleft : (Rule.call form).Reads setting [] start [left] between)
    (hrest : (Rule.call (.operators power)).Reads setting [left] between after stop) :
    (Rule.call (.expression power)).Reads setting [] start after stop := by
  refine Reads.call (Reads.onKind ?_)
  simp only [hform]
  exact .seq hleft hrest

theorem reads_operators_end
    (h : ∀ own, setting.stream.operatorPower? start = some own → own ≤ power) :
    (Rule.call (.operators power)).Reads setting nodes start nodes start := by
  refine Reads.call (Reads.onKind ?_)
  rcases hpower : Precedence.power? (setting.stream.kind start) with _ | own
  · exact .empty
  dsimp only
  split
  · exact .empty
  rename_i hlt
  -- what binds tighter can only be a dot that begins a struct
  have hdot : setting.stream.kind start = .dot ∧ setting.stream.kind (start + 1) = .openCurly := by
    by_contra hdot
    exact hlt (h own (TokenStream.operatorPower?_eq_some_iff.mpr ⟨hdot, hpower⟩))
  rw [if_pos hdot.1]
  refine Reads.look ?_
  rw [if_pos hdot.2]
  exact .empty

theorem reads_operators {operation : BindingPower → Rule} {next : List Node}
    (hown : setting.stream.operatorPower? start = some own) (hpower : power < own)
    (hoperation : operation? (setting.stream.kind start) = some operation)
    (hread : (operation own).Reads setting nodes start next between)
    (hrest : (Rule.call (.operators power)).Reads setting next between after stop) :
    (Rule.call (.operators power)).Reads setting nodes start after stop := by
  obtain ⟨hdot, hown⟩ := TokenStream.operatorPower?_eq_some_iff.mp hown
  have hle : ¬own ≤ power := Nat.not_le.mpr hpower
  refine Reads.call (Reads.onKind ?_)
  simp only [hown, hoperation, if_neg hle]
  split
  · rename_i hkind
    refine Reads.look ?_
    rw [if_neg fun hbrace => hdot ⟨hkind, hbrace⟩]
    exact .seq hread hrest
  · exact .seq hread hrest

end Loop

section Lists

variable {nodes next after : List Node} {between : Nat} {node : Node} {listing : Listing}

theorem reads_list_end (hclose : setting.stream.kind start = closing listing) :
    (Rule.call (.list listing)).Reads setting nodes start nodes start := by
  refine Reads.call (Reads.onKind ?_)
  rw [if_pos (Or.inl hclose)]
  exact .empty

theorem reads_argument
    (hread : (Rule.call (.expression .default)).Reads setting [] start [node] between) :
    (element .arguments).Reads setting nodes start (nodes ++ [node.withField .arguments])
      between :=
  .inField (.child hread)

variable (hstart : setting.stream.kind start ∉ [closing listing, .eof])
  (hread : (element listing).Reads setting nodes start next between)

include hstart hread

theorem reads_list_last (hend : setting.stream.kind between ≠ .comma) :
    (Rule.call (.list listing)).Reads setting nodes start next between := by
  refine Reads.call (Reads.onKind ?_)
  rw [if_neg (by simpa using hstart)]
  exact .seq hread (.ifAt_neg hend .empty)

theorem reads_list_more (hcomma : setting.stream.kind between = .comma)
    (hrest : (Rule.call (.list listing)).Reads setting
      (next ++ [.ofToken (setting.stream.get between)]) (between + 1) after stop) :
    (Rule.call (.list listing)).Reads setting nodes start after stop := by
  refine Reads.call (Reads.onKind ?_)
  rw [if_neg (by simpa using hstart)]
  exact .seq hread (.ifAt_pos hcomma (.seq (.take (by simp [hcomma])) hrest))

end Lists

end Grammar

end LosslessSyntax
