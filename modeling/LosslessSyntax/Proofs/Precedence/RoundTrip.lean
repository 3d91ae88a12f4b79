import LosslessSyntax.Proofs.Precedence.Reads
import LosslessSyntax.Token.Lexer
/-!
Round trip: the tokens of a well-formed operation are read as that operation.
-/
namespace LosslessSyntax

open Operation (nodeOf)

namespace Operation

/-- An operation is read as it is, whatever operators are read after it: where the loop over the
operators behind its node leads, the reading of an expression from its first token on leads. -/
def Reads (operation : Operation) : Prop :=
  ∀ {setting : Setting} {start stop : Nat} {power : BindingPower} {after : List Node},
    setting.stream.HasKinds start operation.kinds →
    (power < operation.level ∨ power = .unary ∧ operation.level = .unary) →
    operation.Followed operation.closing setting (start + operation.length) →
    (Rule.call (.operators power)).Reads setting [operation.node setting.stream start]
      (start + operation.length) after stop →
    (Rule.call (.expression power)).Reads setting [] start after stop

variable {operation left right : Operation} {setting : Setting} {start : Nat} {power : BindingPower}

theorem Reads.whole (h : operation.Reads)
    (hkinds : setting.stream.HasKinds start operation.kinds)
    (hpower : power < operation.level ∨ power = .unary ∧ operation.level = .unary)
    (hclosing : power ≤ operation.closing)
    (hfollowed : operation.Followed power setting (start + operation.length)) :
    (Rule.call (.expression power)).Reads setting [] start [operation.node setting.stream start]
      (start + operation.length) :=
  h hkinds hpower (hfollowed.mono hclosing) (Grammar.reads_operators_end hfollowed.operator)

theorem Reads.enclosed {kind : TokenKind} (h : operation.Reads)
    (hkinds : setting.stream.HasKinds start operation.kinds) (hlevel : .default < operation.level)
    (hkind : setting.stream.kind (start + operation.length) = kind)
    (hcloses : kind ∈ [.closeParen, .closeBracket, .comma]) :
    (Rule.call (.expression .default)).Reads setting [] start [operation.node setting.stream start]
      (start + operation.length) := by
  have hpowers : ∀ kind ∈ [TokenKind.closeParen, .closeBracket, .comma],
      (∀ own ∈ Precedence.power? kind, own ≤ .default) ∧ kind ∉ [.openCurly, .question] := by
    decide
  obtain ⟨hpower, hother⟩ := hpowers kind hcloses
  exact h.whole hkinds (.inl hlevel) (Nat.zero_le _) (.of_kind hkind hpower hother)

theorem reads_atom {kind : TokenKind} (hknown : kind ∈ atoms) : (atom kind).Reads := by
  intro setting start stop power after hkinds _ hfollowed hrest
  obtain ⟨rfl, -⟩ := hkinds
  have hform : ∀ kind ∈ atoms, Grammar.leadingForm? kind = some .primary := by decide
  refine Grammar.reads_expression (hform _ hknown) (Grammar.reads_primary hknown ?_) hrest
  intro hname
  exact hfollowed.name (by rw [hname]; rfl)

theorem Reads.operator {stop between : Nat} {after next : List Node} {own : BindingPower}
    {operation : BindingPower → Rule} (h : left.Reads)
    (hkinds : setting.stream.HasKinds start left.kinds) (hpower : power < own)
    (hclosing : own ≤ left.closing)
    (hown : setting.stream.operatorPower? (start + left.length) = some own)
    (hoperation : Grammar.operation? (setting.stream.kind (start + left.length)) = some operation)
    (hread : (operation own).Reads setting [left.node setting.stream start] (start + left.length)
      next between)
    (hrest : (Rule.call (.operators power)).Reads setting next between after stop) :
    (Rule.call (.expression power)).Reads setting [] start after stop := by
  have hlevel : power < left.level :=
    Nat.lt_of_lt_of_le hpower (Nat.le_trans hclosing left.closing_le_level)
  refine h hkinds (.inl hlevel)
    ⟨fun other hother => ?_, fun _ _ _ hbrace => ?_, fun _ hquestion => ?_⟩
    (Grammar.reads_operators hown hpower hoperation hread hrest)
  · obtain rfl : own = other := Option.some.inj (hown.symm.trans hother)
    exact hclosing
  · rw [hbrace] at hoperation
    contradiction
  · rw [hquestion] at hoperation
    contradiction

theorem reads_grouped (hright : right.Reads) (hpower : .default < right.level) :
    (grouped right).Reads := by
  intro setting start stop power after hkinds _ _ hrest
  obtain ⟨hopen, hinner, hclose⟩ := hasKinds_grouped.mp hkinds
  have hlength : start + (grouped right).length = start + 1 + right.length + 1 := by
    rw [length_grouped]
    omega
  rw [hlength] at hrest
  exact Grammar.reads_expression (by rw [hopen]; rfl)
    (Grammar.reads_grouping hopen hclose (hright.enclosed hinner hpower hclose (by decide))) hrest

section Trailed

variable (hleft : left.Reads) (htight : .member ≤ left.level)

include hleft htight

theorem Reads.trailed {stop between : Nat} {after next : List Node}
    {operation : BindingPower → Rule} (hkinds : setting.stream.HasKinds start left.kinds)
    (hpower : power < .member ∨ power = .unary ∧ BindingPower.member = .unary)
    (hown : setting.stream.operatorPower? (start + left.length) = some .member)
    (hoperation : Grammar.operation? (setting.stream.kind (start + left.length)) = some operation)
    (hread : (operation .member).Reads setting [left.node setting.stream start]
      (start + left.length) next between)
    (hrest : (Rule.call (.operators power)).Reads setting next between after stop) :
    (Rule.call (.expression power)).Reads setting [] start after stop :=
  hleft.operator hkinds (hpower.resolve_right (by simp)) (le_closing (by decide) htight) hown
    hoperation hread hrest

theorem reads_member {name : TokenKind} (hname : name ∈ names) : (member left name).Reads := by
  intro setting start stop power after hkinds hpower _ hrest
  obtain ⟨hobject, hdot, hnext⟩ := hasKinds_member.mp hkinds
  have hown : setting.stream.operatorPower? (start + left.length) = some .member := by
    refine TokenStream.operatorPower?_eq_some_iff.mpr ⟨?_, by rw [hdot]; rfl⟩
    rintro ⟨-, hbrace⟩
    rw [← hnext, hbrace] at hname
    contradiction
  rw [length_member, ← Nat.add_assoc] at hrest
  exact hleft.trailed htight hobject hpower hown (by rw [hdot]; rfl)
    (Grammar.reads_member (by simp [hdot]) (hnext ▸ hname)) hrest

theorem reads_dereference : (dereference left).Reads := by
  intro setting start stop power after hkinds hpower _ hrest
  obtain ⟨hobject, hdot, hstar⟩ := hasKinds_dereference.mp hkinds
  have hown : setting.stream.operatorPower? (start + left.length) = some .member :=
    TokenStream.operatorPower?_eq_some_iff.mpr ⟨by simp [hstar], by rw [hdot]; rfl⟩
  rw [length_dereference, ← Nat.add_assoc] at hrest
  exact hleft.trailed htight hobject hpower hown (by rw [hdot]; rfl)
    (Grammar.reads_dereference (by simp [hdot]) hstar) hrest

theorem reads_index (hright : right.Reads) (hinner : .default < right.level) :
    (index left right).Reads := by
  intro setting start stop power after hkinds hpower _ hrest
  obtain ⟨hobject, hopen, hplace, hclose⟩ := hasKinds_index.mp hkinds
  have hown : setting.stream.operatorPower? (start + left.length) = some .member :=
    TokenStream.operatorPower?_of_kind hopen (by decide)
  have hlength : start + (index left right).length =
      start + left.length + 1 + right.length + 1 := by
    rw [length_index]
    omega
  rw [hlength] at hrest
  have hread : (Rule.call (.expression .default)).Reads { setting with context := .expression } []
      (start + left.length + 1) [right.node setting.stream (start + left.length + 1)]
      (start + left.length + 1 + right.length) :=
    hright.enclosed hplace hinner hclose (by decide)
  exact hleft.trailed htight hobject hpower hown (by rw [hopen]; rfl)
    (Grammar.reads_index (by simp [hopen]) hclose hread) hrest

end Trailed

theorem WellFormed.default_lt_level (h : operation.WellFormed) : .default < operation.level := by
  cases h with
  | atom | grouped | member | dereference | index | call | unary | cast | assignment =>
    simp only [level]
    decide
  | @binary _ left right level known associativity =>
    rw [level_binary known]
    exact Nat.lt_trans (by decide) (Precedence.power_between _ _ known associativity).1

section Call

theorem reads_arguments {arguments : List Operation} {nodes : List Node}
    (hwithin : ∀ argument ∈ arguments, argument.WellFormed ∧ argument.Reads)
    (hkinds : setting.stream.HasKinds start (listKinds arguments))
    (hclose : setting.stream.kind (start + (listKinds arguments).length) = .closeParen) :
    (Rule.call (.list .arguments)).Reads setting nodes start
      (nodes ++ listNodes setting.stream start arguments)
      (start + (listKinds arguments).length) := by
  induction arguments generalizing start nodes with
  | nil =>
    simp only [listNodes, List.append_nil]
    exact Grammar.reads_list_end hclose
  | cons first rest ih =>
    obtain ⟨hformed, hreads⟩ := hwithin first List.mem_cons_self
    have hrest (argument : Operation) (hmem : argument ∈ rest) :=
      hwithin argument (List.mem_cons_of_mem _ hmem)
    have hheads : ∀ head ∈ heads, head ∉ [.closeParen, .eof] := by decide
    cases rest with
    | nil =>
      simp only [listKinds, length_kinds] at hkinds hclose
      simp only [listKinds, listNodes, length_kinds]
      exact Grammar.reads_list_last (hheads _ (hformed.kind_mem_heads hkinds))
        (Grammar.reads_argument
          (hreads.enclosed hkinds hformed.default_lt_level hclose (by decide)))
        (by simp [hclose])
    | cons second rest =>
      obtain ⟨hkinds, hcomma, hmore⟩ := hasKinds_listKinds_cons.mp hkinds
      have hlength : start + (listKinds (first :: second :: rest)).length =
          start + first.length + 1 + (listKinds (second :: rest)).length := by
        rw [listKinds, List.length_append, List.length_cons, length_kinds]
        · omega
        · simp
      rw [hlength] at hclose ⊢
      refine Grammar.reads_list_more (hheads _ (hformed.kind_mem_heads hkinds))
        (Grammar.reads_argument
          (hreads.enclosed hkinds hformed.default_lt_level hcomma (by decide)))
        hcomma ?_
      have hnodes : nodes ++ listNodes setting.stream start (first :: second :: rest) =
          nodes ++ [(first.node setting.stream start).withField .arguments] ++
              [.ofToken (setting.stream.get (start + first.length))] ++
            listNodes setting.stream (start + first.length + 1) (second :: rest) := by
        rw [List.append_assoc, List.append_assoc]
        rfl
      rw [hnodes]
      exact ih hrest hmore hclose

theorem reads_call {arguments : List Operation} (hleft : left.Reads) (hcallable : left.isCallable)
    (hwithin : ∀ argument ∈ arguments, argument.WellFormed ∧ argument.Reads) :
    (call left arguments).Reads := by
  intro setting start stop power after hkinds hpower _ hrest
  obtain ⟨hfunction, hopen, hmore, hclose⟩ := hasKinds_call.mp hkinds
  have hown : setting.stream.operatorPower? (start + left.length) = some .member :=
    TokenStream.operatorPower?_of_kind hopen (by decide)
  have hlength : start + (call left arguments).length =
      start + left.length + 1 + (listKinds arguments).length + 1 := by
    rw [length_call]
    omega
  rw [hlength] at hrest
  exact hleft.trailed (member_le_level (isPlace_of_isCallable hcallable)) hfunction hpower hown
    (by rw [hopen]; rfl)
    (Grammar.reads_functionCall (by simp [hopen]) (kind_of_isCallable hcallable hfunction) hclose
      (reads_arguments hwithin hmore hclose)) hrest

end Call

section Leading

variable {operator : TokenKind}

theorem reads_unary (hright : right.Reads) (hleading : Precedence.isLeading operator)
    (htight : .unary ≤ right.level) : (unary operator right).Reads := by
  intro setting start stop power after hkinds hpower hfollowed hrest
  obtain ⟨hoperator, hoperand⟩ := hasKinds_unary.mp hkinds
  have hforms : ∀ kind, Precedence.isLeading kind →
      Grammar.leadingForm? kind = some .unary ∧ kind ≠ .eof := by decide
  obtain ⟨hform, heof⟩ := hforms operator hleading
  have hlevels : ∀ level : BindingPower, .unary ≤ level → .unary < level ∨ level = .unary := by
    intro level
    cases level <;> decide
  have hlength : start + (unary operator right).length = start + 1 + right.length := by
    rw [length_unary]
    omega
  rw [hlength] at hrest hfollowed
  refine Grammar.reads_expression (hoperator ▸ hform)
    (Grammar.reads_unary (hoperator ▸ heof) (hright.whole hoperand ?_ ?_ ?_)) hrest
  · exact (hlevels _ htight).imp_right fun hlevel => ⟨rfl, hlevel⟩
  · exact le_closing (by decide) htight
  · exact hfollowed.congr rfl rfl

end Leading

theorem reads_cast (hleft : left.Reads) (htight : .unary ≤ left.level) : (cast left).Reads := by
  intro setting start stop power after hkinds hpower hfollowed hrest
  obtain ⟨hvalue, has, htype⟩ := hasKinds_cast.mp hkinds
  have hcast : BindingPower.cast < left.level := Nat.lt_of_lt_of_le (by decide) htight
  have hpower : power < .cast := hpower.resolve_right (by simp [level])
  have hown : setting.stream.operatorPower? (start + left.length) = some .cast :=
    TokenStream.operatorPower?_of_kind has (by decide)
  rw [length_cast, ← Nat.add_assoc] at hfollowed hrest
  -- a bracket would be an operator that binds tighter than the cast
  have hbracket : setting.stream.kind (start + left.length + 2) ≠ .openBracket := by
    intro hbracket
    have hle : BindingPower.member ≤ .cast :=
      hfollowed.operator _ (TokenStream.operatorPower?_of_kind hbracket (by decide))
    contradiction
  have hsuffix : Grammar.suffixPower? (setting.stream.kind (start + left.length + 2)) = none := by
    have hsuffixes : ∀ kind : TokenKind, kind ≠ .question → kind ≠ .openBracket →
        Grammar.suffixPower? kind = none := by decide
    exact hsuffixes _ (hfollowed.type rfl) hbracket
  exact hleft.operator hvalue hpower (le_closing (by decide) (Nat.le_of_lt hcast)) hown
    (by rw [has]; rfl)
    (Grammar.reads_cast (by simp [has]) (kind_ne_cast hcast hvalue) htype hsuffix) hrest

section Infix

variable {operator : TokenKind}

theorem operation?_eq_binary {level : PrecedenceLevel}
    (hlevel : level ∈ Precedence.levelOf? operator) (hassociativity : level.associativity = .left)
    (hrange : operator ≠ .dotDot) : Grammar.operation? operator = some Grammar.binary := by
  fun_cases Grammar.operation? operator
  case case10 =>
    rw [hlevel, Option.bind_some, if_pos hassociativity]
  case case4 => contradiction
  all_goals
    cases hlevel
    try contradiction

theorem reads_binary (h : (binary operator left right).WellFormed) (hleft : left.Reads)
    (hright : right.Reads) : (binary operator left right).Reads := by
  cases h with | @binary _ _ _ own known associativity first second tight tighter unchained =>
  intro setting start stop power after hkinds hpower hfollowed hrest
  obtain ⟨hbefore, hoperator, hbehind⟩ := hasKinds_binary.mp hkinds
  obtain ⟨hassignment, hcast⟩ := Precedence.power_between _ _ known associativity
  have hlength : start + (binary operator left right).length =
      start + left.length + 1 + right.length := by
    rw [length_binary]
    omega
  rw [hlength] at hfollowed hrest
  rw [closing_binary known] at hfollowed
  rw [level_binary known] at hpower
  have hpower : power < own.power := by
    refine hpower.resolve_right ?_
    rintro ⟨-, hunary⟩
    rw [hunary] at hcast
    contradiction
  have hown : setting.stream.operatorPower? (start + left.length) = some own.power := by
    rw [TokenStream.operatorPower?_of_kind hoperator ?_]
    · exact Precedence.power?_eq _ _ known
    · rintro rfl
      cases known
      contradiction
  have hread : (Rule.call (.expression own.power)).Reads setting [] (start + left.length + 1)
      [right.node setting.stream (start + left.length + 1)]
      (start + left.length + 1 + right.length) :=
    hright.whole hbehind (.inl tighter) (le_closing hassignment (Nat.le_of_lt tighter))
      (hfollowed.congr rfl rfl)
  have heof : setting.stream.kind (start + left.length) ≠ .eof := by
    rw [hoperator]
    rintro rfl
    contradiction
  have hclosing : own.power ≤ left.closing := le_closing hassignment tight
  by_cases hdots : operator = .dotDot
  · exact hleft.operator hbefore hpower hclosing hown (by rw [hoperator, hdots]; rfl)
      (Grammar.reads_range heof (first.not_isRange hbefore (unchained hdots))
        (startsExpression_of_mem_heads (second.kind_mem_heads hbehind) _) hread) hrest
  · exact hleft.operator hbefore hpower hclosing hown
      (hoperator ▸ operation?_eq_binary known associativity hdots)
      (Grammar.reads_binary heof hread) hrest

theorem reads_assignment (hknown : operator ∈ [.assignment, .plusEquals]) (hleft : left.Reads)
    (hplace : left.isPlace) (hright : right.Reads) (hpositive : .default < right.level) :
    (assignment operator left right).Reads := by
  intro setting start stop power after hkinds hpower hfollowed hrest
  obtain ⟨htarget, hoperator, hvalue⟩ := hasKinds_assignment.mp hkinds
  have hlength : start + (assignment operator left right).length =
      start + left.length + 1 + right.length := by
    rw [length_assignment]
    omega
  rw [hlength] at hfollowed hrest
  have hpower : power < .assignment := hpower.resolve_right (by simp [level])
  have hoperators : ∀ kind ∈ [TokenKind.assignment, .plusEquals],
      Precedence.power? kind = some .assignment ∧ kind ≠ .dot ∧ kind ≠ .eof := by decide
  obtain ⟨hown, hdot, heof⟩ := hoperators operator hknown
  have hoperation : Grammar.operation? operator = some fun _ => Grammar.assignment := by
    simp only [List.mem_cons, List.not_mem_nil, or_false] at hknown
    rcases hknown with rfl | rfl <;> rfl
  rw [← TokenStream.operatorPower?_of_kind hoperator hdot] at hown
  rw [← hoperator] at heof hoperation
  have hread : (Rule.call (.expression .default)).Reads setting [] (start + left.length + 1)
      [right.node setting.stream (start + left.length + 1)]
      (start + left.length + 1 + right.length) :=
    hright.whole hvalue (.inl hpositive) (Nat.zero_le _) (hfollowed.congr rfl rfl)
  have hclosing : BindingPower.assignment ≤ left.closing :=
    Nat.le_trans (by decide) (le_closing (by decide) (member_le_level hplace))
  exact hleft.operator htarget hpower hclosing hown hoperation
    (Grammar.reads_assignment heof (kind_of_isPlace hplace htarget) hread) hrest

end Infix

theorem WellFormed.reads (h : operation.WellFormed) : operation.Reads := by
  induction h with
  | atom known => exact reads_atom known
  | grouped within ih => exact reads_grouped ih within.default_lt_level
  | member _ tight named ih => exact reads_member ih tight named
  | dereference _ tight ih => exact reads_dereference ih tight
  | index _ tight within ih ih' => exact reads_index ih tight ih' within.default_lt_level
  | call _ callable within ih ih' =>
    exact reads_call ih callable fun argument hmem => ⟨within argument hmem, ih' argument hmem⟩
  | unary leading _ tight ih => exact reads_unary ih leading tight
  | cast _ tight ih => exact reads_cast ih tight
  | binary known associativity before after tight tighter unchained ih ih' =>
    exact reads_binary (.binary known associativity before after tight tighter unchained) ih ih'
  | assignment known _ place right ih ih' =>
    exact reads_assignment known ih place ih' right.default_lt_level

/-- The tokens of a well-formed operation are read as that operation and as nothing else, in every
dialect and context, if what stands behind them does not belong to it. -/
theorem parse_eq_done (h : operation.WellFormed) (cursor : Cursor)
    (hkinds : setting.stream.HasKinds cursor.position operation.kinds)
    (hfollowed : operation.Followed .default setting (cursor.position + operation.length)) :
    ∃ after, (Nonterminal.expression .default).parse setting cursor =
        .done (operation.node setting.stream cursor.position) after ∧
      after.position = cursor.position + operation.length ∧
      (operation.node setting.stream cursor.position).hasError = false := by
  have hread : (Rule.call (.expression .default)).Reads setting [] _ _ _ :=
    Reads.whole h.reads hkinds (.inl h.default_lt_level) (Nat.zero_le _) hfollowed
  have hstart : setting.stream.kind cursor.position ≠ .eof := by
    have hheads : ∀ head ∈ heads, head ≠ .eof := by decide
    exact hheads _ (h.kind_mem_heads hkinds)
  obtain ⟨after, hparse, hstop⟩ := hread.parse (by simp [Nonterminal.Ready]) hstart
  exact ⟨after, hparse, hstop, h.hasError_node hkinds⟩

/-- A range from a sum to a call on the right side of an assignment, before a semicolon. -/
theorem parse_eq_done_assignment :
    let stream := (TokenStream.ofList? (tokenizeSignificant "a = -b.* + c[d]..f(g, 1);")).get
      (by decide +kernel)
    let setting : Setting := ⟨stream, .canonical, .condition, ""⟩
    let operation := assignment .assignment (.atom .identifier)
      (binary .dotDot
        (binary .plus (unary .dash (dereference (.atom .identifier)))
          (index (.atom .identifier) (.atom .identifier)))
        (call (.atom .identifier) [.atom .identifier, .atom .number]))
    operation.WellFormed ∧ stream.HasKinds 0 operation.kinds ∧
      operation.Followed .default setting (0 + operation.length) ∧
      ∃ after, (Nonterminal.expression .default).parse setting ⟨0, 0⟩ =
          .done (operation.node stream 0) after ∧
        after.position = 0 + operation.length ∧ (operation.node stream 0).hasError = false := by
  intro stream setting operation
  have hname : (atom .identifier).WellFormed := .atom (by decide)
  have hnumber : (atom .number).WellFormed := .atom (by decide)
  have hsum : (binary .plus (unary .dash (dereference (.atom .identifier)))
      (index (.atom .identifier) (.atom .identifier))).WellFormed :=
    .binary rfl rfl (.unary (by decide) (.dereference hname (by decide)) (by decide))
      (.index hname (by decide) hname) (by decide) (by decide) (by simp)
  have hcall : (call (.atom .identifier) [.atom .identifier, .atom .number]).WellFormed :=
    .call hname rfl (by simp [hname, hnumber])
  have hformed : operation.WellFormed :=
    .assignment (by decide) hname rfl
      (.binary rfl rfl hsum hcall (by decide) (by decide) (by simp [isRange]))
  have hkinds : stream.HasKinds 0 operation.kinds := by decide +kernel
  have hfollowed : operation.Followed .default setting (0 + operation.length) :=
    .of_kind (by decide +kernel : stream.kind _ = .semicolon) (by decide) (by decide)
  exact ⟨hformed, hkinds, hfollowed, parse_eq_done hformed ⟨0, 0⟩ hkinds hfollowed⟩

end Operation

end LosslessSyntax
