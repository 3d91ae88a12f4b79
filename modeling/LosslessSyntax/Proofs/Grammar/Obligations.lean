import LosslessSyntax.Proofs.LeadsTo
/-!
Obligations: what has to be shown of each production for its contract to hold, and how the parts of
productions lead from one situation to the next. What is left of an obligation after that is a
comparison of shapes that can be computed.
-/
namespace LosslessSyntax

/-- All that is known in the wider situation is known in the other. -/
structure Situation.Refines (situation wider : Situation) : Prop where
  shape : ∃ front here there, situation.shape = front ++ here ∧ wider.shape = front ++ there ∧
    Shape.within here there
  ahead : wider.ahead <+: situation.ahead
  moved : wider.moved → situation.moved

/-- The rule of a nonterminal leads wherever the nonterminal may be called to one of its effects. -/
def Nonterminal.Sound (dialect : Dialect) (name : Nonterminal) : Prop :=
  ∀ context situation, name.Expects (name.enter situation).ahead →
    name.rule.LeadsTo name.rank dialect context
      (fun last => ∃ effect ∈ name.effects context (name.enter situation), last.Refines effect)
      (name.enter situation)

attribute [simp] Nonterminal.rule Nonterminal.rank Nonterminal.before? Nonterminal.Expects
  Nonterminal.remembers Nonterminal.enter Nonterminal.Ready Nonterminal.result Nonterminal.effects
  Situation.after Form.bare

namespace Situation

@[refl] theorem Refines.refl (situation : Situation) : situation.Refines situation :=
  ⟨⟨situation.shape, [], [], by simp, by simp, rfl⟩, List.prefix_rfl, id⟩

variable {shape wider here there front : Shape} {ahead ahead' : List TokenKind} {moved moved' : Bool}

theorem refines_of_within (h : shape.within wider) (hmoved : moved' → moved) :
    Refines ⟨shape, ahead, moved⟩ ⟨wider, [], moved'⟩ :=
  ⟨⟨[], shape, wider, rfl, rfl, h⟩, List.nil_prefix, hmoved⟩

theorem refines_many {parts : List Part} :
    Refines ⟨shape, ahead, moved⟩ ⟨shape ++ [.many parts], [], false⟩ :=
  ⟨⟨shape, [], [.many parts], by simp, rfl, rfl⟩, List.nil_prefix, by simp⟩

@[simp] theorem refines_same : Refines ⟨shape, ahead, moved⟩ ⟨shape, [], moved'⟩ ↔
    (moved' → moved) := by
  constructor
  · exact Refines.moved
  · exact fun hmoved => ⟨⟨shape, [], [], by simp, by simp, rfl⟩, List.nil_prefix, hmoved⟩

theorem refines_append (h : here.within there) (hmoved : moved' → moved) :
    Refines ⟨front ++ here, ahead, moved⟩ ⟨front ++ there, [], moved'⟩ :=
  ⟨⟨front, here, there, rfl, rfl, h⟩, List.nil_prefix, hmoved⟩

end Situation

@[simp] theorem Piece.one_inj {parts parts' : List Part} : one parts = one parts' ↔ parts = parts' := by
  simp [one]

@[simp] theorem Shape.within_nil_nil : Shape.within [] [] = true := rfl

@[simp] theorem forall_mem_ite {c : Prop} [Decidable c] {yes no : List α} {P : α → Prop} :
    (∀ a ∈ if c then yes else no, P a) ↔ (c → ∀ a ∈ yes, P a) ∧ (¬c → ∀ a ∈ no, P a) := by
  split <;> simp [*]

@[simp] theorem map_kind_loose (kinds : List NodeKind) : (loose kinds).map (·.kind) = kinds := by
  simp [loose, Function.comp_def]

@[simp] theorem map_kind_filling (field : Field) (kinds : List NodeKind) :
    (filling field kinds).map (·.kind) = kinds := by
  simp [filling, Function.comp_def]

namespace Rule

variable {rank : Nat} {dialect : Dialect} {context : Context} {goal : Situation → Prop}
  {shape : Shape} {kind found : TokenKind} {ahead : List TokenKind} {moved : Bool} {s : Situation}

@[simp] theorem leadsTo_empty : Rule.empty.LeadsTo rank dialect context goal s ↔ goal s := Iff.rfl

theorem LeadsTo.imp {rule : Rule} {goal' : Situation → Prop}
    (h : rule.LeadsTo rank dialect context goal s) (hgoal : ∀ {last}, goal last → goal' last) :
    rule.LeadsTo rank dialect context goal' s := by
  induction rule generalizing context goal goal' s with
  | empty => exact hgoal h
  | seq first next ihFirst ihNext => exact ihFirst h fun hnext => ihNext hnext hgoal
  | take kind =>
    unfold LeadsTo at h ⊢
    split at h
    · contradiction
    · exact ⟨h.1, h.2.1, hgoal h.2.2⟩
  | look distance next ih =>
    unfold LeadsTo at h ⊢
    split at h
    · exact ih _ h hgoal
    · exact fun kind => ih _ (h kind) hgoal
  | fail failure => exact h
  | label field =>
    unfold LeadsTo at h ⊢
    split at h
    · exact hgoal h
    · contradiction
  | labelInner field =>
    unfold LeadsTo at h ⊢
    split at h
    · exact ⟨hgoal h.1, hgoal h.2⟩
    · contradiction
  | wrap kind => exact ⟨h.1, hgoal h.2⟩
  | apart rule ih => exact ih h hgoal
  | call name => exact ⟨h.1, h.2.1, fun effect heffect => hgoal (h.2.2 effect heffect)⟩
  | within inner rule ih => exact ih h hgoal
  | byContext next ih => exact ih _ h hgoal
  | byDialect next ih => exact ih _ h hgoal
  | byOperand next ih =>
    unfold LeadsTo at h ⊢
    split at h
    · exact fun part hpart operator => ih _ (h part hpart operator) hgoal
    · exact ⟨ih _ h.1 hgoal, fun operand => ih _ (h.2 operand) hgoal⟩
  | recover recovery rule ih => exact ⟨ih h.1 hgoal, hgoal h.2⟩
  | attempt trial next otherwise ihTrial ihNext ihOtherwise =>
    exact ⟨ihTrial h.1 fun hnext => ihNext hnext hgoal, ihOtherwise h.2 hgoal⟩
  | naming rule ih => exact ih h hgoal

@[simp] theorem leadsTo_ite {c : Prop} [Decidable c] {yes no : Rule} :
    (if c then yes else no).LeadsTo rank dialect context goal s ↔
      (c → yes.LeadsTo rank dialect context goal s) ∧
        (¬c → no.LeadsTo rank dialect context goal s) := by
  split <;> simp [*]

@[simp] theorem leadsTo_seq {first next : Rule} :
    (first.seq next).LeadsTo rank dialect context goal s ↔
      first.LeadsTo rank dialect context (next.LeadsTo rank dialect context goal) s := Iff.rfl

@[simp] theorem leadsTo_steps_nil :
    (steps []).LeadsTo rank dialect context goal s ↔ goal s := Iff.rfl

@[simp] theorem leadsTo_steps_singleton {rule : Rule} :
    (steps [rule]).LeadsTo rank dialect context goal s ↔
      rule.LeadsTo rank dialect context goal s := Iff.rfl

@[simp] theorem leadsTo_steps_cons {rule next : Rule} {rules : List Rule} :
    (steps (rule :: next :: rules)).LeadsTo rank dialect context goal s ↔
      rule.LeadsTo rank dialect context
        ((steps (next :: rules)).LeadsTo rank dialect context goal) s := Iff.rfl

@[simp] theorem leadsTo_take :
    (Rule.take none).LeadsTo rank dialect context goal ⟨shape, kind :: ahead, moved⟩ ↔
      kind ≠ .eof ∧ goal ⟨shape ++ [.one (loose [.ofToken kind])], ahead, true⟩ := by
  simp [LeadsTo, Renames, Situation.took, loose]

@[simp] theorem leadsTo_take_else :
    (Rule.take (some .elsePattern)).LeadsTo rank dialect context goal
        ⟨shape, .elseKeyword :: ahead, moved⟩ ↔
      goal ⟨shape ++ [.one (loose [.elsePattern])], ahead, true⟩ := by
  simp [LeadsTo, Renames, Situation.took, loose]

@[simp] theorem leadsTo_onKind_nil {next : TokenKind → Rule} :
    (onKind next).LeadsTo rank dialect context goal ⟨shape, [], moved⟩ ↔
      ∀ kind, (next kind).LeadsTo rank dialect context goal ⟨shape, [kind], moved⟩ := Iff.rfl

@[simp] theorem leadsTo_onKind_cons {next : TokenKind → Rule} :
    (onKind next).LeadsTo rank dialect context goal ⟨shape, kind :: ahead, moved⟩ ↔
      (next kind).LeadsTo rank dialect context goal ⟨shape, kind :: ahead, moved⟩ := Iff.rfl

@[simp] theorem leadsTo_look_one {next : TokenKind → Rule} :
    (Rule.look 1 next).LeadsTo rank dialect context goal ⟨shape, [kind], moved⟩ ↔
      ∀ following, (next following).LeadsTo rank dialect context goal
        ⟨shape, [kind, following], moved⟩ := Iff.rfl

@[simp] theorem leadsTo_look_two {next : TokenKind → Rule} {following : TokenKind} :
    (Rule.look 2 next).LeadsTo rank dialect context goal ⟨shape, [kind, following], moved⟩ ↔
      ∀ last, (next last).LeadsTo rank dialect context goal
        ⟨shape, [kind, following, last], moved⟩ := Iff.rfl

@[simp] theorem leadsTo_ifAt_nil {yes no : Rule} :
    (ifAt kind yes no).LeadsTo rank dialect context goal ⟨shape, [], moved⟩ ↔
      yes.LeadsTo rank dialect context goal ⟨shape, [kind], moved⟩ ∧
        ∀ found, found ≠ kind → no.LeadsTo rank dialect context goal ⟨shape, [found], moved⟩ := by
  simp only [ifAt, leadsTo_onKind_nil]
  constructor
  · intro h
    exact ⟨by simpa using h kind, fun found hne => by simpa [hne] using h found⟩
  · rintro ⟨hyes, hno⟩ found
    by_cases hfound : found = kind
    · simpa [hfound] using hyes
    · simpa [hfound] using hno found hfound

@[simp] theorem leadsTo_ifAt_cons {yes no : Rule} :
    (ifAt kind yes no).LeadsTo rank dialect context goal ⟨shape, found :: ahead, moved⟩ ↔
      (found = kind → yes.LeadsTo rank dialect context goal ⟨shape, kind :: ahead, moved⟩) ∧
        (found ≠ kind → no.LeadsTo rank dialect context goal ⟨shape, found :: ahead, moved⟩) := by
  simp only [ifAt, leadsTo_onKind_cons]
  by_cases hfound : found = kind
  · simp [hfound]
  · simp [hfound]

@[simp] theorem leadsTo_fail {failure : Failure} :
    (Rule.fail failure).LeadsTo rank dialect context goal s ↔
      ∀ message, failure ≠ .brokenTables message := Iff.rfl

@[simp] theorem leadsTo_expectAs_nil {what : String} :
    (expectAs kind what).LeadsTo rank dialect context goal ⟨shape, [], moved⟩ ↔
      kind ≠ .eof ∧ goal ⟨shape ++ [.one (loose [.ofToken kind])], [], true⟩ := by
  simp [expectAs]

@[simp] theorem leadsTo_expectAs_cons {what : String} :
    (expectAs kind what).LeadsTo rank dialect context goal ⟨shape, found :: ahead, moved⟩ ↔
      (found = kind → kind ≠ .eof ∧
        goal ⟨shape ++ [.one (loose [.ofToken kind])], ahead, true⟩) := by
  simp [expectAs]

@[simp] theorem leadsTo_expect_nil :
    (expect kind).LeadsTo rank dialect context goal ⟨shape, [], moved⟩ ↔
      kind ≠ .eof ∧ goal ⟨shape ++ [.one (loose [.ofToken kind])], [], true⟩ :=
  leadsTo_expectAs_nil

@[simp] theorem leadsTo_expect_cons :
    (expect kind).LeadsTo rank dialect context goal ⟨shape, found :: ahead, moved⟩ ↔
      (found = kind → kind ≠ .eof ∧
        goal ⟨shape ++ [.one (loose [.ofToken kind])], ahead, true⟩) :=
  leadsTo_expectAs_cons

theorem leadsTo_ifAt {yes no : Rule}
    (hyes : ∀ ahead, yes.LeadsTo rank dialect context goal ⟨shape, kind :: ahead, moved⟩)
    (hno : ∀ ahead, no.LeadsTo rank dialect context goal ⟨shape, ahead, moved⟩) :
    (ifAt kind yes no).LeadsTo rank dialect context goal ⟨shape, ahead, moved⟩ := by
  cases ahead with
  | nil => exact leadsTo_ifAt_nil.mpr ⟨hyes [], fun found _ => hno [found]⟩
  | cons found ahead => exact leadsTo_ifAt_cons.mpr ⟨fun _ => hyes ahead, fun _ => hno _⟩

theorem leadsTo_expect (hkind : kind ≠ .eof)
    (hgoal : ∀ ahead, goal ⟨shape ++ [.one (loose [.ofToken kind])], ahead, true⟩) :
    (expect kind).LeadsTo rank dialect context goal ⟨shape, ahead, moved⟩ :=
  leadsTo_ifAt (fun ahead => leadsTo_take.mpr ⟨hkind, hgoal ahead⟩) (fun _ => by simp)

@[simp] theorem leadsTo_inField {field : Field} {rule : Rule} :
    (inField field rule).LeadsTo rank dialect context goal s ↔
      rule.LeadsTo rank dialect context
        ((Rule.label field).LeadsTo rank dialect context goal) s := Iff.rfl

@[simp] theorem leadsTo_label {field : Field} :
    (Rule.label field).LeadsTo rank dialect context goal ⟨shape, ahead, moved⟩ ↔
      ∃ front parts, shape.last? = some (front, parts) ∧
        goal ⟨front ++ [.one (filling field (parts.map (·.kind)))], ahead, moved⟩ := by
  unfold LeadsTo
  split
  · rename_i front parts hlast
    simp [hlast]
  · rename_i hlast
    simp [hlast]

@[simp] theorem leadsTo_labelInner {field : Field} :
    (Rule.labelInner field).LeadsTo rank dialect context goal ⟨shape, ahead, moved⟩ ↔
      ∃ front parts, shape.last? = some (front, parts) ∧
        goal ⟨front ++ [.one (filling field (parts.map (·.kind)))], ahead, moved⟩ ∧
        goal ⟨front ++ [Form.word .openParen, Form.fill field NodeKind.expressions,
          Form.word .closeParen], ahead, moved⟩ := by
  unfold LeadsTo
  split
  · rename_i front parts hlast
    simp [hlast]
  · rename_i hlast
    simp [hlast]

@[simp] theorem leadsTo_recover {recovery : Recovery} {rule : Rule} :
    (Rule.recover recovery rule).LeadsTo rank dialect context goal ⟨shape, ahead, moved⟩ ↔
      rule.LeadsTo rank dialect context (fun t => goal ⟨shape ++ t.shape, t.ahead, t.moved⟩)
        ⟨[], ahead, moved⟩ ∧
      goal ⟨shape ++ [.one (loose [.error])], [],
        moved || (recovery.forceProgress && ahead.head?.any (· != .eof))⟩ := Iff.rfl

@[simp] theorem leadsTo_attempt {trial next otherwise : Rule} :
    (Rule.attempt trial next otherwise).LeadsTo rank dialect context goal s ↔
      trial.LeadsTo rank dialect context (next.LeadsTo rank dialect context goal) s ∧
        otherwise.LeadsTo rank dialect context goal s := Iff.rfl

@[simp] theorem leadsTo_wrap {kind : NodeKind} :
    (Rule.wrap kind).LeadsTo rank dialect context goal ⟨shape, ahead, moved⟩ ↔
      kind.accepts dialect shape ∧ goal ⟨[.one (loose [kind])], ahead, moved⟩ := Iff.rfl

@[simp] theorem leadsTo_apart {rule : Rule} :
    (Rule.apart rule).LeadsTo rank dialect context goal ⟨shape, ahead, moved⟩ ↔
      rule.LeadsTo rank dialect context
        (fun t => goal ⟨shape ++ t.shape, t.ahead, t.moved⟩) ⟨[], ahead, moved⟩ := Iff.rfl

@[simp] theorem leadsTo_call {name : Nonterminal} :
    (Rule.call name).LeadsTo rank dialect context goal s ↔
      (s.moved ∨ name.rank < rank) ∧ name.Ready s ∧
        ∀ effect ∈ name.effects context (name.enter s), goal (s.after effect) := Iff.rfl

@[simp] theorem leadsTo_child {name : Nonterminal} :
    (child name).LeadsTo rank dialect context goal s ↔
      (s.moved ∨ name.rank < rank) ∧ name.Ready { s with shape := [] } ∧
        ∀ effect ∈ name.effects context (name.enter { s with shape := [] }),
          goal ⟨s.shape ++ effect.shape, effect.ahead, s.moved || effect.moved⟩ := Iff.rfl

@[simp] theorem leadsTo_within {inner : Context} {rule : Rule} :
    (Rule.within inner rule).LeadsTo rank dialect context goal s ↔
      rule.LeadsTo rank dialect inner goal s := Iff.rfl

@[simp] theorem leadsTo_byContext {next : Context → Rule} :
    (Rule.byContext next).LeadsTo rank dialect context goal s ↔
      (next context).LeadsTo rank dialect context goal s := Iff.rfl

@[simp] theorem leadsTo_byDialect {next : Dialect → Rule} :
    (Rule.byDialect next).LeadsTo rank dialect context goal s ↔
      (next dialect).LeadsTo rank dialect context goal s := Iff.rfl

@[simp] theorem leadsTo_byOperand_nil {next : Option Operand → Rule} :
    (Rule.byOperand next).LeadsTo rank dialect context goal ⟨[], ahead, moved⟩ ↔
      (next none).LeadsTo rank dialect context goal ⟨[], ahead, moved⟩ ∧
        ∀ operand, (next (some operand)).LeadsTo rank dialect context goal ⟨[], ahead, moved⟩ :=
  Iff.rfl

@[simp] theorem leadsTo_byOperand {next : Option Operand → Rule} {kinds : List NodeKind} :
    (Rule.byOperand next).LeadsTo rank dialect context goal ⟨[.one (loose kinds)], ahead, moved⟩ ↔
      ∀ kind ∈ kinds, ∀ operator,
        (next (some ⟨kind, operator⟩)).LeadsTo rank dialect context goal
          ⟨[.one (loose [kind])], ahead, moved⟩ := by
  simp only [LeadsTo, Shape.last?_singleton, loose, List.forall_mem_map, List.nil_append,
    List.map_cons, List.map_nil]

@[simp] theorem leadsTo_naming {rule : Rule} :
    (Rule.naming rule).LeadsTo rank dialect context goal s ↔
      rule.LeadsTo rank dialect context goal s := Iff.rfl

/-- A nonterminal that reads one part after another: a part takes a token or is recovered from, and
the nonterminal goes on behind it. -/
theorem leadsTo_loop {name : Nonterminal} {recovery : Recovery} {part : Rule} {parts : List Part}
    (hexpects : ∀ ahead, name.Expects ahead) (hbefore : name.before? = none)
    (heffects : ∀ s, name.effects context s = [⟨s.shape ++ [.many parts], [], false⟩])
    (hforce : recovery.forceProgress) (hkind : kind ≠ .eof)
    (herror : Shape.within [Form.bare [.error], .many parts] [.many parts])
    (hpart : part.LeadsTo rank dialect context
      (fun t => ∃ more ahead, t = ⟨more, ahead, true⟩ ∧
        Shape.within (more ++ [.many parts]) [.many parts]) ⟨[], kind :: ahead, false⟩) :
    (steps [.recover recovery part, .call name]).LeadsTo rank dialect context
      (fun last => last.Refines ⟨shape ++ [.many parts], [], false⟩)
      ⟨shape, kind :: ahead, false⟩ := by
  have hcall (more : Shape) (ahead : List TokenKind)
      (hmore : Shape.within (more ++ [.many parts]) [.many parts]) :
      (Rule.call name).LeadsTo rank dialect context
        (fun last => last.Refines ⟨shape ++ [.many parts], [], false⟩)
        ⟨shape ++ more, ahead, true⟩ := by
    refine ⟨.inl rfl, ⟨fun _ h => ?_, hexpects _⟩, fun effect heffect => ?_⟩
    · rw [hbefore] at h
      contradiction
    rw [heffects, List.mem_singleton] at heffect
    simp only [heffect, Situation.after, Nonterminal.enter, hbefore, Option.getD_none,
      List.append_assoc]
    exact Situation.refines_append hmore (by simp)
  simp only [leadsTo_steps_cons, leadsTo_recover, leadsTo_steps_singleton]
  constructor
  · refine hpart.imp ?_
    rintro _ ⟨more, ahead, rfl, hmore⟩
    exact hcall more ahead hmore
  · have hmoved : (false || (recovery.forceProgress &&
        (kind :: ahead).head?.any (· != .eof))) = true := by
      simp [hforce, hkind]
    rw [hmoved]
    exact hcall [Form.bare [.error]] [] herror

end Rule

end LosslessSyntax
