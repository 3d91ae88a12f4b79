import LosslessSyntax.Proofs.Grammar.Obligations
/-!
The contracts of lists hold.
-/
namespace LosslessSyntax

open Rule

variable {dialect : Dialect}

theorem Grammar.leadsTo_element (listing : Listing) (context : Context) (shape : Shape)
    (found : TokenKind) :
    (element listing).LeadsTo 4 dialect context
      (fun last => ∃ parts ahead, last = ⟨shape ++ [.one parts], ahead, true⟩ ∧
        Piece.covers (.one parts) (.one listing.parts))
      ⟨shape, [found], false⟩ := by
  cases listing
  case parameters =>
    simp [element, parameter, typeField, anyType]
    exact fun _ => ⟨rfl, rfl⟩
  case arguments =>
    simp [element, defaultExpression]
    rfl
  case fieldEntries =>
    simp [element, fieldEntry, defaultExpression]
    rintro - following
    refine ⟨?_, fun _ => ⟨rfl, rfl⟩⟩
    rintro rfl
    exact ⟨by decide, rfl, rfl⟩
  case types =>
    simp [element, anyType]
    rfl
  case signatureTypes =>
    simp [element, signatureType, anyType, typeField]
    refine ⟨fun _ following => ⟨?_, fun _ => rfl⟩, fun _ => rfl⟩
    rintro rfl
    exact ⟨by decide, rfl, rfl⟩
  case patterns =>
    simp [element]
    rfl

namespace Nonterminal

variable {context : Context} {situation effect : Situation}

theorem shape_of_mem_effects_list {listing : Listing}
    (h : effect ∈ (list listing).effects context situation) :
    effect.shape = situation.shape ∨ effect.shape = situation.shape ++ listing.filled := by
  simp only [effects] at h
  split at h
  · split at h
    · exact .inl (by rw [List.mem_singleton.mp h])
    · exact .inr (by rw [List.mem_singleton.mp h])
  · rcases List.mem_pair.mp h with rfl | rfl
    · exact .inl rfl
    · exact .inr rfl

theorem shape_of_mem_effects_more {continuation : Continuation}
    (h : effect ∈ (more continuation).effects context situation) :
    effect.shape = situation.shape ∨ effect.shape = situation.shape ++ continuation.filled := by
  simp only [effects] at h
  split at h
  · split at h
    · exact .inr (by rw [List.mem_singleton.mp h])
    · exact .inl (by rw [List.mem_singleton.mp h])
  · rcases List.mem_pair.mp h with rfl | rfl
    · exact .inl rfl
    · exact .inr rfl

theorem leadsTo_list {listing : Listing} {rank : Nat} {goal : Situation → Prop} {shape : Shape}
    {ahead : List TokenKind} {kind : TokenKind} (hkind : kind ≠ .eof)
    (hbare : ∀ ahead, goal ⟨shape ++ [.one (loose [.ofToken kind])], ahead, true⟩)
    (hfilled : ∀ ahead,
      goal ⟨shape ++ listing.filled ++ [.one (loose [.ofToken kind])], ahead, true⟩) :
    (steps [.call (.list listing), expect kind]).LeadsTo rank dialect context goal
      ⟨shape, ahead, true⟩ := by
  refine ⟨.inl rfl, by simp, fun effect heffect => ?_⟩
  have hshape := shape_of_mem_effects_list heffect
  simp only [enter, before?, Option.getD_none] at hshape
  rcases effect with ⟨here, _, _⟩
  rcases hshape with rfl | rfl
  · exact leadsTo_expect hkind hbare
  · exact leadsTo_expect hkind hfilled

theorem leadsTo_more {continuation : Continuation} {rank : Nat} {goal : Situation → Prop}
    {shape : Shape} {ahead : List TokenKind} {kind : TokenKind} (hkind : kind ≠ .eof)
    (hbare : ∀ ahead, goal ⟨shape ++ [.one (loose [.ofToken kind])], ahead, true⟩)
    (hfilled : ∀ ahead,
      goal ⟨shape ++ continuation.filled ++ [.one (loose [.ofToken kind])], ahead, true⟩) :
    (steps [.call (.more continuation), expect kind]).LeadsTo rank dialect context goal
      ⟨shape, ahead, true⟩ := by
  refine ⟨.inl rfl, by simp, fun effect heffect => ?_⟩
  have hshape := shape_of_mem_effects_more heffect
  simp only [enter, before?, Option.getD_none] at hshape
  rcases effect with ⟨here, _, _⟩
  rcases hshape with rfl | rfl
  · exact leadsTo_expect hkind hbare
  · exact leadsTo_expect hkind hfilled

end Nonterminal

theorem Grammar.leadsTo_afterElement (listing : Listing) (context : Context) (shape : Shape)
    (parts : List Part) (ahead : List TokenKind)
    (hparts : Piece.covers (.one parts) (.one listing.parts)) :
    (ifAt .comma (steps [.take none, .call (.list listing)]) .empty).LeadsTo 4 dialect context
      (fun last => last.Refines ⟨shape ++ listing.filled, [], true⟩)
      ⟨shape ++ [.one parts], ahead, true⟩ := by
  have hend (ahead : List TokenKind) : Situation.Refines ⟨shape ++ [.one parts], ahead, true⟩
      ⟨shape ++ listing.filled, [], true⟩ :=
    Situation.refines_append (Shape.within_cons hparts rfl) id
  have hcall (ahead : List TokenKind) :
      (Rule.call (.list listing)).LeadsTo 4 dialect context
        (fun last => last.Refines ⟨shape ++ listing.filled, [], true⟩)
        ⟨shape ++ [.one parts] ++ [.one (loose [.token .comma])], ahead, true⟩ := by
    refine ⟨.inl rfl, by simp, fun effect heffect => ?_⟩
    have hshape := Nonterminal.shape_of_mem_effects_list heffect
    simp only [Nonterminal.enter, Nonterminal.before?, Option.getD_none, List.append_assoc]
      at hshape
    rcases effect with ⟨here, _, _⟩
    rcases hshape with rfl | rfl
    · exact Situation.refines_append (Shape.within_cons hparts (by cases listing <;> rfl)) id
    · exact Situation.refines_append (Shape.within_cons hparts (by cases listing <;> rfl)) id
  rcases ahead with _ | ⟨kind, ahead⟩
  · exact leadsTo_ifAt_nil.mpr ⟨⟨by decide, .inl rfl, hcall []⟩, fun _ _ => hend _⟩
  · exact leadsTo_ifAt_cons.mpr ⟨fun _ => ⟨by decide, .inl rfl, hcall ahead⟩, fun _ => hend _⟩

theorem Grammar.leadsTo_continuationElement (continuation : Continuation) (context : Context)
    (shape : Shape) (found : TokenKind) :
    (continuationElement continuation).LeadsTo 0 dialect context
      (fun last => last = ⟨shape ++ [.one continuation.parts], [], true⟩)
      ⟨shape, [found], true⟩ := by
  cases continuation
  case genericNames =>
    simp [continuationElement]
    exact fun _ => rfl
  all_goals
    simp [continuationElement, defaultExpression]
    rfl

namespace Nonterminal

theorem sound_list (listing : Listing) : (list listing).Sound dialect := by
  intro context situation _
  have hfilled (kind : TokenKind) :
      (steps [Grammar.element listing,
        ifAt .comma (steps [.take none, .call (.list listing)]) .empty]).LeadsTo 4 dialect context
        (fun last => last.Refines ⟨situation.shape ++ listing.filled, [], true⟩)
        ⟨situation.shape, [kind], false⟩ := by
    refine (Grammar.leadsTo_element listing context situation.shape kind).imp ?_
    rintro _ ⟨parts, ahead, rfl, hparts⟩
    exact Grammar.leadsTo_afterElement listing context situation.shape parts ahead hparts
  rcases hahead : situation.ahead with _ | ⟨kind, ahead⟩
  · simp [hahead, Grammar.list, -leadsTo_steps_cons]
    exact fun kind _ _ => (hfilled kind).imp .inr
  · simp [hahead, Grammar.list, -leadsTo_steps_cons]
    refine ⟨fun hclosing => ⟨_, by rw [if_pos hclosing]; exact List.mem_singleton.mpr rfl, .refl _⟩,
      fun hclosing heof => (hfilled kind).imp fun h => ⟨_, ?_, h⟩⟩
    rw [if_neg (by simp [hclosing, heof])]
    exact List.mem_singleton.mpr rfl

theorem sound_more (continuation : Continuation) : (more continuation).Sound dialect := by
  intro context situation _
  have hfilled : (steps [.take none,
        ifAt (Grammar.continuationClosing continuation) .empty
          (steps [Grammar.continuationElement continuation, .call (.more continuation)])]).LeadsTo
        0 dialect context
        (fun last => last.Refines ⟨situation.shape ++ continuation.filled, [], true⟩)
        ⟨situation.shape, [.comma], false⟩ := by
    refine ⟨by decide, .inl rfl, leadsTo_ifAt_nil.mpr ⟨?_, fun kind _ => ?_⟩⟩
    · exact Situation.refines_append (by cases continuation <;> rfl) id
    refine (Grammar.leadsTo_continuationElement continuation context _ kind).imp ?_
    rintro _ rfl
    refine ⟨.inl rfl, by simp, fun effect heffect => ?_⟩
    have hshape := shape_of_mem_effects_more heffect
    simp only [enter, before?, Option.getD_none, List.append_assoc] at hshape
    rcases effect with ⟨here, _, _⟩
    rcases hshape with rfl | rfl
    · exact Situation.refines_append (by cases continuation <;> rfl) id
    · exact Situation.refines_append (by cases continuation <;> rfl) id
  rcases hahead : situation.ahead with _ | ⟨kind, ahead⟩
  · simp [hahead, Grammar.more, -leadsTo_steps_cons]
    exact hfilled.imp .inr
  · simp [hahead, Grammar.more, -leadsTo_steps_cons]
    refine ⟨fun hcomma => hfilled.imp fun h => ⟨_, ?_, h⟩, fun hcomma => ⟨_, ?_, .refl _⟩⟩
    · rw [if_pos hcomma]
      exact List.mem_singleton.mpr rfl
    · rw [if_neg hcomma]
      exact List.mem_singleton.mpr rfl

end Nonterminal

end LosslessSyntax
