import LosslessSyntax.Proofs.Grammar.Lists
/-!
The contract of patterns holds.
-/
namespace LosslessSyntax

open Rule

variable {dialect : Dialect}

theorem Grammar.leadsTo_variantPayload {context : Context} {shape : Shape} (ahead : List TokenKind)
    (hbare : NodeKind.variantPattern.accepts dialect shape)
    (hempty : NodeKind.variantPattern.accepts dialect
      (shape ++ [Form.word .openParen, Form.word .closeParen]))
    (hfilled : NodeKind.variantPattern.accepts dialect
      (shape ++ (Form.word .openParen :: Listing.patterns.filled ++ [Form.word .closeParen]))) :
    variantPayload.LeadsTo 0 dialect context
      (fun last => last.Refines ⟨[Form.bare NodeKind.patterns], [], true⟩)
      ⟨shape, ahead, true⟩ := by
  have hpattern (ahead : List TokenKind) :
      Situation.Refines ⟨[.one (loose [.variantPattern])], ahead, true⟩
        ⟨[Form.bare NodeKind.patterns], [], true⟩ :=
    Situation.refines_of_within rfl id
  refine leadsTo_ifAt (fun ahead => ?_) fun ahead => ⟨hbare, hpattern ahead⟩
  refine leadsTo_steps_cons.mpr (leadsTo_take.mpr ⟨by decide, ?_⟩)
  refine Nonterminal.leadsTo_list (by decide) (fun ahead => ⟨?_, hpattern ahead⟩)
    fun ahead => ⟨?_, hpattern ahead⟩
  · rw [List.append_assoc]
    exact hempty
  · rw [List.append_assoc, List.append_assoc]
    exact hfilled

theorem Grammar.leadsTo_bareVariant {context : Context} (ahead : List TokenKind) :
    bareVariant.LeadsTo 0 dialect context
      (fun last => last.Refines ⟨[Form.bare NodeKind.patterns], [], true⟩)
      ⟨[], .typeIdentifier :: ahead, false⟩ := by
  simp [bareVariant]
  exact leadsTo_variantPayload ahead rfl rfl rfl

theorem Nonterminal.sound_pattern : pattern.Sound dialect := by
  rintro context situation -
  simp [Grammar.pattern]
  intro kind
  split
  case h_1 =>
    simp
    exact Situation.refines_of_within rfl id
  case h_2 =>
    simp
    exact Situation.refines_of_within rfl id
  case h_3 =>
    simp
    exact ⟨rfl, Situation.refines_of_within rfl id⟩
  case h_4 =>
    simp [Grammar.variantPattern]
    refine fun following => ⟨?_, fun _ => Grammar.leadsTo_bareVariant _⟩
    rintro rfl last
    refine ⟨?_, fun _ => Grammar.leadsTo_bareVariant _⟩
    rintro rfl
    exact ⟨by decide, by decide, Grammar.leadsTo_variantPayload [] rfl rfl rfl⟩
  case h_5 => simp

end LosslessSyntax
