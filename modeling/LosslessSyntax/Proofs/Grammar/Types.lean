import LosslessSyntax.Proofs.Grammar.Obligations
/-!
The contracts of types hold.
-/
namespace LosslessSyntax

open Rule

variable {dialect : Dialect}

namespace Nonterminal

theorem sound_type (power : BindingPower) : (type power).Sound dialect := by
  rintro context situation -
  simp only [rule, Grammar.type, enter, before?, Option.getD, remembers, Bool.false_eq_true,
    if_false, leadsTo_onKind_nil]
  intro kind
  fun_cases Grammar.typeForm? kind
  all_goals simp
  all_goals decide

theorem sound_suffixes (power : BindingPower) : (suffixes power).Sound dialect := by
  rintro context situation -
  simp only [rule, Grammar.suffixes, enter, before?, Option.getD, remembers, Bool.false_eq_true,
    if_false, leadsTo_onKind_nil]
  intro kind
  fun_cases Grammar.suffixPower? kind
  all_goals simp [Grammar.suffix?]
  all_goals exact fun _ => ⟨rfl, rfl⟩

theorem sound_primitiveType : primitiveType.Sound dialect := by
  rintro context situation -
  simp [Grammar.primitiveType]
  exact Situation.refines_of_within rfl id

theorem sound_genericTypeParameter : genericTypeParameter.Sound dialect := by
  rintro context situation -
  simp [Grammar.genericTypeParameter]
  rfl

theorem sound_referenceType : referenceType.Sound dialect := by
  rintro context situation -
  simp [Grammar.referenceType]
  rfl

theorem sound_arrayType : arrayType.Sound dialect := by
  rintro context situation -
  simp [Grammar.arrayType, Grammar.typeField, Grammar.anyType, Grammar.innerExpression]
  rfl

theorem sound_functionType : functionType.Sound dialect := by
  rintro context situation -
  simp [Grammar.functionType, Grammar.anyType, Listing.filled]
  exact ⟨rfl, rfl⟩

theorem sound_tupleType : tupleType.Sound dialect := by
  rintro context situation -
  simp [Grammar.tupleType, Listing.filled]
  exact ⟨rfl, rfl⟩

theorem sound_namedType : namedType.Sound dialect := by
  rintro context situation -
  simp [Grammar.namedType]
  exact ⟨rfl, fun _ _ => rfl⟩

theorem sound_genericArguments : genericArguments.Sound dialect := by
  rintro context situation -
  simp [Grammar.genericArguments, Listing.filled]
  intro found hfound
  exact ⟨fun _ hclose => absurd hclose hfound, fun _ _ => rfl⟩

end Nonterminal

end LosslessSyntax
