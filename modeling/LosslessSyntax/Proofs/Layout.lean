import LosslessSyntax.Proofs.Conformance
/-!
Layout: rules about the children of a node that no entry of the schema can express, since they are
about the order of children or tie slots to one another. The forms of nodes have them all.
-/
namespace LosslessSyntax

open Text (byteLength)

def Part.word (kind : TokenKind) : Part := ⟨none, .token kind⟩

/-- The rules of layout that the children of a node of a kind keep, as their parent sees them. -/
structure Part.LaidOut (kind : NodeKind) (parts : List Part) : Prop where
  /-- A variant has no value if it has a payload. -/
  variant : kind = .enumVariant → (∃ part ∈ parts, part.kind = .variantParameters) →
    ∀ part ∈ parts, part.field ≠ some .value
  /-- Before the keyword of a function come a `pub` and a directive, in this order, or less. -/
  function : kind = .functionDefinition →
    ∃ front back, parts = front ++ word .fnKeyword :: back ∧
      (front.map (·.kind)).Sublist [.visibilityModifier, .directive]
  /-- Only functions have directives. -/
  directive : kind ≠ .functionDefinition → ∀ part ∈ parts, part.kind ≠ .directive
  /-- A value to be repeated comes with how often it is. -/
  repetition : kind = .arrayLiteral →
    ((∃ part ∈ parts, part.field = some .value) ↔ ∃ part ∈ parts, part.field = some .length)
  /-- Beside a value to be repeated there are no elements. -/
  elements : kind = .arrayLiteral → (∃ part ∈ parts, part.field = some .length) →
    ∀ part ∈ parts, part.field = none → part.kind.isNamed = false
  /-- What makes a tuple is a comma. -/
  tuple : kind = .tupleExpression → word .comma ∈ parts
  /-- A group is one expression between parentheses. -/
  group : kind = .groupedExpression →
    ∃ inner ∈ NodeKind.expressions, parts = [word .openParen, ⟨none, inner⟩, word .closeParen]
  /-- Type arguments come once at most, and before the fields. -/
  struct : kind = .structLiteral →
    ∃ front back, parts = front ++ word .openCurly :: back ∧
      (front.map (·.kind)).count .genericArguments ≤ 1 ∧
      ∀ part ∈ back, part.kind ≠ .genericArguments
  /-- A parenthesis opens right before a condition if and only if one closes right behind it. -/
  condition : kind = .ifStatement ∨ kind = .ifExpression →
    ∀ front inner back, parts = front ++ ⟨some .condition, inner⟩ :: back →
      (front.getLast? = some (word .openParen) ↔ back.head? = some (word .closeParen))

namespace Shape

variable {shape : Shape} {parts : List Part} {part : Part}

theorem fits_maybe_iff {allowed : Part} :
    Fits (.maybe [allowed] :: shape) parts ↔
      ∃ rest, (parts = rest ∨ parts = allowed :: rest) ∧ Fits shape rest := by
  constructor
  · rintro ⟨run, rest, rfl, hrun, hrest⟩
    refine ⟨rest, ?_, hrest⟩
    rcases run with _ | ⟨first, run⟩
    · exact .inl rfl
    · have hnil : run = [] := by simpa [Piece.maybe] using hrun.single rfl
      have hfirst : first = allowed := by
        simpa [Piece.maybe] using hrun.mem first List.mem_cons_self
      exact .inr (by rw [hnil, hfirst]; rfl)
  · rintro ⟨rest, rfl | rfl, hrest⟩
    · exact ⟨[], parts, rfl, Piece.fits_nil rfl, hrest⟩
    · exact ⟨[allowed], rest, rfl, ⟨by simp [Piece.maybe], by simp, by simp⟩, hrest⟩

theorem Fits.forall_of_restricts (hfits : Fits shape parts) {condition : Part → Bool}
    (h : shape.restricts (fun _ => true) condition) : ∀ part ∈ parts, condition part :=
  fun part hpart => hfits.restricted h part hpart rfl

theorem Fits.exists_of_certain (hfits : Fits shape parts) {select : Part → Bool}
    (h : shape.certain select) : ∃ part ∈ parts, select part := by
  obtain ⟨part, hpart⟩ := List.exists_mem_of_ne_nil _ (hfits.filter_ne_nil h)
  exact ⟨part, List.mem_filter.mp hpart⟩

theorem Fits.around (front back : Shape) {allowed first last : List Part} {select : Part → Bool}
    (hfits : Fits (front ++ .one allowed :: back) (first ++ part :: last))
    (hfront : front.all fun piece => !piece.parts.any select)
    (hback : back.all fun piece => !piece.parts.any select) (hpart : select part) :
    Fits front first ∧ Fits back last := by
  obtain ⟨first', rest, hparts, hfirst, hrest⟩ := fits_append_iff.mp hfits
  obtain ⟨middle, -, last', rfl, hlast⟩ := fits_cons_one_iff.mp hrest
  have hnot : ∀ {shape : Shape} {parts : List Part}, Fits shape parts →
      (shape.all fun piece => !piece.parts.any select) → part ∉ parts := by
    intro shape parts hshape hnone hmem
    exact List.filter_eq_nil_iff.mp (hshape.filter_eq_nil hnone) part hmem hpart
  obtain ⟨rfl, -, rfl⟩ := (List.append_cons_inj_of_notMem (hnot hfirst hfront)
    (hnot hlast hback)).mp hparts.symm
  exact ⟨hfirst, hlast⟩

end Shape

namespace Part.LaidOut

open Form

variable {dialect : Dialect} {kind : NodeKind} {form : Shape} {parts : List Part}

theorem variant_of_fits (hform : form ∈ NodeKind.enumVariant.forms dialect)
    (hfits : form.Fits parts) (hpayload : ∃ part ∈ parts, part.kind = .variantParameters) :
    ∀ part ∈ parts, part.field ≠ some .value := by
  have hforms : ∀ form ∈ NodeKind.enumVariant.forms dialect,
      form.restricts (fun _ => true) (fun part => part.kind != .variantParameters) ∨
        form.restricts (fun _ => true) (fun part => part.field != some .value) := by
    cases dialect <;> decide
  rcases hforms form hform with hnone | hnone
  · obtain ⟨part, hpart, hkind⟩ := hpayload
    have hother := hfits.forall_of_restricts hnone part hpart
    simp [hkind] at hother
  · intro part hpart
    simpa using hfits.forall_of_restricts hnone part hpart

theorem function_of_fits (hform : form ∈ NodeKind.functionDefinition.forms dialect)
    (hfits : form.Fits parts) :
    ∃ front back, parts = front ++ word .fnKeyword :: back ∧
      (front.map (·.kind)).Sublist [.visibilityModifier, .directive] := by
  obtain rfl := List.mem_singleton.mp hform
  obtain ⟨front, rest, rfl, hfront, hrest⟩ := Shape.fits_append_iff.mp hfits
  obtain ⟨keyword, hkeyword, back, rfl, -⟩ := Shape.fits_cons_one_iff.mp hrest
  obtain rfl := List.mem_singleton.mp hkeyword
  refine ⟨front, back, rfl, ?_⟩
  obtain ⟨rest, hvisibility, hrest⟩ := Shape.fits_maybe_iff.mp hfront
  obtain ⟨rest', hdirective, hnil⟩ := Shape.fits_maybe_iff.mp hrest
  obtain rfl := Shape.fits_nil_iff.mp hnil
  rcases hdirective with rfl | rfl <;> rcases hvisibility with rfl | rfl <;> simp

theorem directive_of_fits (hkind : kind ≠ .functionDefinition) (hform : form ∈ kind.forms dialect)
    (hfits : form.Fits parts) : ∀ part ∈ parts, part.kind ≠ .directive := by
  have hforms : ∀ kind ∈ NodeKind.named, kind ≠ .functionDefinition →
      ∀ form ∈ kind.forms dialect,
        form.restricts (fun _ => true) (fun part => part.kind != .directive) := by
    cases dialect <;> decide +kernel
  intro part hpart
  by_cases hnamed : kind.isNamed
  · have hother := hforms kind ((NodeKind.mem_named_iff kind).mpr hnamed) hkind form hform
    simpa using hfits.forall_of_restricts hother part hpart
  · -- a token has no children
    obtain ⟨token, rfl⟩ := NodeKind.exists_token hnamed
    obtain rfl := List.mem_singleton.mp hform
    obtain rfl := Shape.fits_nil_iff.mp hfits
    contradiction

theorem repetition_of_fits (hform : form ∈ NodeKind.arrayLiteral.forms dialect)
    (hfits : form.Fits parts) :
    (∃ part ∈ parts, part.field = some .value) ↔ ∃ part ∈ parts, part.field = some .length := by
  have hforms : ∀ form ∈ NodeKind.arrayLiteral.forms dialect,
      form.restricts (fun _ => true) (fun part => part.field.isNone) ∨
        form.certain (Part.isIn .value) ∧ form.certain (Part.isIn .length) := by
    cases dialect <;> decide
  rcases hforms form hform with hnone | ⟨hvalue, hlength⟩
  · have hbare := hfits.forall_of_restricts hnone
    constructor <;>
    · rintro ⟨part, hpart, hfield⟩
      simpa [hfield] using hbare part hpart
  · obtain ⟨value, hmem, hin⟩ := hfits.exists_of_certain hvalue
    obtain ⟨length, hmem', hin'⟩ := hfits.exists_of_certain hlength
    exact ⟨fun _ => ⟨length, hmem', eq_of_beq hin'⟩, fun _ => ⟨value, hmem, eq_of_beq hin⟩⟩

theorem elements_of_fits (hform : form ∈ NodeKind.arrayLiteral.forms dialect)
    (hfits : form.Fits parts) (hlength : ∃ part ∈ parts, part.field = some .length) :
    ∀ part ∈ parts, part.field = none → part.kind.isNamed = false := by
  have hforms : ∀ form ∈ NodeKind.arrayLiteral.forms dialect,
      form.restricts (fun _ => true) (fun part => part.field.isNone) ∨
        form.restricts (fun part => part.field.isNone) (fun part => !part.kind.isNamed) := by
    cases dialect <;> decide
  rcases hforms form hform with hnone | hwords
  · obtain ⟨part, hpart, hfield⟩ := hlength
    simpa [hfield] using hfits.forall_of_restricts hnone part hpart
  · intro part hpart hfield
    simpa using hfits.restricted hwords part hpart (by simp [hfield])

theorem tuple_of_fits (hform : form ∈ NodeKind.tupleExpression.forms dialect)
    (hfits : form.Fits parts) : word .comma ∈ parts := by
  have hforms : ∀ form ∈ NodeKind.tupleExpression.forms dialect,
      form.certain (· == word .comma) := by
    cases dialect <;> decide
  obtain ⟨part, hpart, hcomma⟩ := hfits.exists_of_certain (hforms form hform)
  exact eq_of_beq hcomma ▸ hpart

theorem group_of_fits (hform : form ∈ NodeKind.groupedExpression.forms dialect)
    (hfits : form.Fits parts) :
    ∃ inner ∈ NodeKind.expressions,
      parts = [word .openParen, ⟨none, inner⟩, word .closeParen] := by
  obtain rfl := List.mem_singleton.mp hform
  obtain ⟨first, hfirst, _, rfl, hrest⟩ := Shape.fits_cons_one_iff.mp hfits
  obtain ⟨inner, hinner, _, rfl, hend⟩ := Shape.fits_cons_one_iff.mp hrest
  obtain ⟨last, hlast, rfl⟩ := Shape.fits_singleton_iff.mp hend
  obtain rfl := List.mem_singleton.mp hfirst
  obtain rfl := List.mem_singleton.mp hlast
  obtain ⟨kind, hkind, rfl⟩ := List.mem_map.mp hinner
  exact ⟨kind, hkind, rfl⟩

theorem struct_of_fits (hform : form ∈ NodeKind.structLiteral.forms dialect)
    (hfits : form.Fits parts) :
    ∃ front back, parts = front ++ word .openCurly :: back ∧
      (front.map (·.kind)).count .genericArguments ≤ 1 ∧
      ∀ part ∈ back, part.kind ≠ .genericArguments := by
  obtain rfl := List.mem_singleton.mp hform
  obtain ⟨front, rest, rfl, hfront, hrest⟩ := Shape.fits_append_iff.mp hfits
  obtain ⟨curly, hcurly, back, rfl, hback⟩ := Shape.fits_cons_one_iff.mp hrest
  obtain rfl := List.mem_singleton.mp hcurly
  refine ⟨front, back, rfl, ?_, ?_⟩
  · rw [List.count_eq_length_filter, List.filter_map, List.length_map]
    exact hfront.length_filter_le (by cases dialect <;> decide)
  · have hbare : Shape.restricts (fun _ => true) (fun part => part.kind != .genericArguments)
        [listed [.fieldInitializer, .fieldShorthand], Form.word .closeCurly] := by
      decide
    intro part hpart
    simpa using hback.forall_of_restricts hbare part hpart

theorem condition_of_fits {alternatives : List NodeKind} (hform : form ∈ conditionals alternatives)
    (hfits : form.Fits parts) {front back : List Part} {inner : NodeKind}
    (hparts : parts = front ++ ⟨some .condition, inner⟩ :: back) :
    front.getLast? = some (word .openParen) ↔ back.head? = some (word .closeParen) := by
  subst hparts
  obtain ⟨condition, hcondition, hform⟩ := List.mem_flatMap.mp hform
  obtain ⟨alternative, halternative, rfl⟩ := List.mem_map.mp hform
  have hbranches : (fill .consequence blockOrExpression :: alternative).all
      fun piece => !piece.parts.any (Part.isIn .condition) := by
    simp only [List.mem_cons, List.not_mem_nil, or_false] at halternative
    rcases halternative with rfl | rfl
    · decide
    · simp [fill, filling, Piece.one, Part.isIn, Form.word, loose]
  simp only [conditions, List.mem_cons, List.not_mem_nil, or_false] at hcondition
  rcases hcondition with rfl | rfl
  · obtain ⟨hfront, hback⟩ :=
      Shape.Fits.around [Form.word .ifKeyword] _ hfits (by decide) hbranches rfl
    obtain ⟨keyword, hkeyword, rfl⟩ := Shape.fits_singleton_iff.mp hfront
    obtain ⟨branch, hbranch, rest, rfl, -⟩ := Shape.fits_cons_one_iff.mp hback
    obtain rfl := List.mem_singleton.mp hkeyword
    have hslot := (mem_filling.mp hbranch).1
    constructor
    · intro h
      simp [Part.word] at h
    · intro h
      simp [Part.word, Option.some.inj h] at hslot
  · have hrest : (Form.word .closeParen :: fill .consequence blockOrExpression :: alternative).all
        fun piece => !piece.parts.any (Part.isIn .condition) := by
      rw [List.all_cons, hbranches]
      decide
    obtain ⟨hfront, hback⟩ := Shape.Fits.around [Form.word .ifKeyword, Form.word .openParen] _ hfits
      (by decide) hrest rfl
    obtain ⟨keyword, -, rest, rfl, hopen⟩ := Shape.fits_cons_one_iff.mp hfront
    obtain ⟨first, hfirst, rfl⟩ := Shape.fits_singleton_iff.mp hopen
    obtain ⟨last, hlast, rest, rfl, -⟩ := Shape.fits_cons_one_iff.mp hback
    obtain rfl := List.mem_singleton.mp hfirst
    obtain rfl := List.mem_singleton.mp hlast
    exact ⟨fun _ => rfl, fun _ => rfl⟩

end Part.LaidOut

theorem Node.Formed.laidOut {dialect : Dialect} {node : Node} (h : node.Formed dialect)
    (herror : node.kind ≠ .error) : Part.LaidOut node.kind (node.children.map Node.part) := by
  obtain ⟨form, hform, hfits⟩ := h.resolve_left herror
  generalize node.children.map Node.part = parts at hfits ⊢
  generalize node.kind = kind at hform ⊢
  exact {
    variant := by rintro rfl; exact Part.LaidOut.variant_of_fits hform hfits
    function := by rintro rfl; exact Part.LaidOut.function_of_fits hform hfits
    directive := fun hkind => Part.LaidOut.directive_of_fits hkind hform hfits
    repetition := by rintro rfl; exact Part.LaidOut.repetition_of_fits hform hfits
    elements := by rintro rfl; exact Part.LaidOut.elements_of_fits hform hfits
    tuple := by rintro rfl; exact Part.LaidOut.tuple_of_fits hform hfits
    group := by rintro rfl; exact Part.LaidOut.group_of_fits hform hfits
    struct := by rintro rfl; exact Part.LaidOut.struct_of_fits hform hfits
    condition := by
      rintro (rfl | rfl) front inner back hparts
      · exact Part.LaidOut.condition_of_fits hform hfits hparts
      · exact Part.LaidOut.condition_of_fits hform hfits hparts }

namespace SyntaxTree

/-- In the tree of every source, in either dialect, all nodes but errors are laid out. -/
theorem laidOut_parse (source : String) (dialect : Dialect)
    (h : byteLength source.toList ≤ maxSourceLength) :
    ∃ tree, parse source dialect = .ok tree ∧ ∀ node ∈ tree.root.preorder, node.kind ≠ .error →
      Part.LaidOut node.kind (node.children.map Node.part) := by
  obtain ⟨stream, items, -, hitems, hparse⟩ := parse_eq_ok dialect h
  refine ⟨_, hparse, fun node hnode herror => ?_⟩
  have hformed : node.Formed dialect :=
    formed_ofItems source hitems node (by simpa [Node.preorderAll] using hnode)
  exact hformed.laidOut herror

/-- A function with modifiers and with two conditions, of which one lacks a parenthesis. -/
theorem laidOut_parse_unclosed :
    byteLength "pub #a fn f() \x7b let b = (c, [1; 2]) if (d) \x7b \x7d if (e \x7d".toList ≤
        maxSourceLength ∧
      ∃ tree, parse "pub #a fn f() \x7b let b = (c, [1; 2]) if (d) \x7b \x7d if (e \x7d" .canonical =
          .ok tree ∧
        ∀ node ∈ tree.root.preorder, node.kind ≠ .error →
          Part.LaidOut node.kind (node.children.map Node.part) :=
  ⟨by decide, laidOut_parse _ .canonical (by decide)⟩

end SyntaxTree

end LosslessSyntax
