import LosslessSyntax.Proofs.Conditions.Heads
import LosslessSyntax.Proofs.Conformance
import LosslessSyntax.Proofs.Totality
/-!
Shelter: a struct literal in the head of an `if` or a `for` stands between brackets of that head, or
in a branch without braces of an `if` inside it. So the brace of the body is not taken for that of
a literal.
-/
namespace LosslessSyntax

open Node (Throughout)
open NodeKind (expressions types)

/-- The brackets that parts of a node can stand between. -/
def delimiters : List (TokenKind × TokenKind) :=
  [(.openParen, .closeParen), (.openBracket, .closeBracket), (.openCurly, .closeCurly)]

namespace Shape

variable {shape front back : Shape} {kind : TokenKind} {ok : Part → Bool}

def splitAt? (kind : TokenKind) : Shape → Option (Shape × Shape)
  | [] => none
  | piece :: shape =>
    if piece = Form.word kind then some ([], shape)
    else (splitAt? kind shape).map fun (front, back) => (piece :: front, back)

theorem eq_append_of_splitAt? (h : shape.splitAt? kind = some (front, back)) :
    shape = front ++ Form.word kind :: back := by
  induction shape generalizing front with
  | nil => contradiction
  | cons piece shape ih =>
    rw [splitAt?] at h
    split_ifs at h with hpiece
    · obtain ⟨rfl, rfl⟩ := Prod.mk.inj (Option.some.inj h)
      rw [hpiece, List.nil_append]
    · obtain ⟨⟨front, back⟩, hsplit, hpair⟩ := Option.map_eq_some_iff.mp h
      obtain ⟨rfl, rfl⟩ := Prod.mk.inj hpair
      rw [ih hsplit, List.cons_append]

def allows (ok : Part → Bool) (shape : Shape) : Bool := shape.restricts (fun _ => true) ok

theorem Fits.allowed {parts : List Part} (hfits : Fits shape parts) (h : shape.allows ok) :
    ∀ part ∈ parts, ok part :=
  fun part hpart => hfits.restricted h part hpart rfl

/-- Whether all that fits a shape meets a condition, but for what stands between two brackets. -/
def secludes (ok : Part → Bool) (shape : Shape) : Bool :=
  shape.allows ok ||
    delimiters.any fun (opening, closing) =>
      (shape.splitAt? opening).any fun (front, rest) =>
        (rest.splitAt? closing).any fun (middle, back) =>
          front.allows ok && back.allows ok &&
            middle.allows fun part => part.kind != .token opening && part.kind != .token closing

end Shape

/-- The nodes of these kinds have no expression in them that no brackets are around. -/
def NodeKind.isSealed (kind : NodeKind) : Bool :=
  !kind.isNamed || types.contains kind ||
    [.visibilityModifier, .directive, .parameterList, .genericArguments, .block, .breakStatement,
      .continueStatement, .wildcardPattern, .identifier, .typeIdentifier, .numberLiteral,
      .stringLiteral, .charLiteral, .booleanLiteral, .nullLiteral, .error].contains kind

def NodeKind.leavesOpen (kind : NodeKind) (part : Part) : Bool :=
  part.kind.isSealed || (kind.openSlots.any part.isIn && expressions.contains part.kind)

/-- The slot of the head, which is in front of the body. -/
def NodeKind.headSlot? : NodeKind → Option Field
  | .ifStatement | .ifExpression => some .condition
  | .forStatement => some .iterable
  | _ => none

def Part.isBranch (alternatives : List NodeKind) (part : Part) : Bool :=
  part.field.isNone && part.kind == .token .elseKeyword ||
    (part.isIn .consequence || part.isIn .alternative) &&
      (Form.blockOrExpression.contains part.kind || alternatives.contains part.kind)

namespace Node

/-- The node stands among the children of the parent between two brackets, which match. -/
def Encloses (parent node : Node) : Prop :=
  ∃ brackets ∈ delimiters, ∃ front opening middle closing back,
    parent.children = front ++ opening :: (middle ++ closing :: back) ∧
      opening.kind = .token brackets.1 ∧ closing.kind = .token brackets.2 ∧
      (∀ child ∈ middle, child.kind ≠ .token brackets.1 ∧ child.kind ≠ .token brackets.2) ∧
      node ∈ preorderAll middle

/-- The node stands in a branch of an `if` expression that has no braces. -/
def Branches (parent node : Node) : Prop :=
  parent.kind = .ifExpression ∧ ∃ branch ∈ parent.children,
    (branch.field = some .consequence ∨ branch.field = some .alternative) ∧
      branch.kind ∈ expressions ∧ node ∈ branch.preorder

/-- Somewhere in the head the node stands between brackets or in a branch. -/
def Shelters (head node : Node) : Prop :=
  ∃ parent ∈ head.preorder, parent.Encloses node ∨ parent.Branches node

structure Sound (dialect : Dialect) (node : Node) : Prop where
  formed : node.Formed dialect
  keepsBrace : node.KeepsBrace
  error : node.kind = .error → ∀ child ∈ node.children, ∃ token, child = .ofToken token

/-- No struct literal stands open in the node. -/
def Guarded (node : Node) : Prop :=
  node.kind.isSealed ∨ node.kind ∈ expressions ∧ node.Bare

variable {dialect : Dialect} {node child head literal : Node}

theorem mem_preorder_self : node ∈ node.preorder := by
  rw [preorder_eq]
  exact List.mem_cons_self

theorem mem_preorderAll {nodes : List Node} :
    node ∈ preorderAll nodes ↔ ∃ child ∈ nodes, node ∈ child.preorder := by
  induction nodes with
  | nil => simp [preorderAll]
  | cons first nodes ih => simp [preorderAll, ih]

theorem sizeOf_lt_of_mem_children (h : child ∈ node.children) : sizeOf child < sizeOf node := by
  have hlt := List.sizeOf_lt_of_mem h
  cases node with
  | mk field kind span children diagnostic =>
    simp only [mk.sizeOf_spec] at hlt ⊢
    omega

theorem Throughout.of_mem_preorder {P : Node → Prop} {top : Node}
    (h : Throughout P [top]) (hmem : node ∈ top.preorder) : Throughout P [node] := by
  rw [preorder_eq, List.mem_cons] at hmem
  rcases hmem with rfl | hbelow
  · exact h
  · obtain ⟨child, hchild, hmem⟩ := mem_preorderAll.mp hbelow
    have hlt := sizeOf_lt_of_mem_children hchild
    obtain ⟨hnode, hchildren⟩ := (h.of_mem List.mem_cons_self).2.of_mem hchild
    have hthroughout : Throughout P [child] := by simp [hnode, hchildren]
    exact hthroughout.of_mem_preorder hmem
termination_by sizeOf top

theorem Guarded.kind_ne (h : node.Guarded) : node.kind ≠ .structLiteral := by
  rcases h with h | h
  · rintro hkind
    rw [hkind] at h
    contradiction
  · exact h.2.kind_ne

theorem Shelters.of_child (h : child.Shelters literal) (hchild : child ∈ node.children) :
    node.Shelters literal := by
  obtain ⟨parent, hparent, hplace⟩ := h
  refine ⟨parent, ?_, hplace⟩
  rw [preorder_eq]
  exact List.mem_cons_of_mem _ (mem_preorderAll.mpr ⟨child, hchild, hparent⟩)

theorem exists_of_fits_one {allowed : List Part} {shape : Shape} {nodes : List Node}
    (hfits : Shape.Fits (.one allowed :: shape) (nodes.map part)) :
    ∃ first rest, nodes = first :: rest ∧ first.part ∈ allowed ∧ shape.Fits (rest.map part) := by
  obtain ⟨_, hfirst, _, hparts, hrest⟩ := Shape.fits_cons_one_iff.mp hfits
  obtain ⟨first, rest, rfl, rfl, rfl⟩ := List.map_eq_cons_iff.mp hparts
  exact ⟨first, rest, rfl, hfirst, hrest⟩

theorem eq_nil_of_fits {nodes : List Node} (hfits : Shape.Fits [] (nodes.map part)) : nodes = [] :=
  List.map_eq_nil_iff.mp (Shape.fits_nil_iff.mp hfits)

theorem part_of_mem_word {kind : TokenKind} (h : node.part ∈ loose [.token kind]) :
    node.part = ⟨none, .token kind⟩ := by
  simpa [loose] using h

theorem exists_of_fits_word {kind : TokenKind} {shape front back : Shape} {nodes : List Node}
    (hsplit : shape.splitAt? kind = some (front, back)) (hfits : shape.Fits (nodes.map part)) :
    ∃ before token after, nodes = before ++ token :: after ∧ token.part = ⟨none, .token kind⟩ ∧
      front.Fits (before.map part) ∧ back.Fits (after.map part) := by
  rw [Shape.eq_append_of_splitAt? hsplit, Shape.fits_append_iff] at hfits
  obtain ⟨_, _, hparts, hfront, hbehind⟩ := hfits
  obtain ⟨before, behind, rfl, rfl, rfl⟩ := List.map_eq_append_iff.mp hparts
  obtain ⟨token, after, rfl, htoken, hback⟩ := exists_of_fits_one hbehind
  exact ⟨before, token, after, rfl, part_of_mem_word htoken, hfront, hback⟩

theorem allowed_or_encloses {shape : Shape} {ok : Part → Bool}
    (hok : ∀ kind, ok ⟨none, .token kind⟩) (hfits : shape.Fits (node.children.map part))
    (h : shape.secludes ok) (hchild : child ∈ node.children) :
    ok child.part ∨ ∀ below ∈ child.preorder, node.Encloses below := by
  simp only [Shape.secludes, Bool.or_eq_true, List.any_eq_true, Option.any_eq_true,
    Bool.and_eq_true] at h
  rcases h with h | ⟨⟨left, right⟩, hbrackets, ⟨front, rest⟩, hleft, ⟨middle, back⟩, hright,
    ⟨hfront, hback⟩, hmiddle⟩
  · exact .inl (hfits.allowed h _ (List.mem_map_of_mem hchild))
  obtain ⟨before, opening, behind, hchildren, hopening, hbefore, hbehind⟩ :=
    exists_of_fits_word hleft hfits
  obtain ⟨inside, closing, after, rfl, hclosing, hinside, hafter⟩ :=
    exists_of_fits_word hright hbehind
  rw [hchildren] at hchild
  simp only [List.mem_append, List.mem_cons] at hchild
  rcases hchild with hchild | rfl | hchild | rfl | hchild
  · exact .inl (hbefore.allowed hfront _ (List.mem_map_of_mem hchild))
  · exact .inl (hopening ▸ hok left)
  · refine .inr fun below hbelow => ⟨(left, right), hbrackets, before, opening, inside, closing,
      after, hchildren, congrArg Part.kind hopening, congrArg Part.kind hclosing, ?_,
      mem_preorderAll.mpr ⟨child, hchild, hbelow⟩⟩
    intro other hother
    simpa [part] using hinside.allowed hmiddle _ (List.mem_map_of_mem hother)
  · exact .inl (hclosing ▸ hok right)
  · exact .inl (hafter.allowed hback _ (List.mem_map_of_mem hchild))

end Node

/-- In all nodes but struct literals and `if` expressions, what is outside of brackets is sealed or
an operand. -/
theorem NodeKind.secludes_forms (dialect : Dialect) :
    ∀ kind ∈ named, kind.isSealed ∨ kind ∈ expressions → kind ≠ .structLiteral →
      kind ≠ .ifExpression → ∀ form ∈ kind.forms dialect, form.secludes kind.leavesOpen ∧
        ∀ slot ∈ kind.openSlots, form.single (Part.isIn slot) := by
  cases dialect <;> decide +kernel

theorem NodeKind.isSealed_ofToken : ∀ kind, (ofToken kind).isSealed := by
  decide

theorem NodeKind.openSlots_of_isSealed : ∀ kind ∈ named, kind.isSealed → kind.openSlots = [] := by
  decide

namespace Node

variable {dialect : Dialect} {node child head literal : Node} {slot : Field}

theorem childByField?_eq_some {shape : Shape} (hfits : shape.Fits (node.children.map part))
    (hsingle : shape.single (Part.isIn slot)) (hchild : child ∈ node.children)
    (hslot : child.part.isIn slot) : node.childByField? slot = some child := by
  have hlength := hfits.length_filter_le hsingle
  rw [List.filter_map, List.length_map] at hlength
  have hmem : child ∈ node.children.filter (Part.isIn slot ∘ part) :=
    List.mem_filter.mpr ⟨hchild, hslot⟩
  have hfilter : node.children.filter (Part.isIn slot ∘ part) = [child] := by
    obtain ⟨only, honly⟩ := List.length_eq_one_iff.mp
      (Nat.le_antisymm hlength (List.length_pos_of_mem hmem))
    rw [honly, List.mem_singleton] at hmem
    rw [honly, hmem]
  have hhead := List.head?_filter (p := Part.isIn slot ∘ part) (l := node.children)
  rw [hfilter] at hhead
  exact hhead.symm

theorem children_conditional {alternatives : List NodeKind} {form : Shape}
    (hform : form ∈ Form.conditionals alternatives) (hfits : form.Fits (node.children.map part)) :
    ∃ keyword condition branches, node.children = keyword :: (condition ++ branches) ∧
      keyword.part = ⟨none, .token .ifKeyword⟩ ∧
      (∀ branch ∈ branches, branch.part.isBranch alternatives) ∧
      ∃ head, head.field = some .condition ∧ head.kind ∈ expressions ∧
        (condition = [head] ∨ ∃ opening closing, condition = [opening, head, closing] ∧
          opening.part = ⟨none, .token .openParen⟩ ∧
          closing.part = ⟨none, .token .closeParen⟩) := by
  simp only [Form.conditionals, List.mem_flatMap, List.mem_map] at hform
  obtain ⟨shape, hshape, alternative, halternative, rfl⟩ := hform
  obtain ⟨keyword, _, hchildren, hkeyword, hrest⟩ := exists_of_fits_one hfits
  obtain ⟨_, _, hparts, hcondition, hbranches⟩ := Shape.fits_append_iff.mp hrest
  obtain ⟨condition, branches, rfl, rfl, rfl⟩ := List.map_eq_append_iff.mp hparts
  refine ⟨keyword, condition, branches, hchildren, part_of_mem_word hkeyword, ?_, ?_⟩
  · have hallows : Shape.allows (Part.isBranch alternatives)
        (Form.fill .consequence Form.blockOrExpression :: alternative) := by
      simp only [List.mem_cons, List.not_mem_nil, or_false] at halternative
      rcases halternative with rfl | rfl <;>
        simp +contextual [Shape.allows, Shape.restricts, Form.fill, Form.word, Piece.one,
          Part.isBranch, Part.isIn]
    exact fun branch hbranch => hbranches.allowed hallows _ (List.mem_map_of_mem hbranch)
  · simp only [Form.conditions, List.mem_cons, List.not_mem_nil, or_false] at hshape
    rcases hshape with rfl | rfl
    · obtain ⟨head, _, rfl, hhead, hrest⟩ := exists_of_fits_one hcondition
      obtain rfl := eq_nil_of_fits hrest
      rw [mem_filling] at hhead
      exact ⟨head, hhead.1, hhead.2, .inl rfl⟩
    · obtain ⟨opening, _, rfl, hopening, hrest⟩ := exists_of_fits_one hcondition
      obtain ⟨head, _, rfl, hhead, hrest⟩ := exists_of_fits_one hrest
      obtain ⟨closing, _, rfl, hclosing, hrest⟩ := exists_of_fits_one hrest
      obtain rfl := eq_nil_of_fits hrest
      rw [mem_filling] at hhead
      exact ⟨head, hhead.1, hhead.2, .inr ⟨opening, closing, rfl, part_of_mem_word hopening,
        part_of_mem_word hclosing⟩⟩

theorem guarded_of_token {kind : TokenKind} (h : node.kind = .token kind) : node.Guarded :=
  .inl (by rw [h]; rfl)

theorem KeepsBrace.bare_condition {alternatives : List NodeKind} {keyword : Node}
    {branches : List Node} (h : node.KeepsBrace)
    (hkind : node.kind = .ifStatement ∨ node.kind = .ifExpression)
    (hchildren : node.children = keyword :: ([head] ++ branches))
    (hbranches : ∀ branch ∈ branches, branch.part.isBranch alternatives) : head.Bare := by
  have hconditional := h.conditional hkind
  rw [hchildren] at hconditional
  rcases hconditional with ⟨_, hhead, hbare⟩ | ⟨inner, hinner, hfield, -⟩
  · obtain rfl := Option.some.inj hhead
    exact hbare
  · have hbranch := hbranches inner (List.mem_of_getElem? (i := 0) (by simpa using hinner))
    simp [Part.isBranch, Part.isIn, part, hfield] at hbranch

theorem guarded_of_ifExpression (hsound : node.Sound dialect) (hkind : node.kind = .ifExpression)
    (hchild : child ∈ node.children) :
    child.Guarded ∨ ∀ below ∈ child.preorder, node.Encloses below ∨ node.Branches below := by
  rcases hsound.formed with herror | ⟨form, hform, hfits⟩
  · rw [hkind] at herror
    contradiction
  rw [hkind] at hform
  obtain ⟨keyword, condition, branches, hchildren, hkeyword, hbranches, head, hfield, hhead,
    hcondition⟩ := children_conditional hform hfits
  have hbranch (hbranch : child ∈ branches) :
      child.Guarded ∨ ∀ below ∈ child.preorder, node.Encloses below ∨ node.Branches below := by
    have hpart := hbranches child hbranch
    simp only [Part.isBranch, Part.isIn, part, Form.blockOrExpression, Bool.or_eq_true,
      Bool.and_eq_true, beq_iff_eq, List.contains_iff_mem, List.mem_cons, or_self] at hpart
    rcases hpart with ⟨-, helse⟩ | ⟨hslot, hblock | hexpression⟩
    · exact .inl (guarded_of_token helse)
    · exact .inl (.inl (by rw [hblock]; rfl))
    · exact .inr fun below hbelow => .inr ⟨hkind, child, hchild, hslot, hexpression, hbelow⟩
  rw [hchildren] at hchild
  simp only [List.mem_cons, List.mem_append] at hchild
  rcases hcondition with rfl | ⟨opening, closing, rfl, hopening, hclosing⟩
  · simp only [List.mem_singleton] at hchild
    rcases hchild with rfl | rfl | hchild
    · exact .inl (guarded_of_token (congrArg Part.kind hkeyword))
    · exact .inl (.inr ⟨hhead, hsound.keepsBrace.bare_condition (.inr hkind) hchildren hbranches⟩)
    · exact hbranch hchild
  · simp only [List.mem_cons, List.not_mem_nil, or_false] at hchild
    rcases hchild with rfl | (rfl | rfl | rfl) | hchild
    · exact .inl (guarded_of_token (congrArg Part.kind hkeyword))
    · exact .inl (guarded_of_token (congrArg Part.kind hopening))
    · refine .inr fun below hbelow => .inl ⟨(.openParen, .closeParen), by decide, [keyword],
        opening, [child], closing, branches, hchildren, congrArg Part.kind hopening,
        congrArg Part.kind hclosing, ?_, mem_preorderAll.mpr ⟨child, by simp, hbelow⟩⟩
      have hexpressions : ∀ kind ∈ expressions, kind ≠ .token .openParen ∧
          kind ≠ .token .closeParen := by decide
      simpa using hexpressions _ hhead
    · exact .inl (guarded_of_token (congrArg Part.kind hclosing))
    · exact hbranch hchild

theorem Guarded.of_mem_children (h : node.Guarded) (hsound : node.Sound dialect)
    (hchild : child ∈ node.children) :
    child.Guarded ∨ ∀ below ∈ child.preorder, node.Encloses below ∨ node.Branches below := by
  by_cases hconditional : node.kind = .ifExpression
  · exact guarded_of_ifExpression hsound hconditional hchild
  rcases hsound.formed with herror | ⟨form, hform, hfits⟩
  · obtain ⟨token, rfl⟩ := hsound.error herror child hchild
    exact .inl (.inl (NodeKind.isSealed_ofToken token.kind))
  have hnamed : node.kind ∈ NodeKind.named := by
    rw [NodeKind.mem_named_iff]
    by_contra hunnamed
    obtain ⟨kind, hkind⟩ := NodeKind.exists_token hunnamed
    rw [hkind] at hform
    obtain rfl : form = [] := List.mem_singleton.mp hform
    rw [eq_nil_of_fits hfits] at hchild
    contradiction
  obtain ⟨hsecludes, hsingle⟩ := NodeKind.secludes_forms dialect node.kind hnamed
    (h.imp id And.left) h.kind_ne hconditional form hform
  refine (allowed_or_encloses ?_ hfits hsecludes hchild).imp (fun hopen => ?_)
    fun hbelow below hmem => .inl (hbelow below hmem)
  · exact fun kind => rfl
  simp only [NodeKind.leavesOpen, Bool.or_eq_true, Bool.and_eq_true, List.any_eq_true,
    List.contains_iff_mem] at hopen
  rcases hopen with hsealed | ⟨⟨slot, hslot, hin⟩, hexpression⟩
  · exact .inl hsealed
  · refine .inr ⟨hexpression, ?_⟩
    rcases h with hsealed | ⟨-, hbare⟩
    · rw [NodeKind.openSlots_of_isSealed _ hnamed hsealed] at hslot
      contradiction
    · exact hbare.operand hslot (childByField?_eq_some hfits (hsingle slot hslot) hchild hin)

theorem Guarded.shelters {node : Node} (h : node.Guarded)
    (hsound : Throughout (Sound dialect) [node]) (hliteral : literal ∈ node.preorder)
    (hkind : literal.kind = .structLiteral) : node.Shelters literal := by
  rw [preorder_eq, List.mem_cons] at hliteral
  rcases hliteral with rfl | hbelow
  · exact absurd hkind h.kind_ne
  obtain ⟨child, hchild, hliteral⟩ := mem_preorderAll.mp hbelow
  rcases h.of_mem_children (hsound.of_mem List.mem_cons_self).1 hchild with hguarded | hplace
  · have hlt := sizeOf_lt_of_mem_children hchild
    have hsound : Throughout (Sound dialect) [child] := by
      refine hsound.of_mem_preorder ?_
      rw [preorder_eq]
      exact List.mem_cons_of_mem _ (mem_preorderAll.mpr ⟨child, hchild, mem_preorder_self⟩)
    exact (hguarded.shelters hsound hliteral hkind).of_child hchild
  · exact ⟨node, mem_preorder_self, hplace literal hliteral⟩
termination_by sizeOf node

theorem guarded_condition (hsound : node.Sound dialect)
    (hkind : node.kind = .ifStatement ∨ node.kind = .ifExpression)
    (hopen : ∀ child ∈ node.children, child.kind ≠ .token .openParen)
    (hhead : head ∈ node.children) (hfield : head.field = some .condition) : head.Guarded := by
  have hform : ∃ alternatives, ∃ form ∈ Form.conditionals alternatives,
      form.Fits (node.children.map part) := by
    rcases hsound.formed with herror | ⟨form, hform, hfits⟩
    · rcases hkind with hkind | hkind <;> rw [hkind] at herror <;> contradiction
    · rcases hkind with hkind | hkind <;> rw [hkind] at hform
      · exact ⟨_, form, hform, hfits⟩
      · exact ⟨_, form, hform, hfits⟩
  obtain ⟨alternatives, form, hform, hfits⟩ := hform
  obtain ⟨keyword, condition, branches, hchildren, hkeyword, hbranches, inner, -, hinner,
    rfl | ⟨opening, closing, rfl, hopening, -⟩⟩ := children_conditional hform hfits
  · have hbare := hsound.keepsBrace.bare_condition hkind hchildren hbranches
    rw [hchildren] at hhead
    simp only [List.mem_cons, List.mem_append, List.not_mem_nil, or_false] at hhead
    rcases hhead with rfl | rfl | hbranch
    · rw [show head.field = none from congrArg Part.field hkeyword] at hfield
      contradiction
    · exact .inr ⟨hinner, hbare⟩
    · have hpart := hbranches head hbranch
      simp [Part.isBranch, Part.isIn, part, hfield] at hpart
  · refine absurd (congrArg Part.kind hopening) (hopen opening ?_)
    simp [hchildren]

theorem guarded_iterable (hsound : node.Sound dialect) (hkind : node.kind = .forStatement)
    (hopen : ∀ child ∈ node.children, child.kind ≠ .token .openParen)
    (hhead : head ∈ node.children) (hfield : head.field = some .iterable) : head.Guarded := by
  have hloop := hsound.keepsBrace.loop hkind
  rcases hsound.formed with herror | ⟨form, hform, hfits⟩
  · rw [hkind] at herror
    contradiction
  rw [hkind] at hform
  simp only [NodeKind.forms, List.mem_cons, List.not_mem_nil, or_false] at hform
  rcases hform with rfl | rfl
  · obtain ⟨keyword, _, hchildren, hkeyword, hrest⟩ := exists_of_fits_one hfits
    obtain ⟨pattern, _, rfl, hpattern, hrest⟩ := exists_of_fits_one hrest
    obtain ⟨word, _, rfl, hword, hrest⟩ := exists_of_fits_one hrest
    obtain ⟨iterable, _, rfl, hiterable, hrest⟩ := exists_of_fits_one hrest
    obtain ⟨body, _, rfl, hbody, hrest⟩ := exists_of_fits_one hrest
    obtain rfl := eq_nil_of_fits hrest
    simp only [mem_loose, mem_filling, part] at hkeyword hpattern hword hiterable hbody
    rw [hchildren] at hhead
    simp only [List.mem_cons, List.not_mem_nil, or_false] at hhead
    obtain rfl : head = iterable := by
      rcases hhead with rfl | rfl | rfl | rfl | rfl <;> simp_all
    rcases hloop with ⟨_, hindex, hbare⟩ | ⟨child, hchild, hparen⟩
    · rw [hchildren] at hindex
      obtain rfl := Option.some.inj hindex
      exact .inr ⟨hiterable.2, hbare⟩
    · exact absurd hparen (hopen child hchild)
  · obtain ⟨keyword, _, hchildren, -, hrest⟩ := exists_of_fits_one hfits
    obtain ⟨opening, _, rfl, hopening, -⟩ := exists_of_fits_one hrest
    refine absurd (congrArg Part.kind (part_of_mem_word hopening)) (hopen opening ?_)
    simp [hchildren]

theorem guarded_head (hsound : node.Sound dialect) (hslot : node.kind.headSlot? = some slot)
    (hopen : ∀ child ∈ node.children, child.kind ≠ .token .openParen)
    (hhead : head ∈ node.children) (hfield : head.field = some slot) : head.Guarded := by
  have hkind : slot = .condition ∧ (node.kind = .ifStatement ∨ node.kind = .ifExpression) ∨
      slot = .iterable ∧ node.kind = .forStatement := by
    unfold NodeKind.headSlot? at hslot
    split at hslot <;> simp_all
  rcases hkind with ⟨rfl, hkind⟩ | ⟨rfl, hkind⟩
  · exact guarded_condition hsound hkind hopen hhead hfield
  · exact guarded_iterable hsound hkind hopen hhead hfield

end Node

theorem Setting.Items.sound {stream : TokenStream} {dialect : Dialect} {start : Nat}
    {items : List (Node × ItemExtent)} (h : (top stream dialect).Items start items)
    (hbound : start ≤ stream.body.size) :
    Throughout (Node.Sound dialect) (items.map (·.1)) := by
  obtain ⟨stop, -, -, hfragment, -⟩ := h.fragment hbound
  intro node hnode
  refine ⟨hfragment.formed node hnode, h.keepsBrace node hnode, fun herror child hchild => ?_⟩
  rcases (hfragment.readSoundly node hnode).2 herror with ⟨token, htoken⟩ |
    ⟨start, stop, diagnostic, -, -, -, herror⟩
  · have hchildren : node.children = [] := congrArg Node.children htoken
    rw [hchildren] at hchild
    contradiction
  · have hchildren : node.children =
        (stream.errorNode start stop diagnostic).children := by rw [← herror]
    rw [hchildren] at hchild
    obtain ⟨token, -, htoken⟩ := List.mem_map.mp hchild
    exact ⟨token, htoken.symm⟩

namespace SyntaxTree

/-- A struct literal in the head of an `if` or a `for` that has no parentheses around its head is
in brackets of that head, or in a branch without braces of an `if` expression in it. -/
theorem sheltersLiterals_parse (source : String) (dialect : Dialect)
    (h : Text.byteLength source.toList ≤ maxSourceLength) :
    ∃ tree, parse source dialect = .ok tree ∧ ∀ node ∈ tree.root.preorder,
      ∀ slot, node.kind.headSlot? = some slot →
      (∀ child ∈ node.children, child.kind ≠ .token .openParen) →
      ∀ head ∈ node.children, head.field = some slot →
      ∀ literal ∈ head.preorder, literal.kind = .structLiteral → head.Shelters literal := by
  obtain ⟨stream, items, -, hitems, hparse⟩ := parse_eq_ok dialect h
  refine ⟨_, hparse, forall_mem_preorder_ofItems.mpr ⟨by simp [NodeKind.headSlot?], ?_⟩⟩
  intro node hnode slot hslot hopen head hhead hfield literal hliteral hkind
  obtain ⟨item, hitem, hnode⟩ := Node.mem_preorderAll.mp hnode
  have hsound : Throughout (Node.Sound dialect) [node] := by
    obtain ⟨hself, hbelow⟩ := (hitems.sound (Nat.zero_le _)).of_mem hitem
    exact Node.Throughout.of_mem_preorder (by simp [hself, hbelow]) hnode
  obtain ⟨hself, hbelow⟩ := hsound.of_mem List.mem_cons_self
  have hguarded := Node.guarded_head hself hslot hopen hhead hfield
  refine hguarded.shelters (hsound.of_mem_preorder ?_) hliteral hkind
  rw [Node.preorder_eq]
  exact List.mem_cons_of_mem _ (Node.mem_preorderAll.mpr ⟨head, hhead, Node.mem_preorder_self⟩)

/-- A struct literal in the brackets of an index, in front of a body. -/
theorem sheltersLiterals_parse_index :
    Text.byteLength "fn f() \x7b if a[B \x7b \x7d] \x7b \x7d \x7d".toList ≤ maxSourceLength ∧
      ∃ tree, parse "fn f() \x7b if a[B \x7b \x7d] \x7b \x7d \x7d" .canonical = .ok tree ∧
        ∀ node ∈ tree.root.preorder, ∀ slot, node.kind.headSlot? = some slot →
          (∀ child ∈ node.children, child.kind ≠ .token .openParen) →
          ∀ head ∈ node.children, head.field = some slot →
          ∀ literal ∈ head.preorder, literal.kind = .structLiteral → head.Shelters literal :=
  ⟨by decide,
    sheltersLiterals_parse "fn f() \x7b if a[B \x7b \x7d] \x7b \x7d \x7d" .canonical (by decide)⟩

/-- The branch of an `if` in a condition takes the brace of the body for that of a literal, and no
brackets are around. -/
theorem sheltersLiterals_parse_branch :
    ∃ tree, parse "fn f() \x7b if if a B \x7b \x7d c \x7d" .canonical = .ok tree ∧
      ∃ node ∈ tree.root.preorder, node.kind = .ifStatement ∧
        (∀ child ∈ node.children, child.kind ≠ .token .openParen) ∧
        ∃ head ∈ node.children, head.field = some .condition ∧
          ∃ literal ∈ head.preorder, literal.kind = .structLiteral ∧
            ∀ parent ∈ head.preorder, literal ∈ Node.preorderAll parent.children →
              ∀ child ∈ parent.children, ∀ brackets ∈ delimiters,
                child.kind ≠ .token brackets.1 := by
  have hany : ((parse "fn f() \x7b if if a B \x7b \x7d c \x7d" .canonical).toOption.any fun tree =>
      decide (∃ node ∈ tree.root.preorder, node.kind = .ifStatement ∧
        (∀ child ∈ node.children, child.kind ≠ .token .openParen) ∧
        ∃ head ∈ node.children, head.field = some .condition ∧
          ∃ literal ∈ head.preorder, literal.kind = .structLiteral ∧
            ∀ parent ∈ head.preorder, literal ∈ Node.preorderAll parent.children →
              ∀ child ∈ parent.children, ∀ brackets ∈ delimiters,
                child.kind ≠ .token brackets.1)) = true := by
    decide +kernel
  rcases hparse : parse "fn f() \x7b if if a B \x7b \x7d c \x7d" .canonical with
    diagnostic | tree <;> rw [hparse] at hany
  · contradiction
  · exact ⟨tree, rfl, of_decide_eq_true hany⟩

end SyntaxTree

end LosslessSyntax
