import LosslessSyntax.Node
import Mathlib.Data.List.Nodup
import Mathlib.Data.List.TakeWhile
/-!
Skeletons: what is left of a tree without its tokens, spans and diagnostics. An S-expression is a
skeleton written down, and no two are written down alike, since names have neither blanks nor
parentheses nor colons in them. So equal S-expressions mean equal skeletons.
-/
namespace LosslessSyntax

/-- The named structure of a tree: the name of its root, and the skeletons of the named children,
each with the slot that it fills. -/
inductive Skeleton where
  | node (name : String) (children : List (Option Field × Skeleton))

namespace Node

mutual

def skeleton : Node → Skeleton
  | ⟨_, kind, _, children, _⟩ => .node kind.name (skeletonAll children)

def skeletonAll : List Node → List (Option Field × Skeleton)
  | [] => []
  | node :: rest =>
    if node.kind.isNamed then (node.field, skeleton node) :: skeletonAll rest else skeletonAll rest

end

end Node

def isNameChar (c : Char) : Bool := c.isAlpha || c == '_'

theorem NodeKind.isNameChar_name {kind : NodeKind} (h : kind.isNamed) :
    ∀ c ∈ kind.name.toList, isNameChar c := by
  have hall : ∀ kind ∈ named, kind.name.toList.all isNameChar := by decide +kernel
  exact List.all_eq_true.mp (hall kind ((mem_named_iff kind).mpr h))

theorem NodeKind.nodup_names : (named.map name).Nodup := by decide +kernel

theorem NodeKind.name_eq_name_iff {kind kind' : NodeKind} (h : kind.isNamed) (h' : kind'.isNamed) :
    kind.name = kind'.name ↔ kind = kind' := by
  refine ⟨fun hname => ?_, congrArg name⟩
  exact List.inj_on_of_nodup_map nodup_names ((mem_named_iff kind).mpr h)
    ((mem_named_iff kind').mpr h') hname

theorem Field.isNameChar_text (field : Field) : ∀ c ∈ field.text.toList, isNameChar c := by
  have hall : ∀ field ∈ all, field.text.toList.all isNameChar := by decide
  exact List.all_eq_true.mp (hall field (mem_all field))

theorem Field.nodup_texts : (all.map text).Nodup := by decide

theorem Field.text_injective : Function.Injective text := fun field field' htext =>
  List.inj_on_of_nodup_map nodup_texts (mem_all field) (mem_all field') htext

theorem takeWhile_eq_nil {p : Char → Bool} {text : List Char} (h : ∀ c ∈ text.head?, p c = false) :
    text.takeWhile p = [] := by
  cases text with
  | nil => rfl
  | cons c text => exact List.takeWhile_cons_of_neg (by simp [h c rfl])

theorem append_inj_of_name {name name' rest rest' : List Char} (hname : ∀ c ∈ name, isNameChar c)
    (hname' : ∀ c ∈ name', isNameChar c) (hrest : ∀ c ∈ rest.head?, isNameChar c = false)
    (hrest' : ∀ c ∈ rest'.head?, isNameChar c = false) (h : name ++ rest = name' ++ rest') :
    name = name' ∧ rest = rest' := by
  have htake := congrArg (List.takeWhile isNameChar) h
  rw [List.takeWhile_append_of_pos hname, List.takeWhile_append_of_pos hname',
    takeWhile_eq_nil hrest, takeWhile_eq_nil hrest', List.append_nil, List.append_nil] at htake
  subst htake
  exact ⟨rfl, List.append_cancel_left h⟩

namespace Node

theorem fieldLabel_append_inj {field field' : Option Field} {rest rest' : List Char}
    (h : (fieldLabel field).toList ++ '(' :: rest = (fieldLabel field').toList ++ '(' :: rest') :
    field = field' ∧ rest = rest' := by
  have hnone (rest : List Char) : (fieldLabel none).toList ++ '(' :: rest = [] ++ '(' :: rest := rfl
  have hsome (field : Field) (rest : List Char) : (fieldLabel (some field)).toList ++ '(' :: rest =
      field.text.toList ++ ':' :: ' ' :: '(' :: rest := by
    simp [fieldLabel]
  have hnil : ∀ c ∈ ([] : List Char), isNameChar c := by simp
  have hcolon (rest : List Char) : ∀ c ∈ (':' :: rest).head?, isNameChar c = false := by
    rintro _ ⟨⟩
    rfl
  have hparenthesis (rest : List Char) : ∀ c ∈ ('(' :: rest).head?, isNameChar c = false := by
    rintro _ ⟨⟩
    rfl
  cases field with
  | none =>
    cases field' with
    | none => exact ⟨rfl, List.tail_eq_of_cons_eq h⟩
    | some field' =>
      rw [hnone, hsome] at h
      have hmark :=
        (append_inj_of_name hnil field'.isNameChar_text (hparenthesis _) (hcolon _) h).2
      simp at hmark
  | some field =>
    cases field' with
    | none =>
      rw [hnone, hsome] at h
      have hmark :=
        (append_inj_of_name field.isNameChar_text hnil (hcolon _) (hparenthesis _) h).2
      simp at hmark
    | some field' =>
      rw [hsome, hsome] at h
      obtain ⟨htext, hrest⟩ := append_inj_of_name field.isNameChar_text field'.isNameChar_text
        (hcolon _) (hcolon _) h
      rw [Field.text_injective (String.toList_inj.mp htext)]
      exact ⟨rfl, by simpa using hrest⟩

theorem toList_sexp (node : Node) :
    node.sexp.toList =
      '(' :: (node.kind.name.toList ++ ((sexpAll node.children).toList ++ [')'])) := by
  cases node
  simp [sexp]

theorem skeleton_eq (node : Node) :
    node.skeleton = .node node.kind.name (skeletonAll node.children) := by
  cases node
  rfl

theorem sexpAll_of_isNamed {node : Node} (h : node.kind.isNamed) (rest : List Node) :
    sexpAll (node :: rest) = " " ++ fieldLabel node.field ++ node.sexp ++ sexpAll rest := by
  rw [sexpAll, if_pos h]

theorem skeletonAll_of_isNamed {node : Node} (h : node.kind.isNamed) (rest : List Node) :
    skeletonAll (node :: rest) = (node.field, node.skeleton) :: skeletonAll rest := by
  rw [skeletonAll, if_pos h]

theorem skeletonAll_eq_map (nodes : List Node) :
    skeletonAll nodes = (nodes.filter (·.kind.isNamed)).map fun node =>
      (node.field, node.skeleton) := by
  induction nodes with
  | nil => rfl
  | cons node rest ih =>
    by_cases h : node.kind.isNamed
    · simp [skeletonAll, h, ih]
    · simp [skeletonAll, h, ih]

/-- Tokens leave nothing behind. So a list is as good as none, or as one that begins with a named
node. -/
theorem named_cases (nodes : List Node) :
    sexpAll nodes = "" ∧ skeletonAll nodes = [] ∨
      ∃ (node : Node) (rest : List Node), node.kind.isNamed ∧
        sexpAll nodes = sexpAll (node :: rest) ∧
        skeletonAll nodes = skeletonAll (node :: rest) := by
  induction nodes with
  | nil => exact .inl ⟨rfl, rfl⟩
  | cons node rest ih =>
    by_cases h : node.kind.isNamed
    · exact .inr ⟨node, rest, h, rfl, rfl⟩
    · rw [sexpAll, skeletonAll, if_neg h, if_neg h]
      exact ih

theorem toList_sexpAll_of_isNamed {node : Node} (h : node.kind.isNamed) (rest : List Node)
    (behind : List Char) :
    (sexpAll (node :: rest)).toList ++ behind =
      ' ' :: ((fieldLabel node.field).toList ++
        (node.sexp.toList ++ ((sexpAll rest).toList ++ behind))) := by
  rw [sexpAll_of_isNamed h]
  simp

theorem head?_sexpAll (nodes : List Node) (behind : List Char) :
    ∀ c ∈ ((sexpAll nodes).toList ++ ')' :: behind).head?, isNameChar c = false := by
  rcases named_cases nodes with ⟨htext, -⟩ | ⟨node, rest, hnamed, htext, -⟩
  · rw [htext]
    rintro _ ⟨⟩
    rfl
  · rw [htext, toList_sexpAll_of_isNamed hnamed]
    rintro _ ⟨⟩
    rfl

theorem sexp_append_inj {node node' : Node} (hnamed : node.kind.isNamed)
    (hnamed' : node'.kind.isNamed) {behind behind' : List Char}
    (h : node.sexp.toList ++ behind = node'.sexp.toList ++ behind') :
    node.kind.name = node'.kind.name ∧
      (sexpAll node.children).toList ++ ')' :: behind =
        (sexpAll node'.children).toList ++ ')' :: behind' := by
  rw [toList_sexp, toList_sexp] at h
  simp only [List.cons_append, List.append_assoc, List.nil_append, List.cons.injEq, true_and] at h
  obtain ⟨hname, hchildren⟩ := append_inj_of_name (NodeKind.isNameChar_name hnamed)
    (NodeKind.isNameChar_name hnamed') (head?_sexpAll _ _) (head?_sexpAll _ _) h
  exact ⟨String.toList_inj.mp hname, hchildren⟩

theorem fieldLabel_sexp_append_inj {node node' : Node} {behind behind' : List Char}
    (h : (fieldLabel node.field).toList ++ (node.sexp.toList ++ behind) =
      (fieldLabel node'.field).toList ++ (node'.sexp.toList ++ behind')) :
    node.field = node'.field ∧ node.sexp.toList ++ behind = node'.sexp.toList ++ behind' := by
  rw [toList_sexp, toList_sexp, List.cons_append, List.cons_append] at h ⊢
  obtain ⟨hfield, hrest⟩ := fieldLabel_append_inj h
  exact ⟨hfield, congrArg ('(' :: ·) hrest⟩

mutual

theorem skeleton_eq_of_append : (node node' : Node) → node.kind.isNamed → node'.kind.isNamed →
    {behind behind' : List Char} →
    node.sexp.toList ++ behind = node'.sexp.toList ++ behind' →
    node.skeleton = node'.skeleton ∧ behind = behind'
  | ⟨field, kind, span, children, diagnostic⟩, node', hnamed, hnamed', behind, behind', h => by
    obtain ⟨hname, hchildren⟩ := sexp_append_inj hnamed hnamed' h
    obtain ⟨hskeletons, hbehind⟩ := skeletonAll_eq_of_append children node'.children hchildren
    rw [skeleton_eq, skeleton_eq node', hname, hskeletons]
    exact ⟨rfl, hbehind⟩

theorem skeletonAll_eq_of_append : (nodes nodes' : List Node) → {behind behind' : List Char} →
    (sexpAll nodes).toList ++ ')' :: behind = (sexpAll nodes').toList ++ ')' :: behind' →
    skeletonAll nodes = skeletonAll nodes' ∧ behind = behind'
  | [], nodes', behind, behind', h => by
    rcases named_cases nodes' with ⟨htext, hskeleton⟩ | ⟨node', rest', hnamed', htext, -⟩
    · rw [htext] at h
      exact ⟨hskeleton.symm, List.tail_eq_of_cons_eq h⟩
    · rw [htext, toList_sexpAll_of_isNamed hnamed'] at h
      have hblank := List.head_eq_of_cons_eq h
      contradiction
  | node :: rest, nodes', behind, behind', h => by
    by_cases hnamed : node.kind.isNamed
    · rw [toList_sexpAll_of_isNamed hnamed] at h
      rcases named_cases nodes' with ⟨htext, -⟩ | ⟨node', rest', hnamed', htext, hskeleton⟩
      · rw [htext] at h
        have hblank := List.head_eq_of_cons_eq h
        contradiction
      · rw [htext, toList_sexpAll_of_isNamed hnamed'] at h
        obtain ⟨hfield, hsexp⟩ := fieldLabel_sexp_append_inj (List.tail_eq_of_cons_eq h)
        obtain ⟨hhead, hbehind⟩ := skeleton_eq_of_append node node' hnamed hnamed' hsexp
        obtain ⟨htail, hend⟩ := skeletonAll_eq_of_append rest rest' hbehind
        rw [hskeleton, skeletonAll_of_isNamed hnamed, skeletonAll_of_isNamed hnamed', hfield,
          hhead, htail]
        exact ⟨rfl, hend⟩
    · rw [sexpAll, if_neg hnamed] at h
      rw [skeletonAll, if_neg hnamed]
      exact skeletonAll_eq_of_append rest nodes' h

end

mutual

theorem sexp_eq_of_skeleton_eq : (node node' : Node) → node.skeleton = node'.skeleton →
    node.sexp = node'.sexp
  | ⟨_, kind, _, children, _⟩, ⟨_, kind', _, children', _⟩, h => by
    rw [skeleton, skeleton, Skeleton.node.injEq] at h
    rw [sexp, sexp, h.1, sexpAll_eq_of_skeletonAll_eq children children' h.2]

theorem sexpAll_eq_of_skeletonAll_eq : (nodes nodes' : List Node) →
    skeletonAll nodes = skeletonAll nodes' → sexpAll nodes = sexpAll nodes'
  | [], nodes', h => by
    rcases named_cases nodes' with ⟨htext, -⟩ | ⟨node', rest', hnamed', -, hskeleton⟩
    · rw [htext, sexpAll]
    · rw [hskeleton, skeletonAll_of_isNamed hnamed', skeletonAll] at h
      contradiction
  | node :: rest, nodes', h => by
    by_cases hnamed : node.kind.isNamed
    · rw [skeletonAll_of_isNamed hnamed] at h
      rcases named_cases nodes' with ⟨-, hskeleton⟩ | ⟨node', rest', hnamed', htext, hskeleton⟩
      · rw [hskeleton] at h
        contradiction
      · rw [hskeleton, skeletonAll_of_isNamed hnamed', List.cons.injEq, Prod.mk.injEq] at h
        rw [htext, sexpAll_of_isNamed hnamed, sexpAll_of_isNamed hnamed', h.1.1,
          sexp_eq_of_skeleton_eq node node' h.1.2, sexpAll_eq_of_skeletonAll_eq rest rest' h.2]
    · rw [skeletonAll, if_neg hnamed] at h
      rw [sexpAll, if_neg hnamed]
      exact sexpAll_eq_of_skeletonAll_eq rest nodes' h

end

/-- A skeleton says of which kind a named node is and what its named children are, in order. -/
theorem skeleton_eq_iff {node node' : Node} (hnamed : node.kind.isNamed)
    (hnamed' : node'.kind.isNamed) : node.skeleton = node'.skeleton ↔ node.kind = node'.kind ∧
      node.namedChildren.map (fun child => (child.field, child.skeleton)) =
        node'.namedChildren.map (fun child => (child.field, child.skeleton)) := by
  rw [skeleton_eq, skeleton_eq node', Skeleton.node.injEq, NodeKind.name_eq_name_iff hnamed hnamed',
    skeletonAll_eq_map, skeletonAll_eq_map, namedChildren, namedChildren]

/-- Nodes of named kinds are written down in the same way exactly if they have the same skeleton,
whatever else differs. -/
theorem sexp_eq_sexp_iff {node node' : Node} (hnamed : node.kind.isNamed)
    (hnamed' : node'.kind.isNamed) : node.sexp = node'.sexp ↔ node.skeleton = node'.skeleton := by
  constructor
  · intro h
    have hsame : node.sexp.toList ++ [] = node'.sexp.toList ++ [] := by rw [h]
    exact (skeleton_eq_of_append node node' hnamed hnamed' hsame).1
  · exact sexp_eq_of_skeleton_eq node node'

/-- A statement with its keyword, and one at another place that has lost it. -/
theorem sexp_eq_sexp_iff_keyword :
    (ofChildren .returnStatement 0 [leaf (.token .returnKeyword) ⟨0, 6⟩,
        (leaf .identifier ⟨7, 8⟩).withField .value]).kind.isNamed ∧
      (ofChildren .returnStatement 9 [(leaf .identifier ⟨9, 12⟩).withField .value]).kind.isNamed ∧
      ((ofChildren .returnStatement 0 [leaf (.token .returnKeyword) ⟨0, 6⟩,
          (leaf .identifier ⟨7, 8⟩).withField .value]).sexp =
          (ofChildren .returnStatement 9 [(leaf .identifier ⟨9, 12⟩).withField .value]).sexp ↔
        (ofChildren .returnStatement 0 [leaf (.token .returnKeyword) ⟨0, 6⟩,
          (leaf .identifier ⟨7, 8⟩).withField .value]).skeleton =
          (ofChildren .returnStatement 9 [(leaf .identifier ⟨9, 12⟩).withField .value]).skeleton) :=
  ⟨rfl, rfl, sexp_eq_sexp_iff rfl rfl⟩

end Node

end LosslessSyntax
