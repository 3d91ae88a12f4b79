import LosslessSyntax.Proofs.Lossless
import LosslessSyntax.Proofs.Spans.Covers
import LosslessSyntax.Proofs.Totality
import Mathlib.Data.List.Chain
/-!
The extents of the items of a tree cut its tokens into runs, one behind the other and with nothing
left over, and each child of the root is made of the tokens of its run.
-/
namespace LosslessSyntax

open Text (byteLength)

namespace ItemExtent

def slice (extent : ItemExtent) (tokens : List Token) : List Token :=
  (tokens.drop extent.firstToken).take (extent.endToken - extent.firstToken)

structure Within (extent : ItemExtent) (stop : Nat) : Prop where
  lt : extent.firstToken < extent.endToken
  looked : extent.endToken ≤ extent.lookahead
  bound : extent.lookahead ≤ stop

theorem Within.first_lt {extent : ItemExtent} {stop : Nat} (h : extent.Within stop) :
    extent.firstToken < stop :=
  h.lt.trans_le (h.looked.trans h.bound)

namespace Tile

variable {start stop : Nat} {extents : List ItemExtent}

theorem start_le (h : Tile stop start extents) : ∀ extent ∈ extents, start ≤ extent.firstToken := by
  induction extents generalizing start with
  | nil => simp
  | cons extent rest ih =>
    obtain ⟨rfl, hlt, -, -, hrest⟩ := h
    exact List.forall_mem_cons.mpr
      ⟨le_rfl, fun later hlater => hlt.le.trans (ih hrest later hlater)⟩

theorem pairwise (h : Tile stop start extents) :
    extents.Pairwise fun extent later => extent.firstToken < later.firstToken := by
  induction extents generalizing start with
  | nil => exact .nil
  | cons extent rest ih =>
    obtain ⟨rfl, hlt, -, -, hrest⟩ := h
    exact .cons (fun later hlater => hlt.trans_le (hrest.start_le later hlater)) (ih hrest)

theorem first (h : Tile stop start extents) :
    ∀ extent ∈ extents.head?, extent.firstToken = start := by
  cases extents with
  | nil => simp
  | cons extent rest =>
    simp only [List.head?_cons, Option.mem_def, Option.some.injEq, forall_eq']
    exact h.1

theorem next (h : Tile stop start extents) :
    extents.IsChain fun extent next => next.firstToken = extent.endToken := by
  induction extents generalizing start with
  | nil => exact .nil
  | cons extent rest ih =>
    obtain ⟨-, -, -, -, hrest⟩ := h
    exact .cons (ih hrest) hrest.first

theorem last (h : Tile stop start extents) :
    (extents.getLast?.map (·.endToken)).getD start = stop := by
  induction extents generalizing start with
  | nil => exact h
  | cons extent rest ih =>
    have hrest := ih h.2.2.2.2
    cases rest with
    | nil => exact hrest
    | cons next rest =>
      rw [List.getLast?_cons_cons]
      cases hlast : (next :: rest).getLast? with
      | none => simp at hlast
      | some last =>
        rw [hlast] at hrest
        exact hrest

theorem within (h : Tile stop start extents) : ∀ extent ∈ extents, extent.Within stop := by
  induction extents generalizing start with
  | nil => simp
  | cons extent rest ih =>
    obtain ⟨rfl, hlt, hlooked, hbound, hrest⟩ := h
    exact List.forall_mem_cons.mpr ⟨⟨hlt, hlooked, hbound⟩, ih hrest⟩

end Tile

end ItemExtent

namespace TokenStream

variable {stream : TokenStream} {source : String}

@[simp] theorem length_toList (stream : TokenStream) :
    stream.toList.length = stream.body.size + 1 := by
  simp [toList]

theorem slice_eq_take_drop {start stop : Nat} (h : stop ≤ stream.body.size) :
    stream.slice start stop = (stream.toList.drop start).take (stop - start) := by
  apply List.ext_getElem
  · simp only [slice, List.length_map, List.length_range', List.length_take, List.length_drop,
      length_toList]
    omega
  · intro offset hoffset _
    simp only [slice, List.length_map, List.length_range'] at hoffset
    have hlt : start + offset < stream.toList.length := by
      rw [length_toList]
      omega
    simp only [slice, List.getElem_map, List.getElem_range', List.getElem_take, List.getElem_drop,
      Nat.one_mul]
    exact get_eq_getElem hlt

end TokenStream

/-- What the extents of the items of a tree say of its tokens and of the children of its root. -/
structure SyntaxTree.Partitioned (tree : SyntaxTree) : Prop where
  first : ∀ extent ∈ tree.items.head?, extent.firstToken = 0
  next : tree.items.IsChain fun extent next => next.firstToken = extent.endToken
  /-- Behind the last item, or at the very start if there is none, only the end of file is left. -/
  last : (tree.items.getLast?.map (·.endToken)).getD 0 + 1 = tree.tokens.length
  within : ∀ extent ∈ tree.items, extent.Within (tree.tokens.length - 1)
  /-- There are as many children as items, and they have the tokens of the items as their leaves. -/
  leaves : List.Forall₂ (fun child extent => Node.Spell [child] (extent.slice tree.tokens))
    tree.root.children tree.items

theorem IsItem.spell {dialect : Dialect} {stream : TokenStream} {start : Nat}
    {item : Node × ItemExtent} (h : IsItem dialect stream start item)
    (hspan : ∀ index, index < stream.body.size → (stream.get index).span.isEmpty = false) :
    Node.Spell [item.1] (item.2.slice stream.toList) := by
  have hslice : item.2.slice stream.toList = stream.slice start item.2.endToken := by
    rw [ItemExtent.slice, h.first, TokenStream.slice_eq_take_drop (h.looked.trans h.bound)]
  rw [hslice]
  exact h.fragment.spell hspan

theorem Setting.Items.spell {stream : TokenStream} {dialect : Dialect} {start : Nat}
    {items : List (Node × ItemExtent)} (h : (top stream dialect).Items start items)
    (hspan : ∀ index, index < stream.body.size → (stream.get index).span.isEmpty = false) :
    List.Forall₂ (fun node extent => Node.Spell [node] (extent.slice stream.toList))
      (items.map (·.1)) (items.map (·.2)) := by
  induction h with
  | finish => exact .nil
  | @item start item after items kind read _ ih =>
    obtain ⟨read', last, hread, hitem, -⟩ := parseItem_eq_done dialect ⟨start, start⟩ kind
    obtain ⟨rfl, -⟩ : _ ∧ _ := by simpa using hread.symm.trans read
    exact .cons (hitem.spell hspan) ih

namespace SyntaxTree

theorem partitioned_ofItems {source : String} {stream : TokenStream} {dialect : Dialect}
    {items : List (Node × ItemExtent)} (hof : stream.IsOf source)
    (hlength : byteLength source.toList ≤ maxSourceLength)
    (hitems : (Setting.top stream dialect).Items 0 items) :
    (ofItems source stream items dialect).Partitioned := by
  have htile : ItemExtent.Tile stream.body.size 0 (items.map (·.2)) :=
    hitems.tile (fun _ => hof.kind_eq_eof_iff.mp) (Nat.zero_le _)
  have htokens : (ofItems source stream items dialect).tokens.length = stream.body.size + 1 :=
    stream.length_toList
  constructor
  case first => exact htile.first
  case next => exact htile.next
  case last =>
    rw [htokens]
    exact congrArg (· + 1) htile.last
  case within =>
    rw [htokens]
    exact htile.within
  case leaves => exact hitems.spell fun index hindex => (hof.get_of_lt hindex).2.2 hlength

/-- The items of the tree of a source partition its tokens but the end of file, and the leaves of
each child of the root that are not empty are the tokens of its item, one for one. -/
theorem partitioned_parse (source : String) (dialect : Dialect)
    (h : byteLength source.toList ≤ maxSourceLength) :
    ∃ tree, parse source dialect = .ok tree ∧ tree.tokens = tokenizeSignificant source ∧
      tree.Partitioned := by
  obtain ⟨stream, items, hof, hitems, hparse⟩ := parse_eq_ok dialect h
  exact ⟨_, hparse, hof, partitioned_ofItems hof h hitems⟩

/-- Type arguments that are given up, a stray mark, and a function that is cut short. -/
theorem partitioned_parse_unfinished :
    byteLength "const a = B(c) ; pub fn f(".toList ≤ maxSourceLength ∧
      ∃ tree, parse "const a = B(c) ; pub fn f(" .extended = .ok tree ∧
        tree.tokens = tokenizeSignificant "const a = B(c) ; pub fn f(" ∧ tree.Partitioned :=
  ⟨by decide, partitioned_parse _ .extended (by decide)⟩

end SyntaxTree

end LosslessSyntax
