import LosslessSyntax.Proofs.SourceFile
/-!
Totality: every source that is not too long has a tree, and nothing goes wrong while it is read.
-/
namespace LosslessSyntax

open Text (byteLength)

/-- Extents that follow each other from one token up to another. Each takes a token at least, and
none depends on what is behind the end. -/
def ItemExtent.Tile (stop : Nat) : Nat → List ItemExtent → Prop
  | start, [] => start = stop
  | start, extent :: rest =>
    extent.firstToken = start ∧ start < extent.endToken ∧ extent.endToken ≤ extent.lookahead ∧
      extent.lookahead ≤ stop ∧ Tile stop extent.endToken rest

theorem Grammar.suffix?_isSome : ∀ kind, (suffixPower? kind).isSome → (suffix? kind).isSome := by
  decide

namespace Node

/-- A leaf of a malformed token, or the error node of tokens that are in order and not past the end
of file. What it says does not come of a broken invariant. -/
def IsErrorOf (stream : TokenStream) (node : Node) : Prop :=
  (∃ token : Token, node = .ofToken token) ∨
    ∃ start stop diagnostic, start ≤ stop ∧ stop ≤ stream.body.size ∧
      diagnostic.isInternal = false ∧ node = stream.errorNode start stop diagnostic

/-- What holds of every node of a tree that was read without anything going wrong. -/
def ReadSoundly (stream : TokenStream) (node : Node) : Prop :=
  (∀ diagnostic, node.diagnostic = some diagnostic → diagnostic.isInternal = false) ∧
    (node.kind = .error → IsErrorOf stream { node with field := none })

theorem isInternal_ofToken {token : Token} {diagnostic : Diagnostic}
    (h : (ofToken token).diagnostic = some diagnostic) : diagnostic.isInternal = false := by
  simp only [ofToken] at h
  split at h
  · rename_i reason _
    obtain rfl := Option.some.inj h
    cases reason <;> rfl
  · contradiction

end Node

theorem Fragment.readSoundly {dialect : Dialect} {stream : TokenStream} {start stop : Nat}
    {nodes : List Node} (h : Fragment dialect stream start stop nodes) :
    Node.Throughout (Node.ReadSoundly stream) nodes := by
  refine h.throughout (fun _ _ hnode => hnode) ?_ ?_ ?_ ?_
  · exact fun token => ⟨fun _ => Node.isInternal_ofToken, fun _ => .inl ⟨token, rfl⟩⟩
  · exact fun span => ⟨by simp [Node.leaf], by simp [Node.leaf]⟩
  · rintro kind offset children form hform - -
    refine ⟨by simp [Node.ofChildren], ?_⟩
    rintro rfl
    simp [NodeKind.forms] at hform
  · intro start stop diagnostic order bound recoverable
    refine ⟨?_, fun _ => .inr ⟨start, stop, diagnostic, order, bound, recoverable, rfl⟩⟩
    rintro _ ⟨⟩
    exact recoverable

namespace Setting

variable {stream : TokenStream} {dialect : Dialect}

theorem Items.tile {start : Nat} {items : List (Node × ItemExtent)}
    (h : (top stream dialect).Items start items)
    (hend : ∀ index, stream.kind index = .eof → stream.body.size ≤ index)
    (hbound : start ≤ stream.body.size) :
    ItemExtent.Tile stream.body.size start (items.map (·.2)) := by
  induction h with
  | finish eof => exact Nat.le_antisymm hbound (hend _ eof)
  | item kind read _ ih =>
    obtain ⟨item, after, hread, hitem, -⟩ :=
      parseItem_eq_done dialect ⟨_, _⟩ kind
    obtain ⟨rfl, -⟩ : _ ∧ _ := by simpa using hread.symm.trans read
    exact ⟨hitem.first, hitem.lt, hitem.looked, hitem.bound, ih (hitem.looked.trans hitem.bound)⟩

/-- Items are read in the same way if something else happens `instead` of going wrong. -/
theorem Items.guarded {start : Nat} {items : List (Node × ItemExtent)}
    (h : (top stream dialect).Items start items) (instead : Nonterminal → Action) :
    ∀ item ∈ items, ∃ furthest, furthest ≤ item.2.lookahead ∧
      Rule.itemOrError.run (Nonterminal.guardedAction instead) (top stream dialect) []
        ⟨item.2.firstToken, item.2.firstToken⟩ = .done [item.1] ⟨item.2.endToken, furthest⟩ := by
  induction h with
  | finish => simp
  | @item start item after items kind read _ ih =>
    refine List.forall_mem_cons.mpr ⟨?_, ih⟩
    have hcalls : Nonterminal.Calls Nonterminal.action (Nonterminal.guardedAction instead) dialect
        stream 16 (Cursor.mk start start).position := Nonterminal.calls_action instead
    have hsame := (Rule.reaches_itemOrError hcalls kind).same
    obtain ⟨hrun, hextent⟩ := parseItem_eq_done_iff.mp read
    rw [Cursor.resetFurthest, hsame] at hrun
    rw [hextent]
    exact ⟨after.furthest, Nat.le_max_left _ _, hrun⟩

end Setting

/-- What reading a source without anything going wrong comes to. -/
structure SyntaxTree.ReadSoundly (tree : SyntaxTree) : Prop where
  /-- No node tells of a broken invariant, and error nodes stand for tokens that are in order. -/
  nodes : ∀ node ∈ tree.root.preorder, node.ReadSoundly tree.stream
  /-- Each item takes a token, and together they take all. -/
  items : ItemExtent.Tile tree.stream.body.size 0 tree.items
  /-- While an item is read calls do not nest too deep, none calls itself without a token having
  been read, nothing goes past the end of file and no invariant is broken. -/
  guarded : ∀ (instead : Nonterminal → Action), ∀ item ∈ tree.root.children.zip tree.items,
    ∃ furthest, furthest ≤ item.2.lookahead ∧
      Rule.itemOrError.run (Nonterminal.guardedAction instead) (.top tree.stream tree.dialect) []
        ⟨item.2.firstToken, item.2.firstToken⟩ = .done [item.1] ⟨item.2.endToken, furthest⟩

namespace SyntaxTree

variable {source : String} {stream : TokenStream} {items : List (Node × ItemExtent)}
  {dialect : Dialect}

theorem readSoundly_ofItems (hof : stream.IsOf source)
    (hitems : (Setting.top stream dialect).Items 0 items) :
    (ofItems source stream items dialect).ReadSoundly := by
  obtain ⟨stop, -, -, hfragment, -⟩ := hitems.fragment (Nat.zero_le _)
  have hzip : (items.map (·.1)).zip (items.map (·.2)) = items := by
    rw [List.zip_map']
    simp
  refine ⟨?_, hitems.tile (fun _ => hof.kind_eq_eof_iff.mp) (Nat.zero_le _), ?_⟩
  · exact forall_mem_preorder_ofItems.mpr ⟨⟨by simp, by simp⟩, hfragment.readSoundly⟩
  · intro instead item hitem
    exact hitems.guarded instead item (hzip ▸ hitem)

/-- Reading a source is total. A source that is too long is refused for that, and every other source
has a tree, in the reading of which nothing goes wrong. Whatever rule is read wherever, its cursor
does not go back nor past the end of file, and what it recovers from is a run of tokens in order.
No operator or suffix has a power without a rule. -/
theorem parse_total (source : String) (dialect : Dialect) :
    (if byteLength source.toList ≤ maxSourceLength then
      ∃ tree, parse source dialect = .ok tree ∧ tree.ReadSoundly
    else parse source dialect =
      .error ⟨.sourceTooLarge (byteLength source.toList) maxSourceLength, .emptyAt 0⟩) ∧
    (∀ (rule : Rule) (setting : Setting) (nodes : List Node) (cursor : Cursor),
      cursor.Reaches setting.stream (rule.run Nonterminal.action setting nodes cursor).cursor) ∧
    (∀ kind, (Precedence.power? kind).isSome → (Grammar.operation? kind).isSome) ∧
    ∀ kind, (Grammar.suffixPower? kind).isSome → (Grammar.suffix? kind).isSome := by
  refine ⟨?_, fun rule => rule.run_advances Nonterminal.action_advances,
    Grammar.operation?_isSome, Grammar.suffix?_isSome⟩
  split
  · rename_i hlength
    obtain ⟨stream, items, hof, hitems, hparse⟩ := parse_eq_ok dialect hlength
    exact ⟨_, hparse, readSoundly_ofItems hof hitems⟩
  · rename_i hlength
    exact parse_eq_error (Nat.not_le.mp hlength)

end SyntaxTree

end LosslessSyntax
