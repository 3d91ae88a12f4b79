import LosslessSyntax.Proofs.Bounds
import LosslessSyntax.Proofs.Descent
import LosslessSyntax.Proofs.Lexing.Tokens
import LosslessSyntax.Tree.Parse
/-!
Source files: at every token but the end of file an item is read, or an error node that stands for
one, and it takes at least one token. So every source that is not too long has its one tree.
-/
namespace LosslessSyntax

open Text (byteLength)
open Node (Throughout)

namespace Rule

theorem leadsTo_itemOrError {dialect : Dialect} {kind : TokenKind} (hkind : kind ≠ .eof) :
    itemOrError.LeadsTo 16 dialect .statement
      (·.Refines ⟨[Form.bare (.error :: NodeKind.items)], [], true⟩) ⟨[], [kind], false⟩ := by
  simp [itemOrError, Recovery.item]
  exact ⟨Situation.refines_of_within rfl id,
    Situation.refines_of_within rfl fun _ => bne_iff_ne.mpr hkind⟩

theorem isInternal_of_run_recover {expand : Nonterminal → Action} {recovery : Recovery}
    {rule : Rule} {setting : Setting} {nodes : List Node} {cursor after : Cursor}
    {diagnostic : Diagnostic}
    (h : (Rule.recover recovery rule).run expand setting nodes cursor = .failed diagnostic after) :
    diagnostic.isInternal := by
  simp only [run] at h
  split at h
  · contradiction
  · rename_i failure failed _
    by_cases hfailure : failure.isInternal
    · simp only [TokenStream.recover, hfailure, if_true, Outcome.failed.injEq] at h
      exact h.1 ▸ hfailure
    · simp [TokenStream.recover, hfailure] at h

theorem reaches_itemOrError {expand expand' : Nonterminal → Action} {stream : TokenStream}
    {dialect : Dialect} {cursor : Cursor}
    (hcalls : Nonterminal.Calls expand expand' dialect stream 16 cursor.position)
    (hkind : stream.kind cursor.position ≠ .eof) :
    itemOrError.Reaches expand expand' (.top stream dialect) cursor.position cursor.position
      (·.Refines ⟨[Form.bare (.error :: NodeKind.items)], [], true⟩) [] cursor := by
  have hbound : cursor.position ≤ stream.body.size :=
    (TokenStream.lt_of_kind_ne_eof hkind).le
  have hholds : Situation.Holds dialect stream cursor.position cursor.position
      ⟨[], [stream.kind cursor.position], false⟩ [] cursor :=
    ⟨.empty _, rfl, by simp [List.getElem?_eq_some_iff], by simp, hbound⟩
  exact (leadsTo_itemOrError hkind).reaches hcalls hholds le_rfl

theorem run_itemOrError_of_le {stream : TokenStream} (dialect : Dialect) {cursor : Cursor}
    {depth : Nat} (hdepth : Nonterminal.callDepth stream ≤ depth)
    (hkind : stream.kind cursor.position ≠ .eof) :
    itemOrError.run (Nonterminal.run depth) (.top stream dialect) [] cursor =
      itemOrError.run Nonterminal.action (.top stream dialect) [] cursor :=
  (reaches_itemOrError (Nonterminal.calls_of_le hdepth) hkind).same

end Rule

/-- A node and its extent as those of an item that begins at a token. It has taken that token and
depends on none behind the end of file. -/
structure IsItem (dialect : Dialect) (stream : TokenStream) (start : Nat)
    (item : Node × ItemExtent) : Prop where
  fragment : Fragment dialect stream start item.2.endToken [item.1]
  part : item.1.part ∈ loose (.error :: NodeKind.items)
  first : item.2.firstToken = start
  lt : start < item.2.endToken
  looked : item.2.endToken ≤ item.2.lookahead
  bound : item.2.lookahead ≤ stream.body.size

namespace Setting

theorem parseItem_eq_done_iff {setting : Setting} {cursor after : Cursor}
    {item : Node × ItemExtent} :
    setting.parseItem cursor = .done item after ↔
      Rule.itemOrError.run Nonterminal.action setting [] cursor.resetFurthest =
          .done [item.1] after ∧
        item.2 = ⟨cursor.position, after.position, max after.furthest after.position⟩ := by
  obtain ⟨node, extent⟩ := item
  unfold parseItem Rule.parse
  rcases Rule.itemOrError.run Nonterminal.action setting [] cursor.resetFurthest with
    ⟨_ | ⟨first, _ | ⟨second, rest⟩⟩, last⟩ | ⟨diagnostic, last⟩
  case done.cons.nil =>
    simp only [Outcome.done.injEq, Prod.mk.injEq, List.cons.injEq, and_true]
    constructor
    · rintro ⟨⟨rfl, rfl⟩, rfl⟩
      exact ⟨⟨rfl, rfl⟩, rfl⟩
    · rintro ⟨⟨rfl, rfl⟩, rfl⟩
      exact ⟨⟨rfl, rfl⟩, rfl⟩
  all_goals simp

theorem parseItem_eq_done {stream : TokenStream} (dialect : Dialect) (cursor : Cursor)
    (hkind : stream.kind cursor.position ≠ .eof) :
    ∃ item after, (top stream dialect).parseItem cursor = .done item after ∧
      IsItem dialect stream cursor.position item ∧ after.position = item.2.endToken := by
  have hcalls : Nonterminal.Calls Nonterminal.action (Nonterminal.guardedAction Nonterminal.action)
      dialect stream 16 cursor.resetFurthest.position := Nonterminal.calls_action Nonterminal.action
  have hrun := (Rule.reaches_itemOrError hcalls hkind).meets
  rcases hafter : Rule.itemOrError.run Nonterminal.action (top stream dialect) []
      cursor.resetFurthest with ⟨nodes, after⟩ | ⟨diagnostic, after⟩
  · rw [hafter] at hrun
    obtain ⟨-, -, last, hrefines, hlast⟩ := hrun
    have hholds := hlast.of_refines hrefines
    obtain ⟨part, hpart, hnodes⟩ := Shape.fits_singleton_iff.mp hholds.fits
    obtain ⟨node, rfl, rfl⟩ := List.map_eq_singleton_iff.mp hnodes
    have hreached := Rule.itemOrError.run_advances Nonterminal.action_advances
      (top stream dialect) [] cursor.resetFurthest
    rw [hafter] at hreached
    have hfurthest : after.furthest ≤ stream.body.size :=
      hreached.furthest_bound (TokenStream.lt_of_kind_ne_eof hkind).le
    refine ⟨(node, ⟨cursor.position, after.position, max after.furthest after.position⟩), after,
      parseItem_eq_done_iff.mpr ⟨hafter, rfl⟩, ?_, rfl⟩
    exact ⟨hholds.fragment, hpart, rfl, hholds.moved rfl, Nat.le_max_right _ _,
      Nat.max_le.mpr ⟨hfurthest, hholds.bound⟩⟩
  · rw [hafter] at hrun
    have hinternal := Rule.isInternal_of_run_recover hafter
    rw [hrun.2.2] at hinternal
    contradiction

/-- The items of a stream from a token up to the end of file, each as it is read. -/
inductive Items (setting : Setting) : Nat → List (Node × ItemExtent) → Prop where
  | finish {start : Nat} (eof : setting.stream.kind start = .eof) : Items setting start []
  | item {start : Nat} {item : Node × ItemExtent} {after : Cursor}
      {items : List (Node × ItemExtent)} (kind : setting.stream.kind start ≠ .eof)
      (read : setting.parseItem ⟨start, start⟩ = .done item after)
      (tail : Items setting item.2.endToken items) : Items setting start (item :: items)

theorem Items.unique {setting : Setting} {start : Nat} {items items' : List (Node × ItemExtent)}
    (h : setting.Items start items) (h' : setting.Items start items') : items = items' := by
  induction h generalizing items' with
  | finish eof =>
    cases h' with
    | finish => rfl
    | item kind => contradiction
  | item kind read _ ih =>
    cases h' with
    | finish eof => contradiction
    | item _ read' tail' =>
      obtain ⟨rfl, -⟩ : _ ∧ _ := by simpa using read.symm.trans read'
      rw [ih tail']

theorem Items.fragment {stream : TokenStream} {dialect : Dialect} {start : Nat}
    {items : List (Node × ItemExtent)} (h : (top stream dialect).Items start items)
    (hbound : start ≤ stream.body.size) :
    ∃ stop, stream.kind stop = .eof ∧ stop ≤ stream.body.size ∧
      Fragment dialect stream start stop (items.map (·.1)) ∧
      ∀ item ∈ items, item.1.part ∈ loose (.error :: NodeKind.items) := by
  induction h with
  | finish eof => exact ⟨_, eof, hbound, .empty _, by simp⟩
  | item kind read _ ih =>
    obtain ⟨item, after, hread, hitem, -⟩ :=
      parseItem_eq_done dialect ⟨_, _⟩ kind
    obtain ⟨rfl, -⟩ : _ ∧ _ := by simpa using hread.symm.trans read
    obtain ⟨stop, hstop, hle, hitems, hparts⟩ := ih (hitem.looked.trans hitem.bound)
    exact ⟨stop, hstop, hle, hitem.fragment.append hitems,
      List.forall_mem_cons.mpr ⟨hitem.part, hparts⟩⟩

/-- Whatever is taken over from an old tree is what reading would give. -/
def Honest (setting : Setting) (old : SyntaxTree) (range : ChangedRange) : Prop :=
  ∀ (reuse : Reuse) (position : Nat) (item : Node × ItemExtent), reuse.old = old →
    reuse.range = range → setting.stream.kind position ≠ .eof →
    (reuse.find setting.stream position).1 = some item →
    ∃ after, setting.parseItem ⟨position, position⟩ = .done item after

def HonestOffers (setting : Setting) (reuse : Option Reuse) : Prop :=
  ∀ offer, reuse = some offer → setting.Honest offer.old offer.range

theorem HonestOffers.of_offer {setting : Setting} {reuse next : Option Reuse} {position : Nat}
    {found : Option (Node × ItemExtent)} (h : setting.HonestOffers reuse)
    (hkind : setting.stream.kind position ≠ .eof)
    (hoffer : Reuse.offer reuse setting.stream position = (found, next)) :
    setting.HonestOffers next ∧ ∀ item, found = some item →
      ∃ after, setting.parseItem ⟨position, position⟩ = .done item after := by
  cases reuse with
  | none =>
    obtain ⟨rfl, rfl⟩ := Prod.mk.inj hoffer
    exact ⟨h, by simp⟩
  | some reuse =>
    have hreuse := h reuse rfl
    simp only [Reuse.offer, Reuse.take] at hoffer
    split at hoffer
    · rename_i item index hfind
      obtain ⟨rfl, rfl⟩ := Prod.mk.inj hoffer
      refine ⟨?_, ?_⟩
      · rintro _ ⟨⟩
        exact hreuse
      · rintro _ ⟨⟩
        exact hreuse reuse position item rfl rfl hkind (by rw [hfind])
    · obtain ⟨rfl, rfl⟩ := Prod.mk.inj hoffer
      refine ⟨?_, by simp⟩
      rintro _ ⟨⟩
      exact hreuse

variable {stream : TokenStream} {dialect : Dialect}

theorem parseItems_eq_done (fuel : Nat) (reuse : Option Reuse) (cursor : Cursor)
    (hfuel : stream.body.size - cursor.position < fuel)
    (hreuse : (top stream dialect).HonestOffers reuse) :
    ∃ list after, (top stream dialect).parseItems fuel reuse cursor = .done list after ∧
      (top stream dialect).Items cursor.position list.items ∧ stream.kind after.position = .eof := by
  induction fuel generalizing reuse cursor with
  | zero => omega
  | succ fuel ih =>
    by_cases hkind : stream.kind cursor.position = .eof
    · refine ⟨⟨[], reuse⟩, cursor.examineHere stream, ?_, .finish hkind, hkind⟩
      simp [parseItems, top, hkind]
    obtain ⟨item, after, hread, hitem, hafter⟩ :=
      parseItem_eq_done dialect (cursor.examineHere stream) hkind
    have hlt := hitem.lt
    have hbound := hitem.looked.trans hitem.bound
    -- an item that is taken over is the one that would be read, and either way it takes a token
    rcases hoffer : Reuse.offer reuse stream cursor.position with ⟨found, next⟩
    obtain ⟨hnext, hfound⟩ := hreuse.of_offer hkind hoffer
    rcases found with _ | found
    · obtain ⟨list, last, hlist, hitems, hlast⟩ :=
        ih next after (by rw [hafter]; simp at hlt; omega) hnext
      refine ⟨list.push item, last, ?_, .item hkind hread (hafter ▸ hitems), hlast⟩
      have htop : (top stream dialect).stream = stream := rfl
      simp [parseItems, htop, hkind, hoffer, hread, hlist]
    · obtain ⟨after', hread'⟩ := hfound found rfl
      obtain ⟨rfl, -⟩ : _ ∧ _ := by simpa using hread'.symm.trans hread
      have hseek : (cursor.examineHere stream).seek stream found.2.endToken =
        ⟨found.2.endToken, (cursor.examineHere stream).furthest⟩ := by
        simp [Cursor.seek, TokenStream.clamp_eq_self hbound]
      obtain ⟨list, last, hlist, hitems, hlast⟩ :=
        ih next ⟨found.2.endToken, (cursor.examineHere stream).furthest⟩
          (by simp at hlt ⊢; omega) hnext
      refine ⟨list.push found, last, ?_, .item hkind hread hitems, hlast⟩
      have htop : (top stream dialect).stream = stream := rfl
      simp [parseItems, htop, hkind, hoffer, hseek, hlist]

end Setting

namespace TokenStream

def IsOf (stream : TokenStream) (source : String) : Prop :=
  stream.toList = tokenizeSignificant source

theorem exists_ofList? (source : String) :
    ∃ stream, ofList? (tokenizeSignificant source) = some stream ∧ stream.IsOf source := by
  obtain ⟨body, htokens, -⟩ := tokenizeSignificant_eq_concat source
  have hstream : ∃ stream, ofList? (tokenizeSignificant source) = some stream := by
    simp [ofList?, htokens, Token.endOfFile]
  obtain ⟨stream, hstream⟩ := hstream
  exact ⟨stream, hstream, toList_of_ofList? hstream⟩

namespace IsOf

variable {stream : TokenStream} {source : String}

theorem final_eq (h : stream.IsOf source) :
    stream.final = .endOfFile (byteLength source.toList) := by
  obtain ⟨body, htokens, -⟩ := tokenizeSignificant_eq_concat source
  exact List.singleton_inj.mp (List.append_inj_right' (h.trans htokens) rfl)

theorem get_of_lt (h : stream.IsOf source) {index : Nat} (hindex : index < stream.body.size) :
    stream.kind index ≠ .eof ∧ (stream.kind index).isExtra = false ∧
      (byteLength source.toList ≤ maxSourceLength → (stream.get index).span.isEmpty = false) := by
  obtain ⟨body, htokens, hbody⟩ := tokenizeSignificant_eq_concat source
  have hlist : stream.body.toList = body := List.append_inj_left' (h.trans htokens) rfl
  refine hbody (stream.get index) ?_
  rw [← hlist]
  simp [get, hindex]

theorem kind_eq_eof_iff (h : stream.IsOf source) {index : Nat} :
    stream.kind index = .eof ↔ stream.body.size ≤ index := by
  constructor
  · intro hkind
    by_contra hlt
    exact (h.get_of_lt (by omega)).1 hkind
  · exact kind_eq_eof_of_le

end IsOf

end TokenStream

theorem Precedence.validate_table : validate table = .ok () := rfl

namespace SyntaxTree

def ofItems (source : String) (stream : TokenStream) (items : List (Node × ItemExtent))
    (dialect : Dialect) : SyntaxTree :=
  ⟨source, rootOf items stream.final, stream, items.map (·.2), dialect⟩

section Root

variable {source : String} {stream : TokenStream} {items : List (Node × ItemExtent)}
  {dialect : Dialect}

@[simp] theorem kind_root_ofItems : (ofItems source stream items dialect).root.kind = .sourceFile :=
  rfl

@[simp] theorem children_root_ofItems :
    (ofItems source stream items dialect).root.children = items.map (·.1) := rfl

@[simp] theorem diagnostic_root_ofItems :
    (ofItems source stream items dialect).root.diagnostic = none := rfl

theorem forall_mem_preorder_ofItems {P : Node → Prop} :
    (∀ node ∈ (ofItems source stream items dialect).root.preorder, P node) ↔
      P (ofItems source stream items dialect).root ∧ Throughout P (items.map (·.1)) := by
  rw [Node.preorder_eq, List.forall_mem_cons]
  rfl

theorem mem_preorder_ofItems {node : Node} (h : node ∈ Node.preorderAll (items.map (·.1))) :
    node ∈ (ofItems source stream items dialect).root.preorder := by
  rw [Node.preorder_eq]
  exact List.mem_cons_of_mem _ h

theorem diagnostics_ofItems :
    (ofItems source stream items dialect).root.diagnostics =
      (Node.preorderAll (items.map (·.1))).filterMap (·.diagnostic) := by
  rw [Node.diagnostics, Node.preorder_eq]
  rfl

end Root

variable {source : String} {dialect : Dialect}

theorem ofTokens_eq_ok (source : String) (dialect : Dialect) (reuse : Option Reuse)
    (hreuse : ∀ stream : TokenStream, stream.IsOf source →
      (Setting.top stream dialect).HonestOffers reuse) :
    ∃ stream items rest, stream.IsOf source ∧ (Setting.top stream dialect).Items 0 items ∧
      ofTokens source (tokenizeSignificant source) dialect reuse =
        .ok (ofItems source stream items dialect, rest) := by
  obtain ⟨stream, hstream, hof⟩ := TokenStream.exists_ofList? source
  obtain ⟨list, after, hlist, hitems, hafter⟩ :=
    Setting.parseItems_eq_done (stream.size + 1) reuse .start
      (by simp only [TokenStream.size, Cursor.start]; omega) (hreuse stream hof)
  have hfinal : stream.get after.position = stream.final := by
    rw [TokenStream.get, Array.getElem?_eq_none (hof.kind_eq_eof_iff.mp hafter), Option.getD_none]
  have hfile : (Setting.top stream dialect).parseSourceFile reuse .start =
      .done ⟨rootOf list.items stream.final, list.items.map (·.2), list.reuse⟩
        (after.examineHere stream) := by
    have htop : (Setting.top stream dialect).stream = stream := rfl
    simp only [Setting.parseSourceFile, htop, hlist, hfinal]
  refine ⟨stream, list.items, list.reuse, hof, hitems, ?_⟩
  simp only [ofTokens, Precedence.validate_table, streamOf, hstream, bind, Except.bind, hfile]
  rfl

theorem parse_eq_ok (dialect : Dialect) (h : byteLength source.toList ≤ maxSourceLength) :
    ∃ stream items, stream.IsOf source ∧ (Setting.top stream dialect).Items 0 items ∧
      parse source dialect = .ok (ofItems source stream items dialect) := by
  obtain ⟨stream, items, rest, hof, hitems, hparse⟩ :=
    ofTokens_eq_ok source dialect none fun _ _ _ hnone => by contradiction
  refine ⟨stream, items, hof, hitems, ?_⟩
  simp only [parse, Diagnostic.checkLength, if_neg (Nat.not_lt.mpr h), hparse]
  rfl

theorem exists_parse_eq_ok {P : SyntaxTree → Prop} [DecidablePred P]
    (h : ((parse source dialect).toOption.any fun tree => decide (P tree)) = true) :
    ∃ tree, parse source dialect = .ok tree ∧ P tree := by
  rcases hparse : parse source dialect with diagnostic | tree <;> rw [hparse] at h
  · contradiction
  · exact ⟨tree, rfl, of_decide_eq_true h⟩

theorem parse_eq_error (h : maxSourceLength < byteLength source.toList) :
    parse source dialect =
      .error ⟨.sourceTooLarge (byteLength source.toList) maxSourceLength, .emptyAt 0⟩ := by
  simp only [parse, Diagnostic.checkLength, if_pos h]
  rfl

theorem eq_ofItems_of_parse {tree : SyntaxTree} (h : parse source dialect = .ok tree) :
    byteLength source.toList ≤ maxSourceLength ∧
      ∃ stream items, stream.IsOf source ∧ (Setting.top stream dialect).Items 0 items ∧
        tree = ofItems source stream items dialect := by
  have hbound : byteLength source.toList ≤ maxSourceLength := by
    by_contra hlong
    rw [parse_eq_error (Nat.lt_of_not_le hlong)] at h
    contradiction
  obtain ⟨stream, items, hof, hitems, hparse⟩ := parse_eq_ok dialect hbound
  exact ⟨hbound, stream, items, hof, hitems, Except.ok.inj (h.symm.trans hparse)⟩

end SyntaxTree

end LosslessSyntax
