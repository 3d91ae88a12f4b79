import LosslessSyntax.Proofs.Conformance
import LosslessSyntax.Proofs.Diagnostics
/-!
The nodes of a fragment cover a run of tokens: a leaf has the span of one token, and a node with
children reaches from its first child to its last. Since tokens come one after the other, spans are
nested and those of siblings are in order.
-/
namespace LosslessSyntax

open Node (Throughout)
open Text (byteLength)

/-- Each token begins no earlier than the one before it ends, and all but the end of file have text.
-/
structure TokenStream.Ordered (stream : TokenStream) : Prop where
  lt : ∀ index < stream.body.size,
    (stream.get index).span.start.toNat < (stream.get index).span.stop.toNat
  le : ∀ index other, index < other → other ≤ stream.body.size →
    (stream.get index).span.stop.toNat ≤ (stream.get other).span.start.toNat

/-- The nodes cover the tokens from `start` up to `stop`. Only an error can cover none. -/
inductive Covers (stream : TokenStream) : Nat → Nat → List Node → Prop where
  | nil (start : Nat) : Covers stream start start []
  | leaf {start stop : Nat} {node : Node} {nodes : List Node} (children : node.children = [])
      (span : node.span = (stream.get start).span) (bound : start < stream.body.size)
      (rest : Covers stream (start + 1) stop nodes) : Covers stream start stop (node :: nodes)
  | hollow {start stop : Nat} {node : Node} {nodes : List Node} (children : node.children = [])
      (kind : node.kind = .error) (span : node.span = .emptyAt (stream.get start).span.start)
      (bound : start ≤ stream.body.size) (rest : Covers stream start stop nodes) :
      Covers stream start stop (node :: nodes)
  | parent {start middle stop : Nat} {node first last : Node} {nodes : List Node}
      (head : node.children.head? = some first) (final : node.children.getLast? = some last)
      (span : node.span = ⟨first.span.start, last.span.stop⟩)
      (inner : Covers stream start middle node.children) (rest : Covers stream middle stop nodes) :
      Covers stream start stop (node :: nodes)

namespace Lexes

variable {offset : Nat} {text : List Char} {tokens : List Token}

theorem pairwise (h : Lexes offset text tokens)
    (hlength : offset + byteLength text ≤ maxSourceLength) :
    (∀ token ∈ tokens, offset ≤ token.span.start.toNat) ∧
      tokens.Pairwise fun first next => first.span.stop.toNat ≤ next.span.start.toNat := by
  induction h with
  | finish offset =>
    simp only [List.mem_singleton, forall_eq, List.pairwise_singleton, and_true]
    rw [Token.start_endOfFile ((Nat.le_add_right _ _).trans hlength)]
  | @lexeme offset c rest back lexeme tokens first text tail ih =>
    rw [text, Text.byteLength_append, ← Nat.add_assoc] at hlength
    obtain ⟨hbehind, htokens⟩ := ih hlength
    have hstart := lexeme.start_token (show offset ≤ maxSourceLength by omega)
    have hstop := Lexeme.stop_token ((Nat.le_add_right _ _).trans hlength)
    refine ⟨List.forall_mem_cons.mpr ⟨hstart.ge, fun token htoken => ?_⟩,
      List.pairwise_cons.mpr ⟨fun token htoken => ?_, htokens⟩⟩
    · exact (Nat.le_add_right _ _).trans (hbehind token htoken)
    · rw [hstop]
      exact hbehind token htoken

end Lexes

namespace TokenStream

variable {stream : TokenStream} {source : String}

theorem get_eq_getElem {index : Nat} (h : index < stream.toList.length) :
    stream.get index = stream.toList[index] := by
  simp only [toList, List.length_append, Array.length_toList, List.length_singleton] at h
  rcases Nat.lt_succ_iff_lt_or_eq.mp h with hlt | rfl
  · simp [get, toList, hlt]
  · simp [get, toList]

theorem IsOf.ordered (h : stream.IsOf source)
    (hlength : byteLength source.toList ≤ maxSourceLength) : stream.Ordered where
  lt index hindex := by
    have hmem : stream.get index ∈ tokenizeSignificant source := h ▸ stream.get_mem_toList index
    have hle := (span_of_mem_tokenizeSignificant hlength hmem).1
    have hne := (h.get_of_lt hindex).2.2 hlength
    rw [Span.isEmpty, beq_eq_false_iff_ne, ne_eq, ← UInt32.toNat_inj] at hne
    rw [UInt32.le_iff_toNat_le] at hle
    omega
  le index other hlt hother := by
    have hpairwise := ((lexes_tokenize source).pairwise (by omega)).2.filter fun token =>
      !token.kind.isExtra
    have htokens : stream.toList.Pairwise fun first next =>
        first.span.stop.toNat ≤ next.span.start.toNat := by
      rw [show stream.toList = tokenizeSignificant source from h]
      exact hpairwise
    have hsize : other < stream.toList.length := by simp [toList]; omega
    rw [get_eq_getElem (hlt.trans hsize), get_eq_getElem hsize]
    exact List.pairwise_iff_getElem.mp htokens _ _ _ _ hlt

namespace Ordered

theorem start_le (h : stream.Ordered) {index other : Nat} (hle : index ≤ other)
    (hother : other ≤ stream.body.size) :
    (stream.get index).span.start.toNat ≤ (stream.get other).span.start.toNat := by
  rcases Nat.lt_or_eq_of_le hle with hlt | rfl
  · exact (h.lt index (hlt.trans_le hother)).le.trans (h.le index other hlt hother)
  · exact le_rfl

end Ordered

end TokenStream

namespace Covers

variable {stream : TokenStream} {start middle stop : Nat} {node : Node} {nodes more : List Node}

theorem le (h : Covers stream start stop nodes) : start ≤ stop := by
  induction h with
  | nil => exact le_rfl
  | leaf _ _ _ _ ih => omega
  | hollow _ _ _ _ _ ih => exact ih
  | parent _ _ _ _ _ ihInner ihRest => exact ihInner.trans ihRest

theorem append (hfront : Covers stream start middle nodes)
    (hback : Covers stream middle stop more) : Covers stream start stop (nodes ++ more) := by
  induction hfront with
  | nil => exact hback
  | leaf children span bound _ ih => exact .leaf children span bound (ih hback)
  | hollow children kind span bound _ ih => exact .hollow children kind span bound (ih hback)
  | parent head final span inner _ _ ih => exact .parent head final span inner (ih hback)

theorem exists_of_append (h : Covers stream start stop (nodes ++ more)) :
    ∃ middle, Covers stream start middle nodes ∧ Covers stream middle stop more := by
  induction nodes generalizing start with
  | nil => exact ⟨start, .nil start, h⟩
  | cons node nodes ih =>
    cases h with
    | leaf children span bound rest =>
      obtain ⟨middle, hfront, hback⟩ := ih rest
      exact ⟨middle, .leaf children span bound hfront, hback⟩
    | hollow children kind span bound rest =>
      obtain ⟨middle, hfront, hback⟩ := ih rest
      exact ⟨middle, .hollow children kind span bound hfront, hback⟩
    | parent head final span inner rest =>
      obtain ⟨middle, hfront, hback⟩ := ih rest
      exact ⟨middle, .parent head final span inner hfront, hback⟩

theorem withField (h : Covers stream start stop (node :: nodes)) (field : Field) :
    Covers stream start stop (node.withField field :: nodes) := by
  cases h with
  | leaf children span bound rest => exact .leaf children span bound rest
  | hollow children kind span bound rest => exact .hollow children kind span bound rest
  | parent head final span inner rest => exact .parent head final span inner rest

theorem innerInField (h : Covers stream start stop [node]) (field : Field) :
    Covers stream start stop (node.innerInField field) := by
  rcases node.innerInField_eq field with
    ⟨opening, inner, closing, hkind, hchildren, hinner⟩ | hinner <;> rw [hinner]
  · cases h with
    | leaf children => simp [hchildren] at children
    | hollow children => simp [hchildren] at children
    | parent head final span within rest =>
      cases rest
      rw [hchildren, ← List.singleton_append] at within
      obtain ⟨middle, hopening, hrest⟩ := within.exists_of_append
      exact hopening.append (hrest.withField field)
  · exact h.withField field

theorem map_ofToken (hle : start ≤ stop) (hbound : stop ≤ stream.body.size) :
    Covers stream start stop ((stream.slice start stop).map Node.ofToken) := by
  induction stop, hle using Nat.le_induction with
  | base =>
    rw [TokenStream.slice_self]
    exact .nil start
  | succ stop hle ih =>
    rw [stream.slice_succ hle, List.map_append]
    exact (ih (by omega)).append (.leaf rfl rfl hbound (.nil _))

theorem of_spanOf {offset : UInt32} (h : Covers stream start stop node.children)
    (hne : node.children ≠ []) (hspan : node.span = Node.spanOf offset node.children) :
    Covers stream start stop [node] := by
  obtain ⟨first, hfirst⟩ : ∃ first, node.children.head? = some first :=
    ⟨_, List.head?_eq_some_head hne⟩
  obtain ⟨last, hlast⟩ : ∃ last, node.children.getLast? = some last :=
    ⟨_, List.getLast?_eq_some_getLast hne⟩
  refine .parent hfirst hlast ?_ h (.nil stop)
  simp only [hspan, Node.spanOf, hfirst, hlast]

theorem stop_le (h : Covers stream start stop nodes) (hstart : start ≤ stream.body.size) :
    stop ≤ stream.body.size := by
  induction h with
  | nil => exact hstart
  | leaf _ _ bound _ ih => exact ih bound
  | hollow _ _ _ _ _ ih => exact ih hstart
  | parent _ _ _ _ _ ihInner ihRest => exact ihRest (ihInner hstart)

theorem exists_of_mem (h : Covers stream start stop nodes) (hmem : node ∈ nodes) :
    ∃ first last, start ≤ first ∧ Covers stream first last [node] ∧ last ≤ stop := by
  obtain ⟨front, back, rfl⟩ := List.append_of_mem hmem
  obtain ⟨first, hfront, hrest⟩ := h.exists_of_append
  rw [← List.singleton_append] at hrest
  obtain ⟨last, hnode, hback⟩ := hrest.exists_of_append
  exact ⟨first, last, hfront.le, hnode, hback.le⟩

theorem children (h : Covers stream start stop [node]) (hne : node.children ≠ []) :
    Covers stream start stop node.children := by
  cases h with
  | leaf hleaf => exact absurd hleaf hne
  | hollow hleaf => exact absurd hleaf hne
  | parent _ _ _ inner rest =>
    cases rest
    exact inner

theorem throughout {P S : Node → Prop} (h : Covers stream start stop nodes)
    (hstart : start ≤ stream.body.size) (hsound : Throughout S nodes)
    (hP : ∀ node start stop, start ≤ stream.body.size → Covers stream start stop [node] →
      Throughout S [node] → P node) : Throughout P nodes := by
  induction h with
  | nil => exact Node.throughout_nil
  | leaf hleaf span bound _ ih =>
    have hnode := hP _ _ _ hstart (.leaf hleaf span bound (.nil _)) hsound.head
    rw [Node.throughout_cons] at hsound ⊢
    rw [hleaf]
    exact ⟨hnode, Node.throughout_nil, ih bound hsound.2.2⟩
  | hollow hleaf kind span bound _ ih =>
    have hnode := hP _ _ _ hstart (.hollow hleaf kind span bound (.nil _)) hsound.head
    rw [Node.throughout_cons] at hsound ⊢
    rw [hleaf]
    exact ⟨hnode, Node.throughout_nil, ih hstart hsound.2.2⟩
  | parent head final span inner _ ihInner ihRest =>
    have hnode := hP _ _ _ hstart (.parent head final span inner (.nil _)) hsound.head
    rw [Node.throughout_cons] at hsound ⊢
    exact ⟨hnode, ihInner hstart hsound.2.1, ihRest (inner.stop_le hstart) hsound.2.2⟩

section Offsets

theorem start_eq {first : Node} (h : Covers stream start stop nodes)
    (hfirst : nodes.head? = some first) : first.span.start = (stream.get start).span.start := by
  induction h generalizing first with
  | nil => contradiction
  | leaf _ span =>
    obtain rfl := Option.some.inj hfirst
    rw [span]
  | hollow _ _ span =>
    obtain rfl := Option.some.inj hfirst
    rw [span, Span.emptyAt]
  | parent head _ span _ _ ih =>
    obtain rfl := Option.some.inj hfirst
    rw [span]
    exact ih head

theorem eq_or_getLast?_eq {last : Node} (h : (node :: nodes).getLast? = some last) :
    nodes = [] ∧ last = node ∨ nodes.getLast? = some last := by
  cases nodes with
  | nil => exact .inl ⟨rfl, (Option.some.inj h).symm⟩
  | cons next nodes => exact .inr (by simpa using h)

theorem stop_eq {last : Node} (h : Covers stream start stop nodes)
    (hlast : nodes.getLast? = some last) :
    last.span.stop = (stream.get stop).span.start ∨
      start < stop ∧ last.span.stop = (stream.get (stop - 1)).span.stop := by
  induction h generalizing last with
  | nil => contradiction
  | leaf _ span _ rest ih =>
    rcases eq_or_getLast?_eq hlast with ⟨rfl, rfl⟩ | hlast
    · cases rest
      exact .inr ⟨Nat.lt_succ_self _, by rw [span, Nat.add_sub_cancel]⟩
    · exact (ih hlast).imp_right (And.imp_left fun hlt => by omega)
  | hollow _ _ span _ rest ih =>
    rcases eq_or_getLast?_eq hlast with ⟨rfl, rfl⟩ | hlast
    · cases rest
      exact .inl (by rw [span, Span.emptyAt])
    · exact ih hlast
  | parent _ final span inner rest ihInner ihRest =>
    rcases eq_or_getLast?_eq hlast with ⟨rfl, rfl⟩ | hlast
    · cases rest
      rw [span]
      exact ihInner final
    · exact (ihRest hlast).imp_right (And.imp_left fun hlt => inner.le.trans_lt hlt)

variable (hordered : stream.Ordered)

include hordered

theorem bounds (h : Covers stream start stop [node]) (hstart : start ≤ stream.body.size) :
    node.span.start = (stream.get start).span.start ∧
      node.span.start.toNat ≤ node.span.stop.toNat ∧
      (start < stop → node.span.start.toNat < node.span.stop.toNat) ∧
      node.span.stop.toNat ≤ (stream.get stop).span.start.toNat := by
  have hbound := h.stop_le hstart
  have hfirst : node.span.start = (stream.get start).span.start := h.start_eq rfl
  refine ⟨hfirst, ?_⟩
  rw [hfirst]
  rcases h.stop_eq (List.getLast?_singleton) with hlast | ⟨hlt, hlast⟩ <;> rw [hlast]
  · refine ⟨hordered.start_le h.le hbound, fun hlt => ?_, le_rfl⟩
    exact (hordered.lt start (by omega)).trans_le (hordered.le start stop hlt hbound)
  · have hmoved : (stream.get start).span.start.toNat <
        (stream.get (stop - 1)).span.stop.toNat :=
      (hordered.start_le (by omega) (by omega)).trans_lt (hordered.lt (stop - 1) (by omega))
    exact ⟨hmoved.le, fun _ => hmoved, hordered.le (stop - 1) stop (by omega) hbound⟩

theorem isEmpty_eq_false (h : Covers stream start stop [node]) (hstart : start ≤ stream.body.size)
    (hlt : start < stop) : node.span.isEmpty = false := by
  have hspan := (h.bounds hordered hstart).2.2.1 hlt
  rw [Span.isEmpty, beq_eq_false_iff_ne, ne_eq, ← UInt32.toNat_inj]
  exact hspan.ne

end Offsets

theorem errorNode {diagnostic : Diagnostic} (hle : start ≤ stop)
    (hbound : stop ≤ stream.body.size) :
    Covers stream start stop [stream.errorNode start stop diagnostic] := by
  rcases Nat.eq_or_lt_of_le hle with rfl | hlt
  · have hslice := stream.slice_self start
    refine .hollow ?_ rfl ?_ hbound (.nil start) <;>
      simp [TokenStream.errorNode, Node.ofChildren, Node.spanOf, hslice]
  · have hne : stream.slice start stop ≠ [] := by
      simp [TokenStream.slice, List.range'_eq_nil_iff, Nat.sub_eq_zero_iff_le, hlt]
    exact of_spanOf (map_ofToken hle hbound)
      (by simpa [TokenStream.errorNode, Node.ofChildren] using hne) rfl

end Covers

theorem Fragment.covers {dialect : Dialect} {stream : TokenStream} {start stop : Nat}
    {nodes : List Node} (h : Fragment dialect stream start stop nodes) :
    Covers stream start stop nodes := by
  induction h with
  | empty => exact .nil _
  | take _ token ih =>
    exact ih.append (.leaf rfl rfl (TokenStream.lt_of_kind_ne_eof token) (.nil _))
  | takeElse _ token ih =>
    exact ih.append (.leaf rfl rfl (TokenStream.lt_of_kind_ne_eof (by simp [token])) (.nil _))
  | append _ _ ihFront ihBack => exact ihFront.append ihBack
  | label field _ ih =>
    obtain ⟨middle, hfront, hlast⟩ := ih.exists_of_append
    exact hfront.append (hlast.withField field)
  | labelInner field _ ih =>
    obtain ⟨middle, hfront, hlast⟩ := ih.exists_of_append
    exact hfront.append (hlast.innerInField field)
  | wrap offset _ nonempty _ _ ih => exact Covers.of_spanOf ih nonempty rfl
  | error order bound _ => exact Covers.errorNode order bound

end LosslessSyntax
