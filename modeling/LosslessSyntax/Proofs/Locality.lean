import LosslessSyntax.Proofs.SourceFile
import LosslessSyntax.Proofs.Window
/-!
Locality: what a rule does depends on no token but those that its cursor has looked at. So it does
the same, moved, in every stream that has the same tokens there.
-/
namespace LosslessSyntax

namespace Window

variable {old new : TokenStream} (window : Window old new) {expand expand' : Nonterminal → Action}

theorem recover_index (recovery : Recovery) {start : Nat} {diagnostic : Diagnostic}
    {cursor : Cursor} (hstart : window.first ≤ start) (hle : start ≤ cursor.position)
    (hlooked : cursor.position ≤ start ∨ cursor.position ≤ cursor.furthest + 1)
    (h : ¬diagnostic.isInternal)
    (hlast : (old.recover recovery start diagnostic cursor).cursor.furthest ≤ window.last) :
    ∃ node after, old.recover recovery start diagnostic cursor = .done node after ∧
      new.recover recovery (window.index start) (diagnostic.carried window.distance)
          (window.cursor cursor) =
        .done (node.shifted window.distance) (window.cursor after) := by
  unfold TokenStream.recover at hlast ⊢
  rw [if_neg h] at hlast ⊢
  rw [Diagnostic.isInternal_carried, if_neg h]
  refine ⟨_, _, rfl, ?_⟩
  have hskip := Cursor.Reaches.skip recovery start cursor old
  have hexamine := Cursor.Reaches.examine (cursor.skip recovery old start) old start
  have hskipped := hexamine.furthest_le.trans hlast
  have hstop : (cursor.skip recovery old start).position ≤ start ∨
      (cursor.skip recovery old start).position ≤ window.last + 1 := by
    have := hskip.looked
    have := hskip.furthest_le
    omega
  have hclamp : old.clamp start ≤ window.last := (Nat.le_max_right _ _).trans hlast
  simp only [cursor_skip recovery hstart (hstart.trans hle) hskipped, cursor_position,
    cursor_examine hstart hlast, shifted_errorNode hstart hclamp hstop (by simpa using h)]

section Steps

variable {window} {dialect : Dialect} {context : Context} {name : String} {nodes more : List Node}
  {cursor after : Cursor} {rule first next trial otherwise : Rule}

theorem carries_take (kind : Option NodeKind) :
    window.Carries ((Rule.take kind).run expand) ((Rule.take kind).run expand') := by
  intro dialect context name nodes cursor hfirst hlast
  have hclamp := (Cursor.Reaches.clamp_le_advance cursor old).trans hlast
  simp only [Rule.run, cursor_position, get_index hfirst hclamp, cursor_advance hfirst hlast,
    outcome, Node.shiftedAll_append, Node.shiftedAll_singleton, Node.shifted_ofTokenAs]

theorem carries_fail (failure : Failure) :
    window.Carries ((Rule.fail failure).run expand) ((Rule.fail failure).run expand') := by
  intro dialect context name nodes cursor hfirst hlast
  have hclamp := (Nat.le_max_right _ _).trans hlast
  simp only [Rule.run, cursor_position, get_index hfirst hclamp,
    cursor_examineHere hfirst hlast, outcome, Failure.diagnostic_shifted]

theorem carries_wrap (kind : NodeKind) :
    window.Carries ((Rule.wrap kind).run expand) ((Rule.wrap kind).run expand') := by
  intro dialect context name nodes cursor hfirst hlast
  cases nodes with
  | nil =>
    have hclamp := (Nat.le_max_right _ _).trans hlast
    have hmoved : ((old.get cursor.position).shifted window.distance).span.start =
        Span.moveOffset (old.get cursor.position).span.start window.distance := rfl
    simp only [Rule.run, cursor_position, get_index hfirst hclamp, outcome,
      Node.shiftedAll_singleton, Node.shifted_ofChildren fun _ => hmoved, Node.shiftedAll_nil,
      List.isEmpty_nil, if_true, cursor_examineHere hfirst hlast]
  | cons node nodes =>
    have hchildren (start start' : UInt32) :
        (Node.ofChildren kind start (node :: nodes)).shifted window.distance =
          .ofChildren kind start' (Node.shiftedAll window.distance (node :: nodes)) :=
      Node.shifted_ofChildren (by simp)
    simp only [Rule.run, outcome, Node.shiftedAll_singleton]
    rw [hchildren _ (new.get (window.cursor cursor).position).span.start]
    rfl

theorem Carries.apart (h : window.Carries (rule.run expand) (rule.run expand')) :
    window.Carries ((Rule.apart rule).run expand) ((Rule.apart rule).run expand') := by
  intro dialect context name nodes cursor hfirst hlast
  have hmoved := h dialect context name [] cursor hfirst
  simp only [Rule.run] at hlast ⊢
  rcases hrun : rule.run expand ⟨old, dialect, context, name⟩ [] cursor with
    ⟨more, after⟩ | ⟨diagnostic, after⟩
  · rw [hrun, Node.shiftedAll_nil] at hmoved
    simp only [hrun] at hlast
    rw [hmoved hlast]
    simp only [outcome, Node.shiftedAll_append]
  · rw [hrun, Node.shiftedAll_nil] at hmoved
    simp only [hrun] at hlast
    rw [hmoved hlast]
    rfl

variable (hadvances : ∀ name, (expand name).Advances)

include hadvances

theorem Carries.look {next : TokenKind → Rule} (distance : Nat)
    (h : ∀ kind, window.Carries ((next kind).run expand) ((next kind).run expand')) :
    window.Carries ((Rule.look distance next).run expand)
      ((Rule.look distance next).run expand') := by
  intro dialect context name nodes cursor hfirst hlast
  have hreached := (next (old.kind (cursor.position + distance))).run_advances hadvances
    ⟨old, dialect, context, name⟩ nodes (cursor.examine old (cursor.position + distance))
  have hexamined := hreached.furthest_le.trans hlast
  have hindex : window.first ≤ cursor.position + distance := by omega
  have hclamp := (Nat.le_max_right _ _).trans hexamined
  simp only [Rule.run, cursor_position, index_add hfirst, kind_index hindex hclamp,
    cursor_examine hindex hexamined]
  exact h _ dialect context name nodes _ hfirst hlast

theorem Carries.naming (h : window.Carries (rule.run expand) (rule.run expand')) :
    window.Carries ((Rule.naming rule).run expand) ((Rule.naming rule).run expand') := by
  intro dialect context name nodes cursor hfirst hlast
  have hreached := rule.run_advances hadvances
    ⟨old, dialect, context, (old.get cursor.position).value⟩ nodes (cursor.examineHere old)
  have hexamined := hreached.furthest_le.trans hlast
  have hclamp := (Nat.le_max_right _ _).trans hexamined
  simp only [Rule.run, cursor_position, get_index hfirst hclamp, Token.shifted_value,
    cursor_examineHere hfirst hexamined]
  exact h dialect context _ nodes _ hfirst hlast

theorem Carries.chain (hrule : window.Carries (first.run expand) (first.run expand'))
    (hnext : window.Carries (next.run expand) (next.run expand'))
    (hfirst : window.first ≤ cursor.position)
    (hrun : first.run expand ⟨old, dialect, context, name⟩ nodes cursor = .done more after)
    (hlast : (next.run expand ⟨old, dialect, context, name⟩ more after).cursor.furthest ≤
      window.last) :
    first.run expand' ⟨new, dialect, context, name⟩ (Node.shiftedAll window.distance nodes)
        (window.cursor cursor) =
      .done (Node.shiftedAll window.distance more) (window.cursor after) ∧
    next.run expand' ⟨new, dialect, context, name⟩ (Node.shiftedAll window.distance more)
        (window.cursor after) =
      window.outcome (next.run expand ⟨old, dialect, context, name⟩ more after) := by
  have hreached := first.run_advances hadvances ⟨old, dialect, context, name⟩ nodes cursor
  have hmoved := hrule dialect context name nodes cursor hfirst
  rw [hrun] at hreached hmoved
  have hlooked := next.run_advances hadvances ⟨old, dialect, context, name⟩ more after
  refine ⟨hmoved (hlooked.furthest_le.trans hlast), ?_⟩
  exact hnext dialect context name more after (hfirst.trans hreached.position_le) hlast

theorem Carries.seq (hrule : window.Carries (first.run expand) (first.run expand'))
    (hnext : window.Carries (next.run expand) (next.run expand')) :
    window.Carries ((first.seq next).run expand) ((first.seq next).run expand') := by
  intro dialect context name nodes cursor hfirst hlast
  simp only [Rule.run] at hlast ⊢
  rcases hrun : first.run expand ⟨old, dialect, context, name⟩ nodes cursor with
    ⟨more, after⟩ | ⟨diagnostic, after⟩
  · simp only [hrun] at hlast
    obtain ⟨hmoved, hafter⟩ := hrule.chain hadvances hnext hfirst hrun hlast
    rw [hmoved]
    exact hafter
  · have hmoved := hrule dialect context name nodes cursor hfirst
    rw [hrun] at hmoved
    simp only [hrun] at hlast
    rw [hmoved hlast]
    rfl

theorem Carries.attempt (htrial : window.Carries (trial.run expand) (trial.run expand'))
    (hnext : window.Carries (next.run expand) (next.run expand'))
    (hotherwise : window.Carries (otherwise.run expand) (otherwise.run expand')) :
    window.Carries ((Rule.attempt trial next otherwise).run expand)
      ((Rule.attempt trial next otherwise).run expand') := by
  intro dialect context name nodes cursor hfirst hlast
  simp only [Rule.run] at hlast ⊢
  rcases hrun : trial.run expand ⟨old, dialect, context, name⟩ nodes cursor with
    ⟨more, after⟩ | ⟨diagnostic, failed⟩
  · simp only [hrun] at hlast
    obtain ⟨hmoved, hafter⟩ := htrial.chain hadvances hnext hfirst hrun hlast
    rw [hmoved]
    exact hafter
  · have hmoved := htrial dialect context name nodes cursor hfirst
    rw [hrun] at hmoved
    simp only [hrun] at hlast
    have hlooked := otherwise.run_advances hadvances ⟨old, dialect, context, name⟩ nodes
      (failed.rewind cursor.position)
    rw [hmoved (hlooked.furthest_le.trans hlast)]
    exact hotherwise dialect context name nodes (failed.rewind cursor.position) hfirst hlast

theorem Carries.recover (recovery : Recovery)
    (h : window.Carries (rule.run expand) (rule.run expand')) :
    window.Carries ((Rule.recover recovery rule).run expand)
      ((Rule.recover recovery rule).run expand') := by
  intro dialect context name nodes cursor hfirst hlast
  have hreached := rule.run_advances hadvances ⟨old, dialect, context, name⟩ [] cursor
  have hmoved := h dialect context name [] cursor hfirst
  simp only [Rule.run] at hlast ⊢
  rcases hrun : rule.run expand ⟨old, dialect, context, name⟩ [] cursor with
    ⟨more, after⟩ | ⟨diagnostic, failed⟩
  · rw [hrun, Node.shiftedAll_nil] at hmoved
    simp only [hrun] at hlast
    rw [hmoved hlast]
    simp only [outcome, Node.shiftedAll_append]
  · have hfailed : cursor.Reaches old failed := by
      rw [hrun] at hreached
      exact hreached
    rw [hrun, Node.shiftedAll_nil] at hmoved
    simp only [hrun] at hlast
    by_cases hinternal : diagnostic.isInternal
    · simp only [TokenStream.recover, hinternal, if_true] at hlast ⊢
      simp only [hmoved hlast, outcome, Diagnostic.isInternal_carried, hinternal, if_true]
    · have hskipped := old.reaches_recover recovery cursor.position diagnostic failed
      have hfurthest : (old.recover recovery cursor.position diagnostic failed).cursor.furthest ≤
          window.last := by
        split at hlast <;> rename_i hrecover <;> rw [hrecover] <;> exact hlast
      obtain ⟨node, after, hdone, hdone'⟩ := window.recover_index recovery hfirst
        hfailed.position_le hfailed.looked hinternal hfurthest
      rw [hmoved (hskipped.furthest_le.trans hfurthest)]
      simp only [outcome, cursor_position, hdone, hdone', Node.shiftedAll_append,
        Node.shiftedAll_singleton]

end Steps

/-- Rules look at no more than their cursor records, if that holds of the nonterminals they call. -/
theorem carries_run (hadvances : ∀ name, (expand name).Advances)
    (hexpand : ∀ name, window.Carries (expand name) (expand' name)) (rule : Rule) :
    window.Carries (rule.run expand) (rule.run expand') := by
  induction rule with
  | empty => exact fun _ _ _ _ _ _ _ => rfl
  | seq first next ihFirst ihNext => exact ihFirst.seq hadvances ihNext
  | take kind => exact carries_take kind
  | look distance next ih => exact .look hadvances distance ih
  | fail failure => exact carries_fail failure
  | label field =>
    intro dialect context name nodes cursor hfirst hlast
    simp only [Rule.run, outcome]
    rw [replaceLast_shiftedAll]
    simp
  | labelInner field =>
    intro dialect context name nodes cursor hfirst hlast
    simp only [Rule.run, outcome]
    rw [replaceLast_shiftedAll]
    simp
  | wrap kind => exact carries_wrap kind
  | apart rule ih => exact ih.apart
  | call callee => exact hexpand callee
  | within inner rule ih => exact fun dialect _ => ih dialect inner
  | byContext next ih => exact fun dialect context => ih context dialect context
  | byDialect next ih => exact fun dialect => ih dialect dialect
  | byOperand next ih =>
    intro dialect context name nodes cursor hfirst hlast
    simp only [Rule.run, Operand.ofNodes_shiftedAll]
    exact ih _ dialect context name nodes cursor hfirst hlast
  | recover recovery rule ih => exact ih.recover hadvances recovery
  | attempt trial next otherwise ihTrial ihNext ihOtherwise =>
    exact ihTrial.attempt hadvances ihNext ihOtherwise
  | naming rule ih => exact ih.naming hadvances

theorem carries_nonterminal (depth : Nat) (name : Nonterminal) :
    window.Carries (name.run depth) (name.run depth) := by
  induction depth generalizing name with
  | zero =>
    intro _ _ _ _ _ _ _
    rfl
  | succ depth ih => exact window.carries_run (Nonterminal.run_advances depth) ih name.rule

theorem parseItem_eq_done {dialect : Dialect} {item : Node × ItemExtent} {after : Cursor}
    (hkind : old.kind window.first ≠ .eof)
    (hread : (Setting.top old dialect).parseItem ⟨window.first, window.first⟩ = .done item after)
    (hlast : item.2.lookahead ≤ window.last) :
    (Setting.top new dialect).parseItem ⟨window.first', window.first'⟩ =
      .done (item.1.shifted window.distance, ⟨window.first', window.index item.2.endToken,
        window.index item.2.lookahead⟩) (window.cursor after) := by
  obtain ⟨hrun, hextent⟩ := Setting.parseItem_eq_done_iff.mp hread
  -- the depth to which calls may nest depends on the stream, so both are read with the greater one
  obtain ⟨depth, hold, hnew⟩ :
      ∃ depth, Nonterminal.callDepth old ≤ depth ∧ Nonterminal.callDepth new ≤ depth :=
    ⟨_, Nat.le_max_left _ _, Nat.le_max_right _ _⟩
  rw [Cursor.resetFurthest, ← Rule.run_itemOrError_of_le dialect hold hkind] at hrun
  have hlooked : after.furthest ≤ window.last := by
    rw [hextent] at hlast
    exact (Nat.le_max_left _ _).trans hlast
  have hreached := Rule.itemOrError.run_advances (Nonterminal.run_advances depth)
    (.top old dialect) [] ⟨window.first, window.first⟩
  rw [hrun] at hreached
  have hfirst : window.first ≤ after.furthest := hreached.furthest_le
  have hmoved := window.carries_run (Nonterminal.run_advances depth)
    (window.carries_nonterminal depth) Rule.itemOrError dialect .statement "" []
    ⟨window.first, window.first⟩ le_rfl (hrun ▸ hlooked)
  have hstart : window.cursor ⟨window.first, window.first⟩ = ⟨window.first', window.first'⟩ := by
    simp [Window.cursor, Window.index]
  have hclamp : old.clamp window.first ≤ window.last :=
    (Nat.min_le_left _ _).trans (hfirst.trans hlooked)
  have hkind' : new.kind window.first' ≠ .eof := by
    have hsame := kind_index le_rfl hclamp
    rw [Window.index, Nat.sub_self, Nat.zero_add] at hsame
    rwa [hsame]
  have hrun' : Rule.itemOrError.run Nonterminal.action (.top new dialect) []
      ⟨window.first', window.first'⟩ =
        .done [item.1.shifted window.distance] (window.cursor after) := by
    rw [← Rule.run_itemOrError_of_le dialect hnew hkind', ← hstart]
    refine hmoved.trans ?_
    rw [show (⟨old, dialect, .statement, ""⟩ : Setting) = .top old dialect from rfl, hrun]
    rfl
  refine Setting.parseItem_eq_done_iff.mpr ⟨hrun', ?_⟩
  have hfurthest : window.index (max after.furthest after.position) =
      max (window.index after.furthest) (window.index after.position) := by
    unfold Window.index
    omega
  simp only [hextent, hfurthest, Window.cursor]

end Window

namespace TokenStream

def EndsOnce (stream : TokenStream) : Prop := ∀ token ∈ stream.body, token.kind ≠ .eof

instance (stream : TokenStream) : Decidable stream.EndsOnce :=
  inferInstanceAs (Decidable (∀ token ∈ stream.body, token.kind ≠ .eof))

theorem EndsOnce.le_of_kind_eq_eof {stream : TokenStream} (h : stream.EndsOnce) {index : Nat}
    (hkind : stream.kind index = .eof) : stream.body.size ≤ index := by
  by_contra hlt
  have hindex : index < stream.body.size := by omega
  have hget : stream.get index = stream.body[index] := by simp [get, hindex]
  rw [kind, hget] at hkind
  exact h _ (Array.getElem_mem hindex) hkind

theorem get?_eq_some_iff {stream : TokenStream} {index : Nat} {token : Token} :
    stream.get? index = some token ↔ index ≤ stream.body.size ∧ stream.get index = token := by
  simp only [get?, size, Nat.lt_succ_iff, Option.ite_none_right_eq_some, Option.some.injEq]

end TokenStream

/-- What an item is depends on the tokens from its first up to its lookahead and on nothing else.
Wherever these stand, in whatever stream, at whatever distance in the text, the same item is read,
moved, and it ends and depends as many tokens on. -/
theorem Setting.parseItem_translated {stream : TokenStream} (dialect : Dialect) (cursor : Cursor)
    (h : stream.kind cursor.position ≠ .eof) :
    ∃ node stop lookahead after,
      (top stream dialect).parseItem cursor =
        .done (node, ⟨cursor.position, stop, lookahead⟩) after ∧
      ∀ (other : TokenStream) (distance : Int) (place : Cursor), other.EndsOnce →
        (∀ index, cursor.position ≤ index → index ≤ lookahead →
          other.get? (place.position + (index - cursor.position)) =
            some ((stream.get index).shifted distance)) →
        ∃ after', (top other dialect).parseItem place =
          .done (node.shifted distance, ⟨place.position, place.position + (stop - cursor.position),
            place.position + (lookahead - cursor.position)⟩) after' := by
  obtain ⟨⟨node, extent⟩, after, hread, hitem, -⟩ := parseItem_eq_done dialect cursor h
  have hlooked := hitem.lt.le.trans hitem.looked
  obtain ⟨first, stop, lookahead⟩ := extent
  obtain rfl : first = cursor.position := hitem.first
  refine ⟨node, stop, lookahead, after, hread, fun other distance place hends hsame => ?_⟩
  have hlast := (TokenStream.get?_eq_some_iff.mp (hsame lookahead hlooked le_rfl)).1
  let window : Window stream other := .ofTokens distance cursor.position place.position lookahead
    (hlooked.trans hitem.bound) (by omega) (fun _ => hends.le_of_kind_eq_eof)
    fun index hindex hle => by
      rw [Nat.add_comm]
      exact (TokenStream.get?_eq_some_iff.mp (hsame index hindex hle)).2
  have hmoved := window.parseItem_eq_done h hread le_rfl
  refine ⟨window.cursor after, hmoved.trans ?_⟩
  simp only [window, Window.index, Window.ofTokens, Nat.add_comm]

/-- An import depends on the token behind it, which might have been a dot. Whatever comes after that
may differ. -/
theorem Setting.parseItem_translated_import :
    let stream : TokenStream := ⟨#[⟨.importKeyword, "import", ⟨0, 6⟩⟩, ⟨.identifier, "a", ⟨7, 8⟩⟩,
      ⟨.pubKeyword, "pub", ⟨9, 12⟩⟩], ⟨.eof, "EOF", ⟨12, 12⟩⟩, rfl⟩
    let other : TokenStream := ⟨#[⟨.semicolon, ";", ⟨0, 1⟩⟩, ⟨.importKeyword, "import", ⟨4, 10⟩⟩,
      ⟨.identifier, "a", ⟨11, 12⟩⟩, ⟨.pubKeyword, "pub", ⟨13, 16⟩⟩, ⟨.fnKeyword, "fn", ⟨17, 19⟩⟩],
      ⟨.eof, "EOF", ⟨19, 19⟩⟩, rfl⟩
    stream.kind 0 ≠ .eof ∧ other.EndsOnce ∧ ∃ node after after',
      (top stream .canonical).parseItem ⟨0, 0⟩ = .done (node, ⟨0, 2, 2⟩) after ∧
      (top other .canonical).parseItem ⟨1, 0⟩ = .done (node.shifted 4, ⟨1, 3, 3⟩) after' := by
  intro stream other
  have hkind : stream.kind 0 ≠ .eof := by decide
  have hends : other.EndsOnce := by decide
  obtain ⟨node, stop, lookahead, after, hread, hother⟩ :=
    parseItem_translated .canonical ⟨0, 0⟩ hkind
  obtain ⟨rfl, rfl⟩ : stop = 2 ∧ lookahead = 2 := by
    obtain ⟨node', after', hdone⟩ : ∃ node' after', (top stream .canonical).parseItem ⟨0, 0⟩ =
      .done (node', ⟨0, 2, 2⟩) after' := ⟨_, _, rfl⟩
    rw [hread] at hdone
    simp only [Outcome.done.injEq, Prod.mk.injEq, ItemExtent.mk.injEq] at hdone
    exact hdone.1.2.2
  obtain ⟨after', hread'⟩ := hother other 4 ⟨1, 0⟩ hends (by decide)
  exact ⟨hkind, hends, node, after, after', hread, hread'⟩

end LosslessSyntax
