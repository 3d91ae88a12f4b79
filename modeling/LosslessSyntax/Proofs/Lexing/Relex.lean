import LosslessSyntax.Edit.Relex
import LosslessSyntax.Proofs.Lexing.Bytes
import LosslessSyntax.Proofs.Lexing.Settled
import LosslessSyntax.Proofs.Lexing.Tokens
import Mathlib.Data.List.TakeWhile
/-!
Incremental lexing gives what lexing the whole source gives: the tokens that are kept are settled
without a look at what has changed, and those behind the change are as they were, but for their
place.
-/
namespace LosslessSyntax

open Text (byteLength)

namespace Span

theorem moveOffset_ofNat {offset offset' : Nat} {distance : Int}
    (h : offset ≤ maxSourceLength) (hmove : (offset : Int) + distance = offset') :
    moveOffset (UInt32.ofNat offset) distance = UInt32.ofNat offset' := by
  have hoffset : (UInt32.ofNat offset).toNat = offset := by
    unfold maxSourceLength at h
    rw [UInt32.toNat_ofNat']
    omega
  rw [moveOffset, hoffset, hmove]
  apply UInt32.toNat_inj.mp
  simp only [UInt32.ofInt, UInt32.toNat_ofNat']
  omega

theorem toNat_moveOffset {offset : UInt32} {distance : Int} {offset' : Nat}
    (hmove : (offset.toNat : Int) + distance = offset') (h : offset' ≤ maxSourceLength) :
    (moveOffset offset distance).toNat = offset' := by
  unfold maxSourceLength at h
  rw [moveOffset, hmove, UInt32.ofInt, UInt32.toNat_ofNat']
  omega

theorem shifted_ofOffsets {start start' stop stop' : Nat} {distance : Int}
    (hstart : start ≤ maxSourceLength) (hstop : stop ≤ maxSourceLength)
    (hstart' : (start : Int) + distance = start') (hstop' : (stop : Int) + distance = stop') :
    (ofOffsets start stop).shifted distance = ofOffsets start' stop' := by
  simp only [ofOffsets, shifted, moveOffset_ofNat hstart hstart', moveOffset_ofNat hstop hstop']

end Span

theorem significantTokens_cons (token : Token) (tokens : List Token) :
    significantTokens (token :: tokens) =
      if token.kind.isExtra then significantTokens tokens
      else token :: significantTokens tokens := by
  cases hextra : token.kind.isExtra <;> simp [significantTokens, hextra]

theorem significantTokens_map_shifted (tokens : List Token) (distance : Int) :
    significantTokens (tokens.map (·.shifted distance)) =
      (significantTokens tokens).map (·.shifted distance) := by
  simp [significantTokens, List.filter_map, Function.comp_def]

namespace Lexes

theorem eq_map_shifted {offset offset' : Nat} {text : List Char} {tokens tokens' : List Token}
    {distance : Int} (h : Lexes offset text tokens) (h' : Lexes offset' text tokens')
    (hbound : offset + byteLength text ≤ maxSourceLength)
    (hmove : (offset : Int) + distance = offset') :
    tokens' = tokens.map (·.shifted distance) := by
  induction h generalizing offset' tokens' with
  | finish offset =>
    cases h'
    simp only [byteLength, Nat.add_zero] at hbound
    simp [Token.endOfFile, Token.shifted, Span.shifted_ofOffsets hbound hbound hmove hmove]
  | @lexeme offset c rest back lexeme tokens first text tail ih =>
    cases h' with
    | lexeme first' text' tail' =>
      subst first first'
      obtain rfl := List.append_cancel_left (text.symm.trans text')
      rw [text, Text.byteLength_append] at hbound
      have hstop : (offset + byteLength (Lexeme.first c rest).text : Nat) + distance =
          (offset' + byteLength (Lexeme.first c rest).text : Nat) := by
        omega
      rw [ih tail' (by omega) hstop, List.map_cons]
      congr 1
      simp only [Lexeme.token, Token.shifted,
        Span.shifted_ofOffsets (by omega) (by omega) hmove hstop]

theorem exists_tail {offset : Nat} {text : List Char} {tokens before after : List Token}
    {token : Token} (h : Lexes offset text tokens)
    (htokens : significantTokens tokens = before ++ token :: after)
    (hbound : offset + byteLength text ≤ maxSourceLength) :
    ∃ front back rest, text = front ++ back ∧
      token.span.start.toNat = offset + byteLength front ∧
      Lexes (offset + byteLength front) back rest ∧ significantTokens rest = token :: after := by
  induction h generalizing before with
  | finish offset =>
    obtain ⟨rfl, rfl, rfl⟩ : before = [] ∧ token = Token.endOfFile offset ∧ after = [] := by
      simpa [significantTokens, Token.endOfFile, TokenKind.isExtra,
        List.singleton_eq_append_iff] using htokens
    exact ⟨[], [], _, rfl, Token.start_endOfFile hbound, .finish offset, rfl⟩
  | @lexeme offset c rest back lexeme tokens first text tail ih =>
    have hlexeme := Lexes.lexeme first text tail
    have htotal := hbound
    rw [text, Text.byteLength_append] at htotal
    have hlater {before : List Token}
        (htokens : significantTokens tokens = before ++ token :: after) :
        ∃ front behind rest', c :: rest = front ++ behind ∧
          token.span.start.toNat = offset + byteLength front ∧
          Lexes (offset + byteLength front) behind rest' ∧
          significantTokens rest' = token :: after := by
      obtain ⟨front, behind, rest', rfl, hstart, hrest, hafter⟩ := ih htokens (by omega)
      rw [Nat.add_assoc, ← Text.byteLength_append] at hstart hrest
      exact ⟨lexeme.text ++ front, behind, rest', by rw [text, List.append_assoc], hstart, hrest,
        hafter⟩
    rw [significantTokens_cons] at htokens
    split at htokens
    · exact hlater htokens
    · rename_i hextra
      cases before with
      | nil =>
        obtain ⟨rfl, rfl⟩ := List.cons.inj htokens
        exact ⟨[], c :: rest, _, rfl, lexeme.start_token (by omega), hlexeme, by
          rw [significantTokens_cons, if_neg hextra]⟩
      | cons _ before => exact hlater (List.cons.inj htokens).2

end Lexes

namespace ChangedRange.Agrees

variable {range : ChangedRange} {oldText newText front back front' back' : List Char}

theorem delta_eq (h : range.Agrees oldText newText) (hold : byteLength oldText ≤ maxSourceLength)
    (hnew : byteLength newText ≤ maxSourceLength) :
    range.delta = (range.newEnd : Int) - range.oldEnd := by
  obtain ⟨-, -, holdEnd, hnewEnd, -⟩ := h
  unfold maxSourceLength at hold hnew
  rw [ChangedRange.delta, Int.bmod_eq_of_le] <;> omega

theorem front_eq (h : range.Agrees oldText newText) (hold : oldText = front ++ back)
    (hnew : newText = front' ++ back') (hbefore : byteLength front ≤ range.start)
    (hplace : byteLength front = byteLength front') : front = front' := by
  obtain ⟨-, -, -, -, -, htake, -⟩ := h
  have hbytes := congrArg (List.take (byteLength front)) htake
  rw [List.take_take, List.take_take, Nat.min_eq_left hbefore, hold, hnew,
    Text.take_bytes_append, hplace, Text.take_bytes_append] at hbytes
  exact Text.bytes_injective hbytes

theorem back_eq (h : range.Agrees oldText newText) (hold : oldText = front ++ back)
    (hnew : newText = front' ++ back') (hbehind : range.newEnd ≤ byteLength front')
    (hplace : byteLength front + range.newEnd = byteLength front' + range.oldEnd) :
    back = back' := by
  obtain ⟨-, -, -, -, -, -, hdrop⟩ := h
  have hbytes := congrArg (List.drop (byteLength front' - range.newEnd)) hdrop
  rw [List.drop_drop, List.drop_drop, Nat.add_sub_cancel' hbehind,
    (by omega : range.oldEnd + (byteLength front' - range.newEnd) = byteLength front), hold, hnew,
    Text.drop_bytes_append, Text.drop_bytes_append] at hbytes
  exact Text.bytes_injective hbytes

end ChangedRange.Agrees

namespace Relex

variable {old : List Token} {range : ChangedRange}

theorem settled_of_lookaheadEnd_lt {lexeme : Lexeme} {offset : Nat}
    (hbegins : lexeme.value = Lexeme.decode lexeme.kind lexeme.text)
    (hlookahead : (lexeme.token offset).lookaheadEnd < range.start)
    (hrange : range.start ≤ maxSourceLength) (hstop : offset + byteLength lexeme.text ≤ maxSourceLength) :
    ¬lexeme.IsOpenString ∧ offset + byteLength lexeme.text + 16 < range.start := by
  unfold Token.lookaheadEnd at hlookahead
  split at hlookahead
  · omega
  · rename_i hscans
    constructor
    · rintro ⟨hkind, hquote⟩
      apply hscans
      rcases hkind with hkind | hkind <;>
        simp [Token.scansToEnd, Lexeme.token, hkind, hbegins, Lexeme.decode, hquote]
    · rw [Lexeme.stop_token hstop] at hlookahead
      unfold Token.lookaheadSlack at hlookahead
      omega

theorem kept_cons (token : Token) (tokens : List Token) :
    kept (token :: tokens) range =
      if token.kind != .eof && decide (token.lookaheadEnd < range.start) then
        token :: kept tokens range
      else [] := by
  simp only [kept, List.takeWhile_cons]

def placeBehind (offset : Nat) (tokens : List Token) : Nat :=
  (tokens.getLast?.map (·.span.stop.toNat)).getD offset

theorem placeBehind_cons (offset : Nat) (token : Token) (tokens : List Token) :
    placeBehind offset (token :: tokens) = placeBehind token.span.stop.toNat tokens := by
  cases tokens with
  | nil => rfl
  | cons next tokens =>
    obtain ⟨last, hlast⟩ : ∃ last, (next :: tokens).getLast? = some last := by
      simp [List.getLast?_cons]
    simp only [placeBehind, List.getLast?_cons_cons, hlast, Option.map_some, Option.getD_some]

theorem lexes_of_settled (offset : Nat) {front back behind rest : List Char} {c : Char}
    {lexeme : Lexeme} (first : Lexeme.first c rest = lexeme) (text : c :: rest = lexeme.text ++ behind)
    (htext : c :: rest = front ++ back) (hopen : ¬lexeme.IsOpenString)
    (hend : byteLength lexeme.text + 14 ≤ byteLength front) :
    ∃ tail, front = lexeme.text ++ tail ∧ behind = tail ++ back ∧
      ∀ back' tokens, Lexes (offset + byteLength lexeme.text) (tail ++ back') tokens →
        Lexes offset (front ++ back') (lexeme.token offset :: tokens) := by
  obtain ⟨tail, rfl⟩ : lexeme.text <+: front :=
    Text.prefix_of_byteLength_le ⟨behind, rfl⟩ (text ▸ htext ▸ List.prefix_append front back)
      (by omega)
  refine ⟨tail, rfl, ?_, fun back' tokens htokens => ?_⟩
  · rw [text, List.append_assoc] at htext
    exact List.append_cancel_left htext
  · rcases hcons : lexeme.text ++ tail with _ | ⟨d, more⟩
    · rw [hcons] at hend
      simp at hend
    · rw [hcons, List.cons_append] at htext
      obtain ⟨rfl, rfl⟩ := List.cons.inj htext
      rw [hcons] at hend
      subst first
      rw [List.cons_append]
      refine .lexeme (Lexeme.first_settled back' hend hopen) ?_ htokens
      rw [← List.cons_append, ← hcons, List.append_assoc]

/-- A text holds tokens if every text that goes on from it in another way has them first, and the
place behind them is in it. -/
def HeldBy (offset : Nat) (front : List Char) (tokens : List Token) : Prop :=
  ∃ first rest, front = first ++ rest ∧ placeBehind offset tokens = offset + byteLength first ∧
    ∀ back tokens', Lexes (offset + byteLength first) (rest ++ back) tokens' →
      ∃ all, Lexes offset (front ++ back) all ∧
        significantTokens all = tokens ++ significantTokens tokens'

theorem heldBy_nil (offset : Nat) (front : List Char) : HeldBy offset front [] :=
  ⟨[], front, rfl, rfl, fun _ tokens' h => ⟨tokens', h, rfl⟩⟩

section

variable {offset : Nat} {front : List Char} {lexeme : Lexeme} {tokens : List Token}
  (hsettled : ∀ back tokens', Lexes (offset + byteLength lexeme.text) (front ++ back) tokens' →
    Lexes offset (lexeme.text ++ front ++ back) (lexeme.token offset :: tokens'))
  (h : HeldBy (offset + byteLength lexeme.text) front tokens)

include hsettled h

theorem HeldBy.cons (hextra : ¬(lexeme.token offset).kind.isExtra)
    (hstop : offset + byteLength lexeme.text ≤ maxSourceLength) :
    HeldBy offset (lexeme.text ++ front) (lexeme.token offset :: tokens) := by
  obtain ⟨first, rest, rfl, hplace, hrest⟩ := h
  refine ⟨lexeme.text ++ first, rest, by rw [List.append_assoc], ?_, fun back tokens' htokens => ?_⟩
  · rw [placeBehind_cons, Lexeme.stop_token hstop, hplace, Text.byteLength_append, Nat.add_assoc]
  · rw [Text.byteLength_append, ← Nat.add_assoc] at htokens
    obtain ⟨all, hall, hsignificant⟩ := hrest back tokens' htokens
    refine ⟨_, hsettled back all hall, ?_⟩
    rw [significantTokens_cons, if_neg hextra, hsignificant, List.cons_append]

theorem HeldBy.extra (hextra : (lexeme.token offset).kind.isExtra) (hne : tokens ≠ []) :
    HeldBy offset (lexeme.text ++ front) tokens := by
  obtain ⟨first, rest, rfl, hplace, hrest⟩ := h
  refine ⟨lexeme.text ++ first, rest, by rw [List.append_assoc], ?_, fun back tokens' htokens => ?_⟩
  · obtain ⟨token, more, rfl⟩ := List.exists_cons_of_ne_nil hne
    rw [placeBehind_cons] at hplace ⊢
    rw [hplace, Text.byteLength_append, Nat.add_assoc]
  · rw [Text.byteLength_append, ← Nat.add_assoc] at htokens
    obtain ⟨all, hall, hsignificant⟩ := hrest back tokens' htokens
    refine ⟨_, hsettled back all hall, ?_⟩
    rw [significantTokens_cons, if_pos hextra, hsignificant]

end

theorem end_lt_of_mem_kept {offset : Nat} {text : List Char} {tokens : List Token} {token : Token}
    (h : Lexes offset text tokens) (hbound : offset + byteLength text ≤ maxSourceLength)
    (hmax : range.start ≤ maxSourceLength) (hmem : token ∈ kept (significantTokens tokens) range) :
    offset + 16 < range.start := by
  obtain ⟨hkind, hlookahead⟩ : token.kind ≠ .eof ∧ token.lookaheadEnd < range.start := by
    simpa using List.mem_takeWhile_imp hmem
  obtain ⟨before, lexeme, after, rfl, rfl, hlexeme⟩ :=
    h.eq_token_of_mem (List.mem_of_mem_filter (List.takeWhile_subset _ hmem)) hkind
  simp only [Text.byteLength_append] at hbound
  obtain ⟨-, hend⟩ := settled_of_lookaheadEnd_lt hlexeme.value_eq hlookahead hmax (by omega)
  omega

theorem lexes_kept (range : ChangedRange) {offset : Nat} {front back text : List Char} {tokens : List Token}
    (h : Lexes offset text tokens) (htext : text = front ++ back)
    (hbound : offset + byteLength text ≤ maxSourceLength)
    (hrange : range.start ≤ offset + byteLength front + 3) (hmax : range.start ≤ maxSourceLength) :
    HeldBy offset front (kept (significantTokens tokens) range) := by
  induction h generalizing front with
  | finish offset => exact heldBy_nil offset front
  | @lexeme offset c rest behind lexeme tokens first text tail ih =>
    have hbegins := first ▸ Lexeme.begins_first c rest
    rw [text, Text.byteLength_append] at hbound
    -- behind a settled lexeme the text holds what is kept of the tokens there
    have hstep (hopen : ¬lexeme.IsOpenString)
        (hend : offset + byteLength lexeme.text + 16 < range.start) :
        ∃ front', front = lexeme.text ++ front' ∧
          (∀ back' tokens', Lexes (offset + byteLength lexeme.text) (front' ++ back') tokens' →
            Lexes offset (lexeme.text ++ front' ++ back') (lexeme.token offset :: tokens')) ∧
          HeldBy (offset + byteLength lexeme.text) front'
            (kept (significantTokens tokens) range) := by
      obtain ⟨front', rfl, rfl, hsettled⟩ :=
        lexes_of_settled offset first text htext hopen (by omega)
      rw [Text.byteLength_append] at hrange
      exact ⟨front', rfl, hsettled, ih rfl (by omega) (by omega)⟩
    rw [significantTokens_cons]
    split
    · -- an extra token is settled if one is kept behind it
      rename_i hextra
      by_cases hne : kept (significantTokens tokens) range = []
      · rw [hne]
        exact heldBy_nil offset front
      obtain ⟨next, hnext⟩ := List.exists_mem_of_ne_nil _ hne
      have hopen : ¬lexeme.IsOpenString := by
        rintro ⟨hkind | hkind, -⟩ <;> simp [Lexeme.token, hkind, TokenKind.isExtra] at hextra
      obtain ⟨front', rfl, hsettled, hheld⟩ :=
        hstep hopen (end_lt_of_mem_kept tail (by omega) hmax hnext)
      exact hheld.extra hsettled hextra hne
    · rename_i hextra
      rw [kept_cons]
      split
      · rename_i hkeep
        simp only [Bool.and_eq_true, decide_eq_true_eq] at hkeep
        obtain ⟨hopen, hend⟩ :=
          settled_of_lookaheadEnd_lt hbegins.value_eq hkeep.2 hmax (by omega)
        obtain ⟨front', rfl, hsettled, hheld⟩ := hstep hopen hend
        exact hheld.cons hsettled hextra (by omega)
      · exact heldBy_nil offset front

theorem exists_tailAt? {text : List Char} {tokens tail : List Token} {start : UInt32}
    (h : Lexes 0 text tokens) (hbound : byteLength text ≤ maxSourceLength)
    (htail : tailAt? (significantTokens tokens) start = some tail) :
    ∃ front back rest, text = front ++ back ∧ start.toNat = byteLength front ∧
      Lexes (byteLength front) back rest ∧ significantTokens rest = tail := by
  have hdrop : (significantTokens tokens).dropWhile (fun token => token.span.start != start) =
      tail ∧ tail ≠ [] := by
    unfold tailAt? at htail
    split at htail
    · contradiction
    · rename_i hne
      obtain rfl := Option.some.inj htail
      exact ⟨rfl, hne⟩
  obtain ⟨hdrop, hne⟩ := hdrop
  obtain ⟨token, after, rfl⟩ := List.exists_cons_of_ne_nil hne
  have hstart : token.span.start = start := by
    have hhead := List.head_dropWhile_not (fun token : Token => token.span.start != start)
      (hdrop ▸ List.cons_ne_nil token after)
    simpa [hdrop] using hhead
  have hsplit := List.takeWhile_append_dropWhile (p := fun token : Token => token.span.start != start)
    (l := significantTokens tokens)
  rw [hdrop] at hsplit
  obtain ⟨front, back, rest, htext, hplace, hrest, hafter⟩ := h.exists_tail hsplit.symm (by omega)
  rw [Nat.zero_add] at hplace hrest
  exact ⟨front, back, rest, htext, hstart ▸ hplace, hrest, hafter⟩

theorem splice_eq {oldText newText : List Char} {oldTokens tokens before fresh : List Token}
    (hagrees : range.Agrees oldText newText) (hold : Lexes 0 oldText oldTokens)
    (hnew : Lexes 0 newText tokens) (hfresh : significantTokens tokens = before ++ fresh)
    (holdBound : byteLength oldText ≤ maxSourceLength)
    (hnewBound : byteLength newText ≤ maxSourceLength) :
    splice (significantTokens oldTokens) range fresh = fresh := by
  induction fresh generalizing before with
  | nil => rfl
  | cons token fresh ih =>
    have hbefore : significantTokens tokens = (before ++ [token]) ++ fresh := by simpa using hfresh
    have hkeep : token :: splice (significantTokens oldTokens) range fresh = token :: fresh := by
      rw [ih hbefore]
    simp only [splice]
    split
    · rename_i tail htail
      split at htail
      · contradiction
      rename_i hbehind
      obtain ⟨front', back', rest', htext', hstart', hrest', hfresh'⟩ :=
        hnew.exists_tail hfresh (by omega)
      obtain ⟨front, back, rest, htext, hstart, hrest, rfl⟩ := exists_tailAt? hold holdBound htail
      rw [Nat.zero_add] at hstart' hrest'
      have hdelta := hagrees.delta_eq holdBound hnewBound
      have hplace : byteLength front + range.newEnd = byteLength front' + range.oldEnd := by
        obtain ⟨-, -, holdEnd, hnewEnd, hbehindEnd, -⟩ := id hagrees
        have hlength := congrArg byteLength htext'
        rw [Text.byteLength_append] at hlength
        have hmoved : (Span.moveOffset token.span.start (-range.delta)).toNat =
            byteLength front' - range.newEnd + range.oldEnd :=
          Span.toNat_moveOffset (by omega) (by omega)
        omega
      obtain rfl := hagrees.back_eq htext htext' (by omega) hplace
      have hmoved : rest' = rest.map (·.shifted range.delta) := by
        rw [htext, Text.byteLength_append] at holdBound
        exact hrest.eq_map_shifted hrest' holdBound (by omega)
      rw [← significantTokens_map_shifted, ← hmoved, hfresh']
    · exact hkeep

end Relex

theorem relex_eq {oldSource source : String} {range : ChangedRange}
    (hagrees : range.Agrees oldSource.toList source.toList)
    (hold : byteLength oldSource.toList ≤ maxSourceLength)
    (hnew : byteLength source.toList ≤ maxSourceLength) :
    relex source (tokenizeSignificant oldSource) range = tokenizeSignificant source := by
  have holdLexes := lexes_tokenize oldSource
  obtain ⟨hstart, hstart', holdEnd, hnewEnd, -, htake, -⟩ := id hagrees
  obtain ⟨front, back, back', hfront, hfront', hlong⟩ :=
    Text.exists_common_front (hstart.trans holdEnd) (hstart'.trans hnewEnd) htake
  obtain ⟨first, rest, rfl, hplace, hkept⟩ :=
    Relex.lexes_kept range holdLexes hfront (by omega) (by omega) (by omega)
  obtain ⟨all, hall, hsignificant⟩ := hkept back' _ (lexes_tokens _ _)
  rw [← hfront'] at hall
  obtain rfl := hall.unique (lexes_tokenize source)
  rw [Nat.zero_add] at hplace hsignificant
  have hrestart : Lexer.startingAt source (byteLength first) =
      ⟨byteLength first, rest ++ back', false⟩ :=
    Lexer.startingAt_append (by rw [hfront', List.append_assoc])
  have hsplice := Relex.splice_eq hagrees holdLexes (lexes_tokenize source) hsignificant hold hnew
  have hkeptOld : Relex.placeBehind 0 (Relex.kept (tokenizeSignificant oldSource) range) =
    byteLength first := hplace
  unfold Relex.placeBehind at hkeptOld
  simp only [relex, hkeptOld, hrestart]
  rw [tokenizeSignificant, tokenizeSignificant, hsplice, hsignificant]

/-- Whatever lies in the range of a change, and wherever the range cuts the texts, the tokens are
those of the new source, with the end of file. -/
theorem relex_of_agrees {oldSource source : String} {range : ChangedRange}
    (h : range.agrees oldSource source) (hold : byteLength oldSource.toList ≤ maxSourceLength)
    (hnew : byteLength source.toList ≤ maxSourceLength) :
    relex source (tokenizeSignificant oldSource) range = tokenizeSignificant source := by
  rw [ChangedRange.agrees, decide_eq_true_iff] at h
  exact relex_eq h hold hnew

/-- A string is closed by a change that begins inside the last of its characters. -/
theorem relex_of_agrees_closing :
    (⟨6, 7, 8⟩ : ChangedRange).agrees "f = \"é g" "f = \"è\" g" ∧
      byteLength "f = \"é g".toList ≤ maxSourceLength ∧
      byteLength "f = \"è\" g".toList ≤ maxSourceLength ∧
      relex "f = \"è\" g" (tokenizeSignificant "f = \"é g") ⟨6, 7, 8⟩ =
        tokenizeSignificant "f = \"è\" g" := by
  have hagrees : (⟨6, 7, 8⟩ : ChangedRange).agrees "f = \"é g" "f = \"è\" g" := by decide
  exact ⟨hagrees, by decide, by decide, relex_of_agrees hagrees (by decide) (by decide)⟩

end LosslessSyntax
