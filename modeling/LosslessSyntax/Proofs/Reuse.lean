import LosslessSyntax.Proofs.Lexing.Relex
import LosslessSyntax.Proofs.Locality
/-!
Taking items over: an old item stands, moved, in the new tree where all the tokens that it depends on
are as they were. Tokens are compared by kind and place, and the texts under them are the same.
-/
namespace LosslessSyntax

open Text (byteLength)

namespace Text

theorem append_inj_of_byteLength {front back front' back' : List Char}
    (h : front ++ back = front' ++ back') (hlength : byteLength front = byteLength front') :
    front = front' ∧ back = back' := by
  have hprefix := prefix_of_byteLength_le (List.prefix_append front back)
    (h ▸ List.prefix_append front' back') hlength.le
  have hprefix' := prefix_of_byteLength_le (h ▸ List.prefix_append front' back')
    (List.prefix_append front back) hlength.ge
  obtain rfl := hprefix.eq_of_length_le hprefix'.length_le
  exact ⟨rfl, List.append_cancel_left h⟩

end Text

/-- The range accounts for how one source came from another, and neither is too long. -/
structure ChangedRange.Accounts (range : ChangedRange) (oldSource source : String) : Prop where
  agrees : range.Agrees oldSource.toList source.toList
  oldBound : byteLength oldSource.toList ≤ maxSourceLength
  newBound : byteLength source.toList ≤ maxSourceLength

namespace TokenStream.IsOf

variable {stream : TokenStream} {source : String}

theorem exists_lexeme (h : stream.IsOf source) {index : Nat} (hindex : index < stream.body.size) :
    ∃ (front : List Char) (lexeme : Lexeme) (back : List Char),
      source.toList = front ++ lexeme.text ++ back ∧
      stream.get index = lexeme.token (byteLength front) ∧
      lexeme.value = Lexeme.decode lexeme.kind lexeme.text := by
  have hget : stream.get index ∈ stream.toList := by
    simp [get, toList, hindex]
  have hread : stream.get index ∈ tokenize source :=
    List.mem_of_mem_filter (h ▸ hget : stream.get index ∈ tokenizeSignificant source)
  obtain ⟨front, lexeme, back, htext, htoken, hbegins⟩ :=
    (lexes_tokenize source).eq_token_of_mem hread (h.get_of_lt hindex).1
  rw [Nat.zero_add] at htoken
  exact ⟨front, lexeme, back, htext, htoken, hbegins.value_eq⟩

theorem unique {stream' : TokenStream} (h : stream.IsOf source) (h' : stream'.IsOf source) :
    stream = stream' := by
  obtain ⟨body, final, hkind⟩ := stream
  obtain ⟨body', final', hkind'⟩ := stream'
  have hlist : body.toList ++ [final] = body'.toList ++ [final'] := h.trans h'.symm
  obtain ⟨hbody, hfinal⟩ := List.append_inj' hlist rfl
  obtain rfl := Array.toList_inj.mp hbody
  obtain rfl := List.singleton_inj.mp hfinal
  rfl

end TokenStream.IsOf

namespace ChangedRange.Accounts

variable {range : ChangedRange} {oldSource source : String} {distance : Int}

theorem toNat_moveOffset (h : range.Accounts oldSource source) {offset : UInt32}
    (hbehind : range.oldEnd ≤ offset.toNat) (hle : offset.toNat ≤ byteLength oldSource.toList) :
    (Span.moveOffset offset range.delta).toNat = offset.toNat - range.oldEnd + range.newEnd := by
  have hdelta := h.agrees.delta_eq h.oldBound h.newBound
  have hbound := h.newBound
  obtain ⟨-, -, holdEnd, hnewEnd, hrest, -⟩ := h.agrees
  apply Span.toNat_moveOffset
  · omega
  · omega

theorem text_eq (h : range.Accounts oldSource source) {front back front' back' : List Char}
    {lexeme lexeme' : Lexeme} (hold : oldSource.toList = front ++ lexeme.text ++ back)
    (hnew : source.toList = front' ++ lexeme'.text ++ back')
    (hspan : (lexeme'.token (byteLength front')).span =
      (lexeme.token (byteLength front)).span.shifted distance)
    (hside : distance = 0 ∧ byteLength front + byteLength lexeme.text ≤ range.start ∨
      distance = range.delta ∧ range.oldEnd ≤ byteLength front) : lexeme'.text = lexeme.text := by
  have holdBound := h.oldBound
  have hnewBound := h.newBound
  have holdLength := congrArg byteLength hold
  have hnewLength := congrArg byteLength hnew
  simp only [Text.byteLength_append] at holdLength hnewLength
  have holdStart : (lexeme.token (byteLength front)).span.start.toNat = byteLength front :=
    lexeme.start_token (by omega)
  have holdStop : (lexeme.token (byteLength front)).span.stop.toNat =
      byteLength front + byteLength lexeme.text := Lexeme.stop_token (by omega)
  have hstart : (lexeme'.token (byteLength front')).span.start.toNat = byteLength front' :=
    lexeme'.start_token (by omega)
  have hstop : (lexeme'.token (byteLength front')).span.stop.toNat =
      byteLength front' + byteLength lexeme'.text := Lexeme.stop_token (by omega)
  rw [hspan] at hstart hstop
  simp only [Span.shifted] at hstart hstop
  rcases hside with ⟨rfl, hbefore⟩ | ⟨rfl, hbehind⟩
  · rw [Span.moveOffset_zero, holdStart] at hstart
    rw [Span.moveOffset_zero, holdStop] at hstop
    have hfront := h.agrees.front_eq hold hnew (by rw [Text.byteLength_append]; omega)
      (by rw [Text.byteLength_append, Text.byteLength_append]; omega)
    exact (Text.append_inj_of_byteLength hfront hstart).2.symm
  · rw [h.toNat_moveOffset (by omega) (by omega), holdStart] at hstart
    rw [h.toNat_moveOffset (by omega) (by omega), holdStop] at hstop
    rw [List.append_assoc] at hold hnew
    have hback := h.agrees.back_eq hold hnew (by omega) (by omega)
    exact (Text.append_inj_of_byteLength hback (by omega)).1.symm

theorem value_eq (h : range.Accounts oldSource source) {oldStream stream : TokenStream}
    (hold : oldStream.IsOf oldSource) (hnew : stream.IsOf source) {oldIndex newIndex : Nat}
    (hkind : stream.kind newIndex = oldStream.kind oldIndex)
    (hspan : (stream.get newIndex).span = (oldStream.get oldIndex).span.shifted distance)
    (hside : distance = 0 ∧ (oldStream.get oldIndex).span.stop.toNat ≤ range.start ∨
      distance = range.delta ∧ range.oldEnd ≤ (oldStream.get oldIndex).span.start.toNat) :
    (stream.get newIndex).value = (oldStream.get oldIndex).value := by
  by_cases heof : oldStream.kind oldIndex = .eof
  · have holdEnd := hold.kind_eq_eof_iff.mp heof
    have hnewEnd := hnew.kind_eq_eof_iff.mp (hkind.trans heof)
    rw [TokenStream.get, TokenStream.get, Array.getElem?_eq_none holdEnd,
      Array.getElem?_eq_none hnewEnd, Option.getD_none, Option.getD_none, hold.final_eq,
      hnew.final_eq]
    rfl
  · obtain ⟨front, lexeme, back, htext, htoken, hvalue⟩ :=
      hold.exists_lexeme (TokenStream.lt_of_kind_ne_eof heof)
    obtain ⟨front', lexeme', back', htext', htoken', hvalue'⟩ :=
      hnew.exists_lexeme (TokenStream.lt_of_kind_ne_eof (hkind ▸ heof))
    have hbound := h.oldBound
    have hlength := congrArg byteLength htext
    simp only [Text.byteLength_append] at hlength
    rw [htoken, lexeme.start_token (by omega), Lexeme.stop_token (by omega)] at hside
    rw [htoken, htoken'] at hspan
    have hsame := h.text_eq htext htext' hspan hside
    have hkinds : lexeme'.kind = lexeme.kind := by
      rw [TokenStream.kind, TokenStream.kind, htoken, htoken'] at hkind
      exact hkind
    simp only [htoken, htoken', Lexeme.token, hvalue, hvalue', hsame, hkinds]

end ChangedRange.Accounts

namespace Reuse

variable {reuse : Reuse} {stream : TokenStream} {oldSource source : String} {distance : Int}

theorem get_eq_of_tokenUnchanged (haccounts : reuse.range.Accounts oldSource source)
    (hold : reuse.old.stream.IsOf oldSource) (hnew : stream.IsOf source)
    (hdistance : distance = 0 ∨ distance = reuse.range.delta) {oldIndex newIndex : Nat}
    (h : reuse.tokenUnchanged stream distance oldIndex newIndex) :
    newIndex ≤ stream.body.size ∧
      stream.get newIndex = (reuse.old.stream.get oldIndex).shifted distance := by
  unfold tokenUnchanged at h
  split at h
  · rename_i oldToken newToken holdToken hnewToken
    obtain ⟨holdIndex, rfl⟩ : oldIndex < reuse.old.stream.size ∧
        reuse.old.stream.get oldIndex = oldToken := by simpa [TokenStream.get?] using holdToken
    obtain ⟨hnewIndex, rfl⟩ : newIndex < stream.size ∧ stream.get newIndex = newToken := by
      simpa [TokenStream.get?] using hnewToken
    simp only [Bool.and_eq_true, beq_iff_eq] at h
    obtain ⟨⟨hside, hkind⟩, hspan⟩ := h
    refine ⟨Nat.lt_succ_iff.mp hnewIndex, ?_⟩
    have hplace : distance = 0 ∧
        (reuse.old.stream.get oldIndex).span.stop.toNat ≤ reuse.range.start ∨
      distance = reuse.range.delta ∧
        reuse.range.oldEnd ≤ (reuse.old.stream.get oldIndex).span.start.toNat := by
      split at hside
      · rename_i hzero
        exact .inl ⟨hzero, by simpa using hside⟩
      · rename_i hmoved
        exact .inr ⟨hdistance.resolve_left hmoved, by simpa using hside⟩
    have hvalue := haccounts.value_eq hold hnew hkind hspan hplace
    rcases hget : stream.get newIndex with ⟨kind, value, span⟩
    rw [hget] at hkind hspan hvalue
    rw [Token.shifted, ← hkind, ← hspan, ← hvalue]
  · contradiction

theorem eq_of_find {position : Nat} {found : Node × ItemExtent}
    (h : (reuse.find stream position).1 = some found) :
    ∃ (index : Nat) (extent : ItemExtent) (node : Node) (offset : Nat),
      reuse.old.items[index]? = some extent ∧
      reuse.old.root.children[index]? = some node ∧
      reuse.itemUnchanged stream position (reuse.moved offset) extent ∧
      found = (node.shifted (reuse.moved offset),
        ⟨position, position + (extent.endToken - extent.firstToken),
          position + (extent.lookahead - extent.firstToken)⟩) := by
  unfold find at h
  split at h
  · contradiction
  rename_i offset _
  dsimp only at h
  split at h
  · rename_i extent node hextent hnode
    split at h
    · rename_i hfound
      rw [Bool.and_eq_true] at hfound
      exact ⟨_, extent, node, offset, hextent, hnode, hfound.2, (Option.some.inj h).symm⟩
    · contradiction
  · contradiction

theorem exists_window (haccounts : reuse.range.Accounts oldSource source)
    (hold : reuse.old.stream.IsOf oldSource) (hnew : stream.IsOf source)
    (hdistance : distance = 0 ∨ distance = reuse.range.delta) {position : Nat}
    {extent : ItemExtent} (hfirst : extent.firstToken ≤ extent.lookahead)
    (hlast : extent.lookahead ≤ reuse.old.stream.body.size)
    (h : reuse.itemUnchanged stream position distance extent) :
    ∃ window : Window reuse.old.stream stream, window.distance = distance ∧
      window.first = extent.firstToken ∧ window.first' = position ∧
      window.last = extent.lookahead := by
  have htoken (offset : Nat) (hoffset : offset ≤ extent.lookahead - extent.firstToken) :
      position + offset ≤ stream.body.size ∧ stream.get (position + offset) =
        (reuse.old.stream.get (extent.firstToken + offset)).shifted distance := by
    apply get_eq_of_tokenUnchanged haccounts hold hnew hdistance
    exact List.all_eq_true.mp h offset (List.mem_range.mpr (by omega))
  refine ⟨.ofTokens distance extent.firstToken position extent.lookahead (hfirst.trans hlast) ?_
    (fun _ => hnew.kind_eq_eof_iff.mp) ?_, rfl, rfl, rfl, rfl⟩
  · have := (htoken _ le_rfl).1
    omega
  · intro index hindex hle
    have hget := (htoken (index - extent.firstToken) (by omega)).2
    rw [Nat.add_sub_cancel' hindex] at hget
    rw [Nat.add_comm, hget]

end Reuse

theorem Setting.Items.read_of_mem {setting : Setting} {start : Nat}
    {items : List (Node × ItemExtent)} (h : setting.Items start items)
    {item : Node × ItemExtent} (hmem : item ∈ items) :
    setting.stream.kind item.2.firstToken ≠ .eof ∧
      ∃ after, setting.parseItem ⟨item.2.firstToken, item.2.firstToken⟩ = .done item after := by
  induction h with
  | finish => contradiction
  | item kind read _ ih =>
    rcases List.mem_cons.mp hmem with rfl | hmem
    · have hfirst := congrArg (·.firstToken) (parseItem_eq_done_iff.mp read).2
      simp only at hfirst
      rw [hfirst]
      exact ⟨kind, _, read⟩
    · exact ih hmem

/-- The items of an old tree that are taken over are those of the new one. -/
theorem Setting.honest {oldStream stream : TokenStream} {dialect : Dialect}
    {items : List (Node × ItemExtent)} {range : ChangedRange} {oldSource source : String}
    (haccounts : range.Accounts oldSource source) (hold : oldStream.IsOf oldSource)
    (hnew : stream.IsOf source) (hitems : (top oldStream dialect).Items 0 items) :
    (top stream dialect).Honest (.ofItems oldSource oldStream items dialect) range := by
  rintro ⟨old, range, next, reused, reparsed⟩ position found rfl rfl - hfind
  obtain ⟨index, extent, node, offset, hextent, hnode, hunchanged, rfl⟩ := Reuse.eq_of_find hfind
  have hitem : items[index]? = some (node, extent) := by
    simp only [SyntaxTree.ofItems, List.getElem?_map, Option.map_eq_some_iff] at hextent
    obtain ⟨item, hitem, rfl⟩ := hextent
    have hchild : (items.map (·.1))[index]? = some node := hnode
    rw [List.getElem?_map, hitem, Option.map_some, Option.some.injEq] at hchild
    rw [hitem, ← hchild]
  obtain ⟨hkind, after, hread⟩ := hitems.read_of_mem (List.mem_of_getElem? hitem)
  obtain ⟨item, last, hread', hisItem, -⟩ :=
    parseItem_eq_done dialect ⟨extent.firstToken, extent.firstToken⟩ hkind
  obtain ⟨rfl, -⟩ : _ ∧ _ := by simpa using hread'.symm.trans hread
  generalize hmoved : Reuse.moved _ offset = distance at hunchanged ⊢
  have hdistance : distance = 0 ∨ distance = range.delta := by
    rw [← hmoved, Reuse.moved]
    split
    · exact .inl rfl
    · exact .inr rfl
  have hlooked := hisItem.lt.le.trans hisItem.looked
  obtain ⟨window, rfl, hfirst, rfl, hlast⟩ := Reuse.exists_window haccounts hold hnew hdistance
    hlooked hisItem.bound hunchanged
  refine ⟨window.cursor after, ?_⟩
  have hcarried := window.parseItem_eq_done (hfirst ▸ hkind) (hfirst ▸ hread) hlast.ge
  rw [hcarried, Window.index, Window.index, hfirst, Nat.add_comm _ window.first',
    Nat.add_comm _ window.first']

end LosslessSyntax
