import LosslessSyntax.Proofs.Grammar.Licences
import LosslessSyntax.Proofs.Lines
import LosslessSyntax.Proofs.Totality
/-!
Diagnostics: error nodes carry one and no other node does, each is about a token of the source, and
no malformed token goes without its own.
-/
namespace LosslessSyntax

open Node (Throughout)
open Text (byteLength)

namespace Node

def IsMarked (node : Node) : Prop := node.diagnostic.isSome ↔ node.kind = .error

theorem isMarked_ofToken (token : Token) : (ofToken token).IsMarked := by
  cases token with
  | mk kind value span => cases kind <;> simp [IsMarked, ofToken, leaf, NodeKind.ofToken]

theorem diagnostic_ofToken {token : Token} {reason : LexError} (h : token.kind = .error reason) :
    (ofToken token).diagnostic = some (.ofLexError reason token) := by
  simp [ofToken, h]

theorem isMarked_ofChildren {kind : NodeKind} {offset : UInt32} {children : List Node}
    (h : kind ≠ .error) : (ofChildren kind offset children).IsMarked := by
  simp [IsMarked, ofChildren, h]

def reported (nodes : List Node) : List Diagnostic :=
  (preorderAll nodes).filterMap (·.diagnostic)

@[simp] theorem reported_nil : reported [] = [] := rfl

@[simp] theorem reported_append (front back : List Node) :
    reported (front ++ back) = reported front ++ reported back := by
  simp [reported, preorderAll_append]

theorem reported_singleton (node : Node) :
    reported [node] = node.diagnostic.toList ++ reported node.children := by
  rcases h : node.diagnostic <;> simp [reported, preorderAll, preorder_eq, h]

theorem reported_withField (node : Node) (field : Field) :
    reported [node.withField field] = reported [node] := by
  simp [reported_singleton, withField]

theorem reported_innerInField {node : Node} (h : node.IsMarked) (field : Field) :
    reported (node.innerInField field) = reported [node] := by
  rcases node.innerInField_eq field with
    ⟨opening, inner, closing, hkind, hchildren, hinner⟩ | hinner
  · have hnone : node.diagnostic = none := by
      rcases hdiagnostic : node.diagnostic with _ | diagnostic
      · rfl
      · have herror := h.mp (by simp [hdiagnostic])
        rw [hkind] at herror
        contradiction
    rw [hinner, reported_singleton node, hnone, hchildren]
    have hrejoin : reported [opening, inner.withField field, closing] =
        reported ([opening] ++ [inner.withField field] ++ [closing]) := rfl
    have hjoin : reported [opening, inner, closing] =
        reported ([opening] ++ [inner] ++ [closing]) := rfl
    rw [hrejoin, hjoin]
    simp only [reported_append, reported_withField, Option.toList_none, List.nil_append]
  · rw [hinner, reported_withField]

theorem mem_reported_map_ofToken {tokens : List Token} {token : Token} {reason : LexError}
    (hmem : token ∈ tokens) (hkind : token.kind = .error reason) :
    Diagnostic.ofLexError reason token ∈ reported (tokens.map ofToken) := by
  obtain ⟨front, back, rfl⟩ := List.append_of_mem hmem
  rw [← List.singleton_append, List.map_append, List.map_append, reported_append, reported_append]
  simp [reported_singleton, diagnostic_ofToken hkind]

end Node

namespace Fragment

variable {dialect : Dialect} {stream : TokenStream} {start stop : Nat} {nodes : List Node}

theorem isMarked (h : Fragment dialect stream start stop nodes) :
    Throughout Node.IsMarked nodes := by
  refine h.throughout (fun _ _ hnode => hnode) Node.isMarked_ofToken
    (fun _ => by simp [Node.IsMarked, Node.leaf]) ?_
    (fun _ _ _ _ _ _ => by simp [Node.IsMarked, TokenStream.errorNode, Node.ofChildren])
  rintro kind offset children form hform - -
  refine Node.isMarked_ofChildren ?_
  rintro rfl
  simp [NodeKind.forms] at hform

/-- A malformed token is reported somewhere in every fragment that stands for it. The one node that
is ever taken away, around an expression in parentheses, has nothing to report. -/
theorem reports (h : Fragment dialect stream start stop nodes) {index : Nat}
    (hstart : start ≤ index) (hstop : index < stop) {reason : LexError}
    (hkind : stream.kind index = .error reason) :
    Diagnostic.ofLexError reason (stream.get index) ∈ Node.reported nodes := by
  have htoken : Diagnostic.ofLexError reason (stream.get index) ∈
      Node.reported [.ofToken (stream.get index)] := by
    simp [Node.reported_singleton, Node.diagnostic_ofToken hkind]
  induction h with
  | empty => omega
  | take _ _ ih =>
    rw [Node.reported_append, List.mem_append]
    rcases Nat.lt_succ_iff_lt_or_eq.mp hstop with hlt | rfl
    · exact .inl (ih hstart hlt)
    · exact .inr htoken
  | takeElse _ helse ih =>
    rw [Node.reported_append, List.mem_append]
    rcases Nat.lt_succ_iff_lt_or_eq.mp hstop with hlt | rfl
    · exact .inl (ih hstart hlt)
    · rw [helse] at hkind
      contradiction
  | @append _ middle _ _ _ _ _ ihFront ihBack =>
    rw [Node.reported_append, List.mem_append]
    rcases Nat.lt_or_ge index middle with hlt | hge
    · exact .inl (ihFront hstart hlt)
    · exact .inr (ihBack hge hstop)
  | label field _ ih =>
    have hwhole := ih hstart hstop
    rw [Node.reported_append] at hwhole ⊢
    rwa [Node.reported_withField]
  | labelInner field whole ih =>
    have hmarked := (Node.throughout_append.mp whole.isMarked).2
    have hwhole := ih hstart hstop
    rw [Node.reported_append] at hwhole ⊢
    rwa [Node.reported_innerInField (Node.throughout_cons.mp hmarked).1]
  | wrap _ _ _ _ _ ih =>
    rw [Node.reported_singleton]
    exact List.mem_append_right _ (ih hstart hstop)
  | @error start stop =>
    rw [Node.reported_singleton]
    refine List.mem_append_right _ (Node.mem_reported_map_ofToken ?_ hkind)
    exact List.mem_map.mpr ⟨index, List.mem_range'_1.mpr (by omega), rfl⟩

end Fragment

namespace TokenStream

variable {stream : TokenStream}

theorem get_mem_toList (stream : TokenStream) (index : Nat) : stream.get index ∈ stream.toList := by
  simp only [get, toList, List.mem_append, List.mem_singleton]
  rcases hindex : stream.body[index]? with _ | token
  · exact .inr rfl
  · exact .inl (Array.mem_toList_iff.mpr (Array.mem_of_getElem? hindex))

theorem exists_get_of_mem {token : Token} (h : token ∈ stream.toList) :
    ∃ index, stream.get index = token := by
  rw [toList, List.mem_append, List.mem_singleton] at h
  rcases h with h | rfl
  · obtain ⟨index, hlt, hindex⟩ := List.getElem_of_mem h
    rw [Array.length_toList] at hlt
    exact ⟨index, by simpa [get, hlt] using hindex⟩
  · exact ⟨stream.body.size, by simp [get]⟩

end TokenStream

namespace Diagnostic

/-- A diagnostic that does not tell of a broken invariant is about a token. -/
def IsLocated (stream : TokenStream) (diagnostic : Diagnostic) : Prop :=
  diagnostic.isInternal = false → ∃ index, diagnostic.span = (stream.get index).span

theorem span_ofToken (token : Token) (otherwise : Cause) :
    (ofToken token otherwise).span = token.span := by
  unfold ofToken
  split <;> rfl

end Diagnostic

theorem Failure.isLocated_diagnostic {failure : Failure}
    (h : ∀ message, failure ≠ .misplacedNode message) (name : String) (stream : TokenStream)
    (index : Nat) (nodes : List Node) :
    (failure.diagnostic name (stream.get index) nodes).IsLocated stream := by
  intro hinternal
  refine ⟨index, ?_⟩
  cases failure with
  | expected | unexpected | noRuleApplies => exact Diagnostic.span_ofToken _ _
  | misplacedNode message => exact absurd rfl (h message)
  | brokenTables => contradiction
  | _ => rfl

def Invariant.located (stream : TokenStream) : Invariant where
  position _ := True
  node node := ∀ diagnostic, node.diagnostic = some diagnostic → diagnostic.IsLocated stream
  diagnostic := Diagnostic.IsLocated stream

namespace Invariant

variable {stream : TokenStream}

theorem located_ofToken (index : Nat) : (located stream).node (.ofToken (stream.get index)) := by
  intro diagnostic h _
  refine ⟨index, ?_⟩
  simp only [Node.ofToken] at h
  split at h
  · obtain rfl := Option.some.inj h
    rfl
  · contradiction

theorem located_errorNode (start stop : Nat) (diagnostic : Diagnostic)
    (h : diagnostic.IsLocated stream) :
    (located stream).node (stream.errorNode start stop diagnostic) := by
  rintro _ ⟨⟩
  exact h

theorem located_ofChildren (kind : NodeKind) (offset : UInt32) (children : List Node) :
    (located stream).node (.ofChildren kind offset children) := by
  rintro _ ⟨⟩

end Invariant

theorem Licence.keeps_located {licence : Licence} {stream : TokenStream}
    (h : ∀ message, ¬licence.fails (.misplacedNode message)) :
    licence.Keeps stream (.located stream) where
  take _ _ _ _ := trivial
  token := Invariant.located_ofToken
  leaf _ _ _ := by simp [Invariant.located, Node.leaf]
  field _ _ hnode := hnode
  wrap _ _ _ _ _ := Invariant.located_ofChildren _ _ _
  fail failure name index nodes hfails _ := by
    refine Failure.isLocated_diagnostic ?_ name stream index nodes
    rintro message rfl
    exact h message hfails
  skip _ _ _ _ _ _ _ := trivial
  error := Invariant.located_errorNode

namespace Nonterminal

def FrontLocated (stream : TokenStream) (nodes : List Node) : Prop :=
  ∀ node, nodes.head? = some node → ∃ index, node.span = (stream.get index).span

def AllLocate (stream : TokenStream) (expand : Nonterminal → Action) : Prop :=
  ∀ (name : Nonterminal) (setting : Setting) (nodes : List Node) (cursor : Cursor),
    setting.stream = stream → name.Expects [stream.kind cursor.position] →
    Throughout (Invariant.located stream).node nodes → (name.isFresh → nodes = []) →
    (name = .testBlock → FrontLocated stream nodes) →
    (expand name setting nodes cursor).Keeps (.located stream) fun _ => True

variable {expand : Nonterminal → Action} {setting : Setting} {nodes : List Node} {cursor : Cursor}

theorem ne_testBlock_of_calls {kinds : Nat → TokenKind} {start position : Nat}
    {name callee : Nonterminal} {fresh : Bool}
    (h : (name.licence kinds start).calls callee fresh position) (hname : name ≠ .item) :
    callee ≠ .testBlock := by
  rintro rfl
  rcases h.2.1 with h | ⟨h, -⟩ | ⟨h, -⟩ <;> contradiction

theorem locates_testBlock (hexpand : ∀ name, (expand name).Advances)
    (hcalls : AllLocate setting.stream expand)
    (hnodes : Throughout (Invariant.located setting.stream).node nodes)
    (hfront : FrontLocated setting.stream nodes) :
    (testBlock.rule.run expand setting nodes cursor).Keeps (.located setting.stream)
      fun _ => True := by
  cases nodes with
  | nil =>
    let licence : Licence := ⟨fun _ => True, fun _ => True, fun failure => ∀ message,
      failure ≠ .misplacedNode message, fun callee _ _ => callee = .block, fun _ _ => True⟩
    have hrest : (Rule.steps [Rule.expect .testKeyword, Rule.inField .name (Rule.expect .string),
        Rule.inField .body (Rule.child .block), .wrap .testBlock]).Heeds licence
          setting.stream.kind false (fun _ => True) cursor.position := by
      simp [licence]
    have hkeeps : licence.Keeps setting.stream (.located setting.stream) :=
      Licence.keeps_located fun message h => h message rfl
    change ((Rule.steps _).run expand setting [] cursor).Keeps _ _
    refine hrest.keeps hkeeps hexpand ?_ (by simp) trivial hnodes
    rintro _ _ inner nodes cursor hstream rfl - - - hnodes
    exact hcalls _ _ _ _ hstream trivial hnodes (by simp [isFresh]) (by simp)
  | cons node rest =>
    obtain ⟨index, hindex⟩ := hfront node rfl
    have hrun : testBlock.rule.run expand setting (node :: rest) cursor =
        .failed ⟨.misplacedToken node.kind.name "test blocks cannot have modifiers", node.span⟩
          (cursor.examineHere setting.stream) := by
      simp [Rule.run, Grammar.testBlock, Operand.ofNodes, List.getLast?_cons, Failure.diagnostic]
    rw [hrun]
    exact ⟨trivial, fun _ => ⟨index, hindex⟩⟩

theorem FrontLocated.concat {stream : TokenStream} {nodes : List Node}
    (h : FrontLocated stream nodes) (index : Nat) :
    FrontLocated stream (nodes ++ [.ofToken (stream.get index)]) := by
  intro node hnode
  cases nodes with
  | nil =>
    obtain rfl := Option.some.inj hnode
    exact ⟨index, rfl⟩
  | cons first rest => exact h node hnode

theorem throughout_concat {stream : TokenStream} {nodes : List Node}
    (h : Throughout (Invariant.located stream).node nodes) (index : Nat) :
    Throughout (Invariant.located stream).node (nodes ++ [.ofToken (stream.get index)]) := by
  simp only [Node.throughout_append, Node.throughout_cons, Node.throughout_nil, and_true]
  exact ⟨h, Invariant.located_ofToken index, Node.throughout_nil⟩

theorem locates_itemForm (hcalls : AllLocate setting.stream expand) (kind : TokenKind)
    (hnodes : Throughout (Invariant.located setting.stream).node nodes)
    (hfront : FrontLocated setting.stream nodes) :
    ((match Grammar.itemForm? kind with
      | some form => Rule.call form
      | none => .fail (.expected "item")).run expand setting nodes cursor).Keeps
        (.located setting.stream) fun _ => True := by
  split
  · rename_i form hform
    refine hcalls form setting nodes cursor rfl (expects_itemForm hform) hnodes ?_ fun _ => hfront
    revert hform
    fun_cases Grammar.itemForm? kind <;> rintro ⟨⟩ <;> simp [isFresh]
  · exact ⟨trivial, Failure.isLocated_diagnostic (by simp) _ _ _ _⟩

def afterVisibility : Rule :=
  Rule.steps [Grammar.directive, Rule.onKind fun kind =>
    match Grammar.itemForm? kind with
    | some form => .call form
    | none => .fail (.expected "item")]

theorem locates_afterVisibility (hcalls : AllLocate setting.stream expand)
    (hnodes : Throughout (Invariant.located setting.stream).node nodes)
    (hfront : FrontLocated setting.stream nodes) :
    (afterVisibility.run expand setting nodes cursor).Keeps (.located setting.stream)
      fun _ => True := by
  simp only [afterVisibility, Grammar.directive, Rule.steps, Rule.ifAt, Rule.onKind, Rule.run]
  split_ifs
  · simp only [Rule.run]
    split_ifs
    · exact locates_itemForm hcalls _ (throughout_concat hnodes _) (hfront.concat _)
    · exact ⟨trivial, Failure.isLocated_diagnostic (by simp) _ _ _ _⟩
  · exact locates_itemForm hcalls _ hnodes hfront

theorem locates_item (hcalls : AllLocate setting.stream expand) :
    (item.rule.run expand setting [] cursor).Keeps (.located setting.stream) fun _ => True := by
  have hnone : FrontLocated setting.stream [] := by simp [FrontLocated]
  change ((Rule.seq (Rule.optional .pubKeyword) afterVisibility).run expand setting []
    cursor).Keeps _ _
  simp only [Rule.optional, Rule.ifAt, Rule.onKind, Rule.run]
  split_ifs
  · exact locates_afterVisibility hcalls (throughout_concat Node.throughout_nil _) (hnone.concat _)
  · exact locates_afterVisibility hcalls Node.throughout_nil hnone

theorem allLocate_run (stream : TokenStream) (depth : Nat) : AllLocate stream (run depth) := by
  induction depth with
  | zero =>
    rintro name setting nodes cursor - - - - -
    exact ⟨trivial, fun h => absurd h (by decide)⟩
  | succ depth ih =>
    rintro name setting nodes cursor rfl hexpects hnodes hfresh htest
    by_cases hname : name = .item
    · subst hname
      rw [hfresh rfl]
      exact locates_item ih
    by_cases hname' : name = .testBlock
    · subst hname'
      exact locates_testBlock (run_advances depth) ih hnodes (htest rfl)
    have hkeeps : (name.licence setting.stream.kind cursor.position).Keeps setting.stream
        (.located setting.stream) :=
      Licence.keeps_located fun message h => hname' (h message rfl)
    refine (heeds_rule name setting.stream.kind cursor.position hexpects).keeps hkeeps
      (run_advances depth) ?_ hfresh trivial hnodes
    intro callee _ inner nodes cursor hstream hcallee hfresh hexpects _ hnodes
    exact ih callee inner nodes cursor hstream hexpects hnodes (fun h => hfresh (hcallee.1 h))
      fun h => absurd h (ne_testBlock_of_calls hcallee hname)

end Nonterminal

theorem Setting.Items.located {stream : TokenStream} {dialect : Dialect} {start : Nat}
    {items : List (Node × ItemExtent)} (h : (top stream dialect).Items start items) :
    Throughout (Invariant.located stream).node (items.map (·.1)) := by
  refine h.throughout fun cursor => ?_
  exact Rule.keeps_recover Nonterminal.action_advances Invariant.located_ofToken
    Invariant.located_errorNode (fun _ _ => id) Node.throughout_nil
    (Nonterminal.allLocate_run stream _ .item _ _ _ rfl trivial Node.throughout_nil (fun _ => rfl)
      (by simp))
    fun _ => trivial

theorem span_of_mem_tokenizeSignificant {source : String} {token : Token}
    (hlength : byteLength source.toList ≤ maxSourceLength)
    (hmem : token ∈ tokenizeSignificant source) :
    token.span.start ≤ token.span.stop ∧ token.span.stop.toNat ≤ byteLength source.toList := by
  have hread := (List.mem_filter.mp hmem).1
  have hlexes := lexes_tokenize source
  by_cases hkind : token.kind = .eof
  · obtain ⟨body, htokens, hbody⟩ := hlexes.eq_concat
    rw [htokens, List.mem_append, List.mem_singleton, Nat.zero_add] at hread
    rcases hread with hread | rfl
    · exact absurd hkind (hbody token hread)
    · refine ⟨UInt32.le_refl _, (Token.start_endOfFile hlength).le⟩
  · obtain ⟨front, lexeme, back, htext, rfl, -⟩ := hlexes.eq_token_of_mem hread hkind
    rw [htext, Text.byteLength_append, Text.byteLength_append] at hlength ⊢
    have hend : 0 + byteLength front + byteLength lexeme.text ≤ maxSourceLength := by omega
    have hstart := lexeme.start_token (Nat.le_of_add_right_le hend)
    have hstop := Lexeme.stop_token hend
    rw [UInt32.le_iff_toNat_le]
    omega

theorem mem_dropRepeats [DecidableEq α] {a : α} {list : List α} :
    a ∈ dropRepeats list ↔ a ∈ list := by
  fun_induction dropRepeats list <;> simp_all

namespace Node

mutual

theorem hasError_iff : (node : Node) →
    (node.hasError ↔ ∃ inner ∈ node.preorder, inner.kind = .error ∨ inner.diagnostic.isSome)
  | ⟨field, kind, span, children, diagnostic⟩ => by
    simp [hasError, preorder, anyHasError_iff children, or_assoc]

theorem anyHasError_iff : (nodes : List Node) →
    (anyHasError nodes ↔
      ∃ inner ∈ preorderAll nodes, inner.kind = .error ∨ inner.diagnostic.isSome)
  | [] => by simp [anyHasError, preorderAll]
  | node :: rest => by
    simp [anyHasError, preorderAll, hasError_iff node, anyHasError_iff rest, or_and_right,
      exists_or]

end

end Node

/-- What a tree says of the errors in its source. -/
structure SyntaxTree.ReportsErrors (tree : SyntaxTree) : Prop where
  marked : ∀ node ∈ tree.root.preorder, node.diagnostic.isSome ↔ node.kind = .error
  lexical : ∀ token ∈ tree.tokens, ∀ reason, token.kind = .error reason →
    Diagnostic.ofLexError reason token ∈ tree.errors
  category : ∀ diagnostic ∈ tree.root.diagnostics,
    diagnostic.category = .lexical ∨ diagnostic.category = .syntactic
  located : ∀ diagnostic ∈ tree.root.diagnostics, ∃ token ∈ tree.tokens,
    diagnostic.span = token.span
  inside : ∀ diagnostic ∈ tree.root.diagnostics, diagnostic.span.start ≤ diagnostic.span.stop ∧
    diagnostic.span.stop.toNat ≤ byteLength tree.source.toList
  line : ∀ diagnostic ∈ tree.root.diagnostics,
    (lineAt? tree.source diagnostic.span.start).isSome
  hasErrors : tree.hasErrors ↔ tree.errors ≠ []

theorem Setting.Items.reported {stream : TokenStream} {dialect : Dialect}
    {start : Nat} {items : List (Node × ItemExtent)}
    (h : (top stream dialect).Items start items) (hstart : start ≤ stream.body.size)
    {diagnostic : Diagnostic} (hmem : diagnostic ∈ Node.reported (items.map (·.1))) :
    diagnostic.isInternal = false ∧ ∃ token ∈ stream.toList, diagnostic.span = token.span := by
  obtain ⟨stop, -, -, hfragment, -⟩ := h.fragment hstart
  obtain ⟨node, hnode, hcarries⟩ := List.mem_filterMap.mp hmem
  have hinternal := (hfragment.readSoundly node hnode).1 diagnostic hcarries
  obtain ⟨index, hspan⟩ := h.located node hnode diagnostic hcarries hinternal
  exact ⟨hinternal, _, stream.get_mem_toList index, hspan⟩

namespace SyntaxTree

theorem hasErrors_iff {tree : SyntaxTree} (h : ∀ node ∈ tree.root.preorder, node.IsMarked) :
    tree.hasErrors ↔ tree.errors ≠ [] := by
  rw [hasErrors, Node.hasError_iff, ne_eq, List.eq_nil_iff_forall_not_mem, not_forall_not]
  simp only [errors, mem_dropRepeats, Node.diagnostics, List.mem_filterMap]
  constructor
  · rintro ⟨node, hnode, herror⟩
    obtain ⟨diagnostic, hdiagnostic⟩ :=
      Option.isSome_iff_exists.mp (herror.elim (h node hnode).mpr id)
    exact ⟨diagnostic, node, hnode, hdiagnostic⟩
  · rintro ⟨diagnostic, node, hnode, hdiagnostic⟩
    exact ⟨node, hnode, .inr (by simp [hdiagnostic])⟩

theorem kind_ne_error_of_hasErrors {source : String} {stream : TokenStream} {dialect : Dialect}
    {items : List (Node × ItemExtent)}
    (h : (ofItems source stream items dialect).hasErrors = false) :
    Throughout (fun node => node.kind ≠ .error) (items.map (·.1)) := by
  intro node hmem herror
  rw [hasErrors, ← Bool.not_eq_true, Node.hasError_iff] at h
  exact h ⟨node, mem_preorder_ofItems hmem, .inl herror⟩

theorem reportsErrors_ofItems {source : String} {stream : TokenStream} {dialect : Dialect}
    {items : List (Node × ItemExtent)} (hlength : byteLength source.toList ≤ maxSourceLength)
    (hof : stream.IsOf source) (hitems : (Setting.top stream dialect).Items 0 items) :
    (ofItems source stream items dialect).ReportsErrors := by
  obtain ⟨stop, hend, -, hfragment, -⟩ := hitems.fragment (Nat.zero_le _)
  have hsize := hof.kind_eq_eof_iff.mp hend
  have hdiagnostics : (ofItems source stream items dialect).root.diagnostics =
      Node.reported (items.map (·.1)) := diagnostics_ofItems
  have hmarked : ∀ node ∈ (ofItems source stream items dialect).root.preorder, node.IsMarked :=
    forall_mem_preorder_ofItems.mpr ⟨by simp [Node.IsMarked], hfragment.isMarked⟩
  have hinside : ∀ diagnostic ∈ (ofItems source stream items dialect).root.diagnostics,
      diagnostic.span.start ≤ diagnostic.span.stop ∧
        diagnostic.span.stop.toNat ≤ byteLength source.toList := by
    intro diagnostic hmem
    obtain ⟨-, token, htoken, hspan⟩ := hitems.reported (Nat.zero_le _) (hdiagnostics ▸ hmem)
    rw [hspan]
    exact span_of_mem_tokenizeSignificant hlength (hof ▸ htoken)
  constructor
  case marked => exact hmarked
  case lexical =>
    intro token hmem reason hkind
    obtain ⟨index, rfl⟩ := TokenStream.exists_get_of_mem hmem
    have hindex : index < stream.body.size :=
      TokenStream.lt_of_kind_ne_eof fun heof => TokenKind.noConfusion (hkind.symm.trans heof)
    rw [errors, mem_dropRepeats, hdiagnostics]
    exact hfragment.reports (Nat.zero_le _) (by omega) hkind
  case category =>
    intro diagnostic hmem
    have hinternal := (hitems.reported (Nat.zero_le _) (hdiagnostics ▸ hmem)).1
    unfold Diagnostic.isInternal at hinternal
    cases hcategory : diagnostic.category with
    | lexical => exact .inl rfl
    | syntactic => exact .inr rfl
    | internal => simp [hcategory] at hinternal
  case located =>
    intro diagnostic hmem
    exact (hitems.reported (Nat.zero_le _) (hdiagnostics ▸ hmem)).2
  case inside => exact hinside
  case line =>
    intro diagnostic hmem
    obtain ⟨hle, hstop⟩ := hinside diagnostic hmem
    exact isSome_lineAt? ((UInt32.le_iff_toNat_le.mp hle).trans hstop)
  case hasErrors => exact hasErrors_iff hmarked

/-- Diagnostics are complete and consistent: error nodes carry one and no other node does, each
malformed token has its own, and each is about a token of the source, so that the line of it can be
shown. A tree has errors if it lists one. -/
theorem reportsErrors_parse (source : String) (dialect : Dialect)
    (h : byteLength source.toList ≤ maxSourceLength) :
    ∃ tree, parse source dialect = .ok tree ∧ tree.source = source ∧
      tree.tokens = tokenizeSignificant source ∧ tree.ReportsErrors := by
  obtain ⟨stream, items, hof, hitems, hparse⟩ := parse_eq_ok dialect h
  exact ⟨_, hparse, rfl, hof, reportsErrors_ofItems h hof hitems⟩

/-- A string that is not closed, in a test that takes no modifier. -/
theorem reportsErrors_parse_unclosed :
    byteLength "pub test \"".toList ≤ maxSourceLength ∧
      ∃ tree, parse "pub test \"" .extended = .ok tree ∧ tree.source = "pub test \"" ∧
        tree.tokens = tokenizeSignificant "pub test \"" ∧ tree.ReportsErrors :=
  ⟨by decide, reportsErrors_parse "pub test \"" .extended (by decide)⟩

end SyntaxTree

end LosslessSyntax
