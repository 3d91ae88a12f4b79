import LosslessSyntax.Proofs.Precedence.RoundTrip
import LosslessSyntax.Proofs.Types.Term
/-!
Round trip of types: the tokens of a well-formed type are read as that type.
-/
namespace LosslessSyntax

open Operation (nodeOf)

/-- A suffix of types stands at an index. A bracket is one only with the closing one behind it. -/
def TokenStream.HasSuffix (stream : TokenStream) (index : Nat) : Prop :=
  stream.kind index = .question ∨
    stream.kind index = .openBracket ∧ stream.kind (index + 1) = .closeBracket

theorem TokenStream.not_hasSuffix_of_kind {stream : TokenStream} {index : Nat} {kind : TokenKind}
    (hkind : stream.kind index = kind) (hother : kind ∉ [.question, .openBracket]) :
    ¬stream.HasSuffix index := by
  simp only [List.mem_cons, List.not_mem_nil, or_false, not_or] at hother
  rintro (hquestion | ⟨hopen, -⟩)
  · exact hother.1 (hkind.symm.trans hquestion)
  · exact hother.2 (hkind.symm.trans hopen)

namespace Grammar

open Rule

variable {setting : Setting} {start stop : Nat} {left : Node} {nodes after : List Node}
  {power : BindingPower}

theorem suffixPower?_eq_some {kind : TokenKind} {own : BindingPower}
    (h : suffixPower? kind = some own) :
    own = .member ∧ (kind = .question ∨ kind = .openBracket) := by
  unfold suffixPower? at h
  split at h
  · exact ⟨(Option.some.inj h).symm, .inl rfl⟩
  · exact ⟨(Option.some.inj h).symm, .inr rfl⟩
  · contradiction

theorem reads_suffixes_end (h : power < .member → ¬setting.stream.HasSuffix start) :
    (Rule.call (.suffixes power)).Reads setting nodes start nodes start := by
  refine Reads.call (Reads.onKind ?_)
  split
  case h_2 => exact .empty
  rename_i own hown
  obtain ⟨rfl, hkind⟩ := suffixPower?_eq_some hown
  split
  · exact .empty
  rename_i hpower
  have hnone := h (Nat.not_le.mp hpower)
  have hopen : setting.stream.kind start = .openBracket :=
    hkind.resolve_left fun hquestion => hnone (.inl hquestion)
  simp only [if_pos hopen]
  refine Reads.look ?_
  rw [if_neg fun hclose => hnone (.inr ⟨hopen, hclose⟩)]
  exact .empty

variable (hpower : power < .member)

include hpower

theorem reads_optional (hkind : setting.stream.kind start = .question)
    (hrest : (Rule.call (.suffixes power)).Reads setting
      [nodeOf .optionalType [left.withField .type, .ofToken (setting.stream.get start)]]
      (start + 1) after stop) :
    (Rule.call (.suffixes power)).Reads setting [left] start after stop := by
  have hle : ¬BindingPower.member ≤ power := Nat.not_le.mpr hpower
  refine Reads.call (Reads.onKind ?_)
  simp only [hkind, suffixPower?, suffix?, if_neg hle]
  exact .seq (.seq (.label []) (.seq (.take (by simp [hkind])) .wrap)) hrest

theorem reads_slice (hopen : setting.stream.kind start = .openBracket)
    (hclose : setting.stream.kind (start + 1) = .closeBracket)
    (hrest : (Rule.call (.suffixes power)).Reads setting
      [nodeOf .sliceType [left.withField .type, .ofToken (setting.stream.get start),
        .ofToken (setting.stream.get (start + 1))]]
      (start + 2) after stop) :
    (Rule.call (.suffixes power)).Reads setting [left] start after stop := by
  have hle : ¬BindingPower.member ≤ power := Nat.not_le.mpr hpower
  refine Reads.call (Reads.onKind ?_)
  simp only [hopen, suffixPower?, suffix?, if_neg hle, if_true]
  refine Reads.look ?_
  rw [if_pos hclose]
  exact .seq (.seq (.label []) (.seq (.expect hopen (by decide))
    (.seq (.expect hclose (by decide)) .wrap))) hrest

end Grammar

namespace TypeTerm

/-- A type is read as it is, whatever suffixes are read after it: where the loop over the suffixes
behind its node leads, the reading of a type from its first token on leads. -/
def Reads (type : TypeTerm) : Prop :=
  ∀ {setting : Setting} {start stop : Nat} {power : BindingPower} {after : List Node},
    setting.stream.HasKinds start type.kinds →
    (type.isSuffixed → power < .member) →
    (type.endsInName → setting.stream.kind (start + type.length) ≠ .openParen) →
    (type.endsInFunction → ¬setting.stream.HasSuffix (start + type.length)) →
    (Rule.call (.suffixes power)).Reads setting [type.node setting.stream start]
      (start + type.length) after stop →
    (Rule.call (.type power)).Reads setting [] start after stop

variable {type target result element operand : TypeTerm} {setting : Setting} {start : Nat}
  {power : BindingPower}

theorem Reads.whole (h : type.Reads) (hkinds : setting.stream.HasKinds start type.kinds)
    (hsuffixed : type.isSuffixed → power < .member)
    (hname : type.endsInName → setting.stream.kind (start + type.length) ≠ .openParen)
    (hfunction : type.endsInFunction → ¬setting.stream.HasSuffix (start + type.length))
    (hnone : power < .member → ¬setting.stream.HasSuffix (start + type.length)) :
    (Rule.call (.type power)).Reads setting [] start [type.node setting.stream start]
      (start + type.length) :=
  h hkinds hsuffixed hname hfunction (Grammar.reads_suffixes_end hnone)

theorem Reads.enclosed {kind : TokenKind} (h : type.Reads)
    (hkinds : setting.stream.HasKinds start type.kinds)
    (hkind : setting.stream.kind (start + type.length) = kind)
    (hother : kind ∉ [.openParen, .question, .openBracket]) :
    (Rule.call (.type .default)).Reads setting [] start [type.node setting.stream start]
      (start + type.length) := by
  simp only [List.mem_cons, List.not_mem_nil, or_false, not_or] at hother
  have hnone : ¬setting.stream.HasSuffix (start + type.length) :=
    TokenStream.not_hasSuffix_of_kind hkind (by simp [hother])
  exact h.whole hkinds (fun _ => by decide) (fun _ => hkind ▸ hother.1) (fun _ => hnone)
    fun _ => hnone

section Suffixes

variable (hoperand : operand.Reads) (hclosed : operand.endsInFunction = false)

include hoperand hclosed

theorem reads_optional : (optional operand).Reads := by
  intro setting start stop power after hkinds hpower _ _ hrest
  have hpower : power < .member := hpower rfl
  simp only [kinds, TokenStream.hasKinds_append, TokenStream.hasKinds_cons, length_kinds] at hkinds
  obtain ⟨hkinds, hquestion, -⟩ := hkinds
  rw [length_optional, ← Nat.add_assoc] at hrest
  refine hoperand hkinds (fun _ => hpower) (fun _ => by simp [hquestion]) (by simp [hclosed])
    (Grammar.reads_optional hpower hquestion hrest)

theorem reads_slice : (slice operand).Reads := by
  intro setting start stop power after hkinds hpower _ _ hrest
  have hpower : power < .member := hpower rfl
  simp only [kinds, TokenStream.hasKinds_append, TokenStream.hasKinds_cons, length_kinds] at hkinds
  obtain ⟨hkinds, hopen, hclose, -⟩ := hkinds
  rw [length_slice, ← Nat.add_assoc] at hrest
  exact hoperand hkinds (fun _ => hpower) (fun _ => by simp [hopen]) (by simp [hclosed])
    (Grammar.reads_slice hpower hopen hclose hrest)

end Suffixes

theorem reads_primitive : primitive.Reads := by
  intro setting start stop power after hkinds _ _ _ hrest
  obtain ⟨hkind, -⟩ := hkinds
  exact Grammar.reads_typeForm .primitiveType (by rw [hkind]; rfl)
    (.call (.expect hkind (by decide))) hrest

theorem reads_parameter : parameter.Reads := by
  intro setting start stop power after hkinds _ _ _ hrest
  obtain ⟨hdollar, hname, -⟩ := hkinds
  exact Grammar.reads_typeForm .genericTypeParameter (by rw [hdollar]; rfl)
    (.call (.seq (.expect hdollar (by decide)) (.seq (.expect hname (by decide)) .wrap))) hrest

theorem reads_name : name.Reads := by
  intro setting start stop power after hkinds _ hnext _ hrest
  obtain ⟨hkind, -⟩ := hkinds
  have hnext : setting.stream.kind (start + 1) ≠ .openParen := hnext rfl
  exact Grammar.reads_typeForm .namedType (by rw [hkind]; rfl)
    (.call (.seq (.inField (.expect hkind (by decide)))
      (.seq (.ifAt_neg hnext .empty) .wrap))) hrest

theorem reads_reference (htarget : target.Reads) (hbare : target.isSuffixed = false) :
    (reference target).Reads := by
  intro setting start stop power after hkinds _ hname hfunction hrest
  obtain ⟨hampersand, hkinds⟩ := hkinds
  have hlength : start + (reference target).length = start + 1 + target.length := by
    rw [length_reference]
    omega
  rw [hlength] at hname hfunction hrest
  have hread : (Rule.call (.type .member)).Reads setting [] (start + 1)
      [target.node setting.stream (start + 1)] (start + 1 + target.length) :=
    htarget.whole hkinds (by simp [hbare]) hname hfunction fun h => absurd h (Nat.lt_irrefl _)
  exact Grammar.reads_typeForm .referenceType (by rw [hampersand]; rfl)
    (.call (.seq (.expect hampersand (by decide)) (.seq (.inField (.child hread)) .wrap))) hrest

theorem reads_array {length : TokenKind} (helement : element.Reads)
    (hknown : length ∈ [.number, .identifier]) : (array element length).Reads := by
  intro setting start stop power after hkinds _ _ _ hrest
  simp only [kinds, TokenStream.hasKinds_append, TokenStream.hasKinds_cons, length_kinds] at hkinds
  obtain ⟨hopen, hkinds, hsemicolon, hlength, hclose, -⟩ := hkinds
  have hatom : length ∈ Operation.atoms := by
    simp only [List.mem_cons, List.not_mem_nil, or_false] at hknown
    rcases hknown with rfl | rfl <;> decide
  have hread : (Rule.call (.expression .default)).Reads { setting with context := .expression } []
      (start + 1 + element.length + 1)
      [.ofToken (setting.stream.get (start + 1 + element.length + 1))]
      (start + 1 + element.length + 2) :=
    Operation.Reads.enclosed (Operation.reads_atom hatom) ⟨hlength, trivial⟩
      (Operation.WellFormed.atom hatom).default_lt_level hclose (by decide)
  have hend : start + (array element length).length = start + 1 + element.length + 3 := by
    rw [length_array]
    omega
  rw [hend] at hrest
  exact Grammar.reads_typeForm .arrayType (by rw [hopen]; rfl)
    (.call (.seq (.expect hopen (by decide))
      (.seq (.inField (.child (helement.enclosed hkinds hsemicolon (by decide))))
        (.seq (.expect hsemicolon (by decide))
          (.seq (.inField (.within (.child hread)))
            (.seq (.expect hclose (by decide)) .wrap)))))) hrest

section Lists

/-- A list takes an entry: names are for the types of a signature. -/
def Takes (listing : Listing) (entry : Bool × TypeTerm) : Prop :=
  listing = .signatureTypes ∨ listing = .types ∧ entry.1 = false

variable {listing : Listing} {entry : Bool × TypeTerm} {entries : List (Bool × TypeTerm)}
  {trailing : Bool} {nodes : List Node}

theorem reads_entry {kind : TokenKind} (hentry : entry.2.Reads) (htakes : Takes listing entry)
    (hkinds : setting.stream.HasKinds start (entryKinds entry))
    (hkind : setting.stream.kind (start + (entryKinds entry).length) = kind)
    (hother : kind ∉ [.openParen, .question, .openBracket]) :
    (Grammar.element listing).Reads setting nodes start
      (nodes ++ [entryNode setting.stream start entry]) (start + (entryKinds entry).length) := by
  obtain ⟨named, type⟩ := entry
  cases named with
  | false =>
    have hread : Grammar.anyType.Reads setting nodes start
        (nodes ++ [type.node setting.stream start]) (start + type.length) :=
      .child (Reads.enclosed hentry hkinds hkind hother)
    rcases htakes with rfl | ⟨rfl, -⟩
    · have hheads : ∀ head ∈ heads, head ≠ .identifier := by decide
      exact .ifAt_neg (hheads _ (kind_mem_heads hkinds)) hread
    · exact hread
  | true =>
    obtain ⟨hname, hcolon, hkinds⟩ := hkinds
    obtain rfl : listing = .signatureTypes := htakes.resolve_right (by simp)
    have hlength : start + (entryKinds (true, type)).length = start + 2 + type.length := by
      simp only [entryKinds, List.length_cons, length_kinds]
      omega
    rw [hlength] at hkind ⊢
    refine .ifAt_pos hname (.look ?_)
    rw [if_pos hcolon]
    exact .apart (.seq (.inField (.take (by simp [hname]))) (.seq (.take (by simp [hcolon]))
      (.seq (.inField (.child (Reads.enclosed hentry hkinds hkind hother))) .wrap)))

theorem kind_of_entryKinds (hkinds : setting.stream.HasKinds start (entryKinds entry)) :
    setting.stream.kind start ∉ [.closeParen, .eof] := by
  obtain ⟨named, type⟩ := entry
  have hheads : ∀ head ∈ .identifier :: heads, head ∉ [.closeParen, .eof] := by decide
  cases named with
  | false => exact hheads _ (List.mem_cons_of_mem _ (kind_mem_heads hkinds))
  | true => exact hheads _ (hkinds.1 ▸ List.mem_cons_self)

theorem reads_entries (hclosing : Grammar.closing listing = .closeParen)
    (hwithin : ∀ entry ∈ entries, entry.2.Reads) (htakes : ∀ entry ∈ entries, Takes listing entry)
    (hkinds : setting.stream.HasKinds start (listKinds trailing entries))
    (hclose : setting.stream.kind (start + (listKinds trailing entries).length) = .closeParen) :
    (Rule.call (.list listing)).Reads setting nodes start
      (nodes ++ listNodes setting.stream trailing start entries)
      (start + (listKinds trailing entries).length) := by
  induction entries generalizing start nodes with
  | nil =>
    rw [listNodes, List.append_nil]
    exact Grammar.reads_list_end (hclose.trans hclosing.symm)
  | cons entry rest ih =>
    have hentry : entry.2.Reads := hwithin entry List.mem_cons_self
    have hnamed : Takes listing entry := htakes entry List.mem_cons_self
    rw [listKinds, TokenStream.hasKinds_append] at hkinds
    obtain ⟨hkinds, hmore⟩ := hkinds
    have hstart : setting.stream.kind start ∉ [Grammar.closing listing, .eof] :=
      hclosing ▸ kind_of_entryKinds hkinds
    rw [listKinds] at hclose ⊢
    rw [listNodes]
    by_cases hlast : rest.isEmpty && !trailing
    · rw [if_pos hlast, List.append_nil] at hclose
      rw [if_pos hlast, if_pos hlast, List.append_nil]
      exact Grammar.reads_list_last hstart
        (reads_entry hentry hnamed hkinds hclose (by decide)) (by simp [hclose])
    · have hlength : start + (entryKinds entry ++ .comma :: listKinds trailing rest).length =
          start + (entryKinds entry).length + 1 + (listKinds trailing rest).length := by
        rw [List.length_append, List.length_cons]
        omega
      rw [if_neg hlast] at hmore
      rw [if_neg hlast, hlength] at hclose
      rw [if_neg hlast, if_neg hlast, hlength, List.append_cons, List.append_cons]
      obtain ⟨hcomma, hmore⟩ := hmore
      exact Grammar.reads_list_more hstart
        (reads_entry hentry hnamed hkinds hcomma (by decide)) hcomma
        (ih (fun other hother => hwithin other (List.mem_cons_of_mem _ hother))
          (fun other hother => htakes other (List.mem_cons_of_mem _ hother)) hmore hclose)

variable (hwithin : ∀ entry ∈ entries, entry.2.Reads)

include hwithin

theorem reads_tuple (hunnamed : ∀ entry ∈ entries, entry.1 = false) :
    (tuple entries trailing).Reads := by
  intro setting start stop power after hkinds _ _ _ hrest
  simp only [kinds, TokenStream.hasKinds_append, TokenStream.hasKinds_cons] at hkinds
  obtain ⟨hopen, hkinds, hclose, -⟩ := hkinds
  have hread : (Rule.call (.list .types)).Reads setting
      [.ofToken (setting.stream.get start)] _ _ _ :=
    reads_entries rfl hwithin (fun entry hentry => .inr ⟨rfl, hunnamed entry hentry⟩) hkinds hclose
  have hend : start + (tuple entries trailing).length =
      start + 1 + (listKinds trailing entries).length + 1 := by
    rw [length_tuple]
    omega
  rw [hend] at hrest
  exact Grammar.reads_typeForm .tupleType (by rw [hopen]; rfl)
    (.call (.seq (.expect hopen (by decide))
      (.seq hread (.seq (.expect hclose (by decide)) .wrap)))) hrest

theorem reads_generic (hunnamed : ∀ entry ∈ entries, entry.1 = false) (hgiven : entries ≠ []) :
    (generic entries trailing).Reads := by
  intro setting start stop power after hkinds _ _ _ hrest
  simp only [kinds, TokenStream.hasKinds_append, TokenStream.hasKinds_cons] at hkinds
  obtain ⟨hname, hopen, hkinds, hclose, -⟩ := hkinds
  have hread : (Rule.call (.list .types)).Reads setting
      [.ofToken (setting.stream.get (start + 1))] _ _ _ :=
    reads_entries rfl hwithin (fun entry hentry => .inr ⟨rfl, hunnamed entry hentry⟩) hkinds hclose
  have hfirst : setting.stream.kind (start + 2) ≠ .closeParen := by
    obtain ⟨entry, rest, rfl⟩ := List.exists_cons_of_ne_nil hgiven
    rw [listKinds, TokenStream.hasKinds_append] at hkinds
    have hstart := kind_of_entryKinds hkinds.1
    simp only [List.mem_cons, not_or] at hstart
    exact hstart.1
  have hend : start + (generic entries trailing).length =
      start + 2 + (listKinds trailing entries).length + 1 := by
    rw [length_generic]
    omega
  rw [hend] at hrest
  have harguments : (Rule.call .genericArguments).Reads setting [] (start + 1) _ _ :=
    .call (.seq (.expect hopen (by decide))
      (.ifAt_neg hfirst (.seq hread (.seq (.expect hclose (by decide)) .wrap))))
  exact Grammar.reads_typeForm .namedType (by rw [hname]; rfl)
    (.call (.seq (.inField (.expect hname (by decide)))
      (.seq (.ifAt_pos hopen (.child harguments)) .wrap))) hrest

theorem reads_function (hresult : result.Reads) : (function entries trailing result).Reads := by
  intro setting start stop power after hkinds _ hname hfunction hrest
  simp only [kinds, TokenStream.hasKinds_append, TokenStream.hasKinds_cons] at hkinds
  obtain ⟨hkeyword, hopen, hkinds, hclose, hkinds'⟩ := hkinds
  have hread : (Rule.call (.list .signatureTypes)).Reads setting
      [.ofToken (setting.stream.get start), .ofToken (setting.stream.get (start + 1))] _ _ _ :=
    reads_entries rfl hwithin (fun entry _ => .inl rfl) hkinds hclose
  have hend : start + (function entries trailing result).length =
      start + 2 + (listKinds trailing entries).length + 1 + result.length := by
    rw [length_function]
    omega
  rw [hend] at hname hfunction hrest
  rw [node, List.append_cons] at hrest
  have hnone := hfunction rfl
  exact Grammar.reads_typeForm .functionType (by rw [hkeyword]; rfl)
    (.call (.seq (.expect hkeyword (by decide)) (.seq (.expect hopen (by decide))
      (.seq hread (.seq (.expect hclose (by decide))
        (.seq (.inField (.child (hresult.whole hkinds' (fun _ => by decide) hname (fun _ => hnone)
          fun _ => hnone))) .wrap)))))) hrest

end Lists

theorem WellFormed.reads (h : type.WellFormed) : type.Reads := by
  induction h with
  | primitive => exact reads_primitive
  | parameter => exact reads_parameter
  | name => exact reads_name
  | generic _ unnamed given ih => exact reads_generic ih unnamed given
  | tuple _ unnamed ih => exact reads_tuple ih unnamed
  | array _ known ih => exact reads_array ih known
  | function _ _ ih ih' => exact reads_function ih ih'
  | reference _ bare ih => exact reads_reference ih bare
  | optional _ closed ih => exact reads_optional ih closed
  | slice _ closed ih => exact reads_slice ih closed

theorem WellFormed.parse_type_eq_done (h : type.WellFormed) (cursor : Cursor)
    (hkinds : setting.stream.HasKinds cursor.position type.kinds)
    (hname : setting.stream.kind (cursor.position + type.length) ≠ .openParen)
    (hsuffix : ¬setting.stream.HasSuffix (cursor.position + type.length)) :
    ∃ after, (Nonterminal.type .default).parse setting cursor =
        .done (type.node setting.stream cursor.position) after ∧
      after.position = cursor.position + type.length := by
  have hread : (Rule.call (.type .default)).Reads setting [] _ _ _ :=
    Reads.whole h.reads hkinds (fun _ => by decide) (fun _ => hname) (fun _ => hsuffix)
      fun _ => hsuffix
  have hheads : ∀ head ∈ heads, head ≠ .eof := by decide
  exact hread.parse (by simp [Nonterminal.Ready]) (hheads _ (kind_mem_heads hkinds))

end TypeTerm

end LosslessSyntax
