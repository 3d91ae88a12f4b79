import LosslessSyntax.Proofs.LeadsTo
/-!
Runs of rules: what a situation tells holds of the nodes that have been read and of the cursor behind
them, and each step of a rule goes on to a situation of which that is so again. Two expansions of
nonterminals that agree on the calls of a rule agree on its runs.
-/
namespace LosslessSyntax

/-- The outcome of a run that begins at `start`: it ends further on and not past the end of file,
with what is asked for or with a diagnostic that recovery can deal with. -/
def Outcome.Meets (stream : TokenStream) (start : Nat) (P : α → Cursor → Prop) :
    Outcome α → Prop
  | .done value cursor =>
    start ≤ cursor.position ∧ cursor.position ≤ stream.body.size ∧ P value cursor
  | .failed diagnostic cursor =>
    start ≤ cursor.position ∧ cursor.position ≤ stream.body.size ∧ diagnostic.isInternal = false

theorem Outcome.Meets.mono {stream : TokenStream} {start start' : Nat} {P : α → Cursor → Prop}
    {outcome : Outcome α} (h : outcome.Meets stream start P) (hle : start' ≤ start) :
    outcome.Meets stream start' P := by
  cases outcome with
  | done value cursor => exact ⟨hle.trans h.1, h.2⟩
  | failed diagnostic cursor => exact ⟨hle.trans h.1, h.2⟩

theorem Outcome.Meets.imp {stream : TokenStream} {start : Nat} {P Q : α → Cursor → Prop}
    {outcome : Outcome α} (h : outcome.Meets stream start P)
    (hPQ : ∀ {value cursor}, start ≤ cursor.position → P value cursor → Q value cursor) :
    outcome.Meets stream start Q := by
  cases outcome with
  | done value cursor => exact ⟨h.1, h.2.1, hPQ h.1 h.2.2⟩
  | failed diagnostic cursor => exact h

/-- What is known of a fragment that began at the token `origin` and of the cursor behind it, in a
rule that began at the token `start`. -/
structure Situation.Holds (dialect : Dialect) (stream : TokenStream) (origin start : Nat)
    (situation : Situation) (nodes : List Node) (cursor : Cursor) : Prop where
  fragment : Fragment dialect stream origin cursor.position nodes
  fits : Shape.Fits situation.shape (nodes.map Node.part)
  ahead : ∀ distance kind, situation.ahead[distance]? = some kind →
    stream.kind (cursor.position + distance) = kind
  moved : situation.moved = true → start < cursor.position
  bound : cursor.position ≤ stream.body.size

/-- How many calls can nest from a position on, without the end of file being passed. -/
def Nonterminal.weight (name : Nonterminal) (stream : TokenStream) (position : Nat) : Nat :=
  16 * (stream.body.size - position) + name.rank

def Nonterminal.Kept (name : Nonterminal) (setting : Setting) (origin start : Nat)
    (situation : Situation) (outcome : Outcome (List Node)) : Prop :=
  outcome.Meets setting.stream start fun nodes cursor =>
    ∃ effect ∈ name.effects setting.context (name.enter situation),
      effect.Holds setting.dialect setting.stream origin start nodes cursor

namespace Situation.Holds

variable {dialect : Dialect} {stream : TokenStream} {origin start : Nat} {situation : Situation}
  {nodes : List Node} {cursor : Cursor}

theorem congr_position (h : situation.Holds dialect stream origin start nodes cursor)
    {other : Cursor} (hposition : other.position = cursor.position) :
    situation.Holds dialect stream origin start nodes other := by
  obtain ⟨fragment, fits, ahead, moved, bound⟩ := h
  exact ⟨hposition ▸ fragment, fits, hposition ▸ ahead, hposition ▸ moved, hposition ▸ bound⟩

theorem learn (h : situation.Holds dialect stream origin start nodes cursor) (distance : Nat) :
    (situation.learn distance (stream.kind (cursor.position + distance))).Holds dialect stream
      origin start nodes cursor := by
  unfold Situation.learn
  split
  · rename_i hdistance
    refine ⟨h.fragment, h.fits, ?_, h.moved, h.bound⟩
    intro index kind hkind
    rw [List.getElem?_append] at hkind
    split at hkind
    · exact h.ahead index kind hkind
    · have : index - situation.ahead.length = 0 := by
        by_contra hne
        rw [List.getElem?_eq_none (by simp; omega)] at hkind
        contradiction
      simp only [this, List.getElem?_cons_zero, Option.some.injEq] at hkind
      rw [← hkind, hdistance]
      congr 2
      omega
  · exact h

theorem took (h : situation.Holds dialect stream origin start nodes cursor) {token : TokenKind}
    {ahead : List TokenKind} (hahead : situation.ahead = token :: ahead) (heof : token ≠ .eof)
    {kind : Option NodeKind} (hkind : Renames kind token) (hstart : start ≤ cursor.position) :
    (situation.took (kind.getD (.ofToken token))).Holds dialect stream origin start
      (nodes ++ [.ofTokenAs kind (stream.get cursor.position)]) (cursor.advance stream) := by
  have htoken : stream.kind cursor.position = token := h.ahead 0 token (by simp [hahead])
  have hadvance := Cursor.advance_position_of_ne_eof (htoken ▸ heof)
  have hbound : cursor.position + 1 ≤ stream.body.size :=
    TokenStream.lt_of_kind_ne_eof (htoken ▸ heof)
  refine ⟨?_, ?_, ?_, fun _ => by omega, by omega⟩
  · rw [hadvance]
    rcases hkind with rfl | ⟨helse, rfl⟩
    · exact h.fragment.take (htoken ▸ heof)
    · exact h.fragment.takeElse (htoken.trans helse)
  · rw [List.map_append]
    refine h.fits.append (Shape.fits_singleton_iff.mpr ⟨_, List.mem_singleton.mpr rfl, ?_⟩)
    rcases hkind with rfl | ⟨helse, rfl⟩
    · simp [← htoken, TokenStream.kind, Node.ofTokenAs]
    · simp [Node.ofTokenAs]
  · intro distance kind hkind
    rw [hadvance]
    have := h.ahead (distance + 1) kind (by simpa [Situation.took, hahead] using hkind)
    rw [← this]
    congr 1
    omega

end Situation.Holds

theorem Diagnostic.isInternal_ofToken (token : Token) {otherwise : Cause}
    (h : otherwise.category ≠ .internal) : (ofToken token otherwise).isInternal = false := by
  unfold ofToken
  split
  · rename_i reason _
    cases reason <;> simp [ofLexError, isInternal, category, Cause.category]
  · simp [isInternal, category, Cause.category]
  · simpa [isInternal, category] using h

theorem Failure.isInternal_diagnostic {failure : Failure}
    (h : ∀ message, failure ≠ .brokenTables message) (name : String) (token : Token)
    (nodes : List Node) : (failure.diagnostic name token nodes).isInternal = false := by
  cases failure
  case expected => exact Diagnostic.isInternal_ofToken token (by simp [Cause.category])
  case unexpected => exact Diagnostic.isInternal_ofToken token (by simp [Cause.category])
  case noRuleApplies => exact Diagnostic.isInternal_ofToken token (by simp [Cause.category])
  case misplacedNode => cases nodes <;> rfl
  case brokenTables message => exact absurd rfl (h message)
  all_goals rfl

theorem replaceLast_concat (change : Node → List Node) (nodes : List Node) (node : Node) :
    replaceLast change (nodes ++ [node]) = nodes ++ change node := by
  induction nodes with
  | nil => rfl
  | cons first rest ih =>
    cases rest with
    | nil => rfl
    | cons second rest => simpa [replaceLast] using ih

namespace Situation.Holds

variable {dialect : Dialect} {stream : TokenStream} {origin start : Nat} {situation : Situation}
  {nodes : List Node} {cursor : Cursor}

theorem exists_last (h : situation.Holds dialect stream origin start nodes cursor) {front : Shape}
    {parts : List Part} (hlast : situation.shape.last? = some (front, parts)) :
    ∃ first last, nodes = first ++ [last] ∧ last.part ∈ parts ∧
      Shape.Fits front (first.map Node.part) := by
  have hfits := h.fits
  rw [Shape.eq_of_last? hlast, Shape.fits_concat_one_iff] at hfits
  obtain ⟨first, part, hmem, hnodes, hfirst⟩ := hfits
  obtain ⟨first, last, rfl, rfl, hlast⟩ := List.map_eq_append_iff.mp hnodes
  obtain ⟨node, rfl, rfl⟩ := List.map_eq_singleton_iff.mp hlast
  exact ⟨first, node, rfl, hmem, hfirst⟩

theorem label (h : situation.Holds dialect stream origin start nodes cursor) {front : Shape}
    {parts : List Part} (hlast : situation.shape.last? = some (front, parts)) (field : Field) :
    Situation.Holds dialect stream origin start
      ⟨front ++ [.one (filling field (parts.map (·.kind)))], situation.ahead, situation.moved⟩
      (replaceLast (fun node => [node.withField field]) nodes) cursor := by
  obtain ⟨first, last, rfl, hmem, hfirst⟩ := h.exists_last hlast
  rw [replaceLast_concat]
  refine ⟨h.fragment.label field, ?_, h.ahead, h.moved, h.bound⟩
  rw [List.map_append]
  refine hfirst.append (Shape.fits_one ?_)
  simp only [Node.part_withField, filling, List.map_map, List.mem_map, Function.comp]
  exact ⟨last.part, hmem, rfl⟩

theorem labelInner (h : situation.Holds dialect stream origin start nodes cursor) {front : Shape}
    {parts : List Part} (hlast : situation.shape.last? = some (front, parts)) (field : Field) :
    Situation.Holds dialect stream origin start
      ⟨front ++ [.one (filling field (parts.map (·.kind)))], situation.ahead, situation.moved⟩
      (replaceLast (Node.innerInField field) nodes) cursor ∨
    Situation.Holds dialect stream origin start
      ⟨front ++ [Form.word .openParen, Form.fill field NodeKind.expressions,
        Form.word .closeParen], situation.ahead, situation.moved⟩
      (replaceLast (Node.innerInField field) nodes) cursor := by
  obtain ⟨first, last, rfl, hmem, hfirst⟩ := h.exists_last hlast
  have hlabel := h.label hlast field
  rw [replaceLast_concat] at hlabel ⊢
  rcases last.innerInField_eq field with ⟨opening, inner, closing, hkind, hchildren, hinner⟩ | hinner
  · right
    refine ⟨h.fragment.labelInner field, ?_, h.ahead, h.moved, h.bound⟩
    rw [List.map_append, hinner]
    refine hfirst.append ?_
    -- the form of a grouped expression tells what its three children are
    have hformed := (h.fragment.formed.of_mem (List.mem_append_right _ (List.mem_singleton.mpr rfl))).1
    rcases hformed with herror | ⟨form, hform, hfits⟩
    · rw [hkind] at herror
      contradiction
    · have hfits : Shape.Fits [Form.word .openParen, Form.bare NodeKind.expressions,
          Form.word .closeParen] (last.children.map Node.part) := by
        rw [hkind] at hform
        simpa [List.mem_singleton.mp hform] using hfits
      simp only [Form.word, Form.bare, hchildren, List.map_cons, List.map_nil,
        Shape.fits_cons_one_iff, Shape.fits_nil_iff, List.cons.injEq] at hfits
      obtain ⟨_, hopening, _, ⟨rfl, rfl⟩, _, hinner, _, ⟨rfl, rfl⟩, _, hclosing, _, ⟨rfl, rfl⟩, -⟩ :=
        hfits
      have hlabelled : (inner.withField field).part ∈ filling field NodeKind.expressions :=
        mem_filling.mpr ⟨rfl, (mem_loose.mp hinner).2⟩
      exact Shape.fits_cons_one_iff.mpr ⟨_, hopening, _, rfl,
        Shape.fits_cons_one_iff.mpr ⟨_, hlabelled, _, rfl, Shape.fits_one hclosing⟩⟩
  · rw [hinner]
    exact .inl hlabel

theorem wrap (h : situation.Holds dialect stream origin start nodes cursor) {kind : NodeKind}
    (haccepts : kind.accepts dialect situation.shape) (offset : UInt32) :
    Situation.Holds dialect stream origin start
      ⟨[.one [⟨none, kind⟩]], situation.ahead, situation.moved⟩ [.ofChildren kind offset nodes]
      cursor := by
  simp only [NodeKind.accepts, Bool.and_eq_true, List.any_eq_true (p := situation.shape.within)]
    at haccepts
  obtain ⟨⟨form, hform, hwithin⟩, hrequired⟩ := haccepts
  have hnodes : nodes ≠ [] := by
    rintro rfl
    exact h.fits.ne_nil hrequired rfl
  exact ⟨h.fragment.wrap offset hnodes hform (h.fits.of_within hwithin),
    Shape.fits_one (List.mem_singleton.mpr rfl), h.ahead, h.moved, h.bound⟩

theorem fresh (h : situation.Holds dialect stream origin start nodes cursor) :
    Situation.Holds dialect stream cursor.position start { situation with shape := [] } []
      cursor :=
  ⟨.empty _, rfl, h.ahead, h.moved, h.bound⟩

theorem append {more : List Node} {last : Situation} {cursor' : Cursor}
    (h : situation.Holds dialect stream origin start nodes cursor)
    (hlast : last.Holds dialect stream cursor.position start more cursor') :
    Situation.Holds dialect stream origin start
      ⟨situation.shape ++ last.shape, last.ahead, last.moved⟩ (nodes ++ more) cursor' := by
  refine ⟨h.fragment.append hlast.fragment, ?_, hlast.ahead, hlast.moved, hlast.bound⟩
  rw [List.map_append]
  exact h.fits.append hlast.fits

theorem after {effect : Situation} {nodes' : List Node} {cursor' : Cursor}
    (h : situation.Holds dialect stream origin start nodes cursor)
    (hle : cursor.position ≤ cursor'.position)
    (heffect : effect.Holds dialect stream origin cursor.position nodes' cursor')
    (hstart : start ≤ cursor.position) :
    (situation.after effect).Holds dialect stream origin start nodes' cursor' := by
  refine ⟨heffect.fragment, heffect.fits, heffect.ahead, ?_, heffect.bound⟩
  intro hmoved
  rcases Bool.or_eq_true_iff.mp hmoved with hmoved | hmoved
  · exact (h.moved hmoved).trans_le hle
  · exact hstart.trans_lt (heffect.moved hmoved)

theorem recovered {diagnostic : Diagnostic} {failed : Cursor} {recovery : Recovery}
    (h : situation.Holds dialect stream origin start nodes cursor)
    (hle : cursor.position ≤ failed.position) (hbound : failed.position ≤ stream.body.size)
    (hrecoverable : diagnostic.isInternal = false) (hstart : start ≤ cursor.position) :
    (situation.recovered recovery).Holds dialect stream origin start
      (nodes ++ [stream.errorNode cursor.position
        (failed.skip recovery stream cursor.position).position diagnostic])
      (failed.skip recovery stream cursor.position) := by
  have hskip := failed.position_le_skip stream recovery cursor.position
  have hskipped := Cursor.skip_position_le recovery hbound cursor.position
  refine ⟨h.fragment.append (.error (hle.trans hskip) hskipped hrecoverable), ?_,
    by simp [Situation.recovered], ?_, hskipped⟩
  · rw [List.map_append]
    exact h.fits.append (Shape.fits_one (List.mem_singleton.mpr rfl))
  · intro hmoved
    simp only [Situation.recovered, Bool.or_eq_true, Bool.and_eq_true] at hmoved
    rcases hmoved with hmoved | ⟨hforce, hkind⟩
    · exact (h.moved hmoved).trans_le (hle.trans hskip)
    · rcases hahead : situation.ahead with _ | ⟨kind, ahead⟩
      · simp [hahead] at hkind
      · have hkind : kind ≠ .eof := by simpa [hahead] using hkind
        have hhere : stream.kind cursor.position = kind := h.ahead 0 kind (by simp [hahead])
        exact hstart.trans_lt (Cursor.lt_skip_position hle hforce (hhere ▸ hkind))

end Situation.Holds

/-- The runs of two expansions from one state are the same, and lead to the goal. -/
structure Rule.Reaches (expand expand' : Nonterminal → Action) (rule : Rule) (setting : Setting)
    (origin start : Nat) (goal : Situation → Prop) (nodes : List Node) (cursor : Cursor) :
    Prop where
  same : rule.run expand setting nodes cursor = rule.run expand' setting nodes cursor
  meets : (rule.run expand setting nodes cursor).Meets setting.stream cursor.position
    fun nodes cursor => ∃ last, goal last ∧
      last.Holds setting.dialect setting.stream origin start nodes cursor

/-- Two expansions give the same and keep the contracts wherever a rule of some rank that began at
`start` may call. -/
def Nonterminal.Calls (expand expand' : Nonterminal → Action) (dialect : Dialect)
    (stream : TokenStream) (rank start : Nat) : Prop :=
  ∀ (name : Nonterminal) (setting : Setting) (origin : Nat) (situation : Situation)
    (nodes : List Node) (cursor : Cursor), setting.stream = stream → setting.dialect = dialect →
    name.Ready situation → situation.Holds dialect stream origin start nodes cursor →
    (start < cursor.position ∨ start = cursor.position ∧ name.rank < rank) →
    expand name setting nodes cursor = expand' name setting nodes cursor ∧
      name.Kept setting origin cursor.position situation (expand name setting nodes cursor)

namespace Rule

variable {expand expand' : Nonterminal → Action} {setting : Setting} {rank origin start : Nat}
  {goal middle : Situation → Prop} {situation : Situation} {nodes : List Node} {cursor : Cursor}
  {rule first next trial otherwise : Rule}

namespace Reaches

theorem seq (hfirst : first.Reaches expand expand' setting origin start middle nodes cursor)
    (hnext : ∀ situation nodes' cursor', middle situation →
      situation.Holds setting.dialect setting.stream origin start nodes' cursor' →
      cursor.position ≤ cursor'.position →
      next.Reaches expand expand' setting origin start goal nodes' cursor') :
    (first.seq next).Reaches expand expand' setting origin start goal nodes cursor := by
  obtain ⟨hsame, hmeets⟩ := hfirst
  rcases hrun : first.run expand setting nodes cursor with ⟨nodes', cursor'⟩ | ⟨diagnostic, cursor'⟩
  · rw [hrun] at hsame hmeets
    obtain ⟨hle, -, situation, hmiddle, hholds⟩ := hmeets
    obtain ⟨hsame', hmeets'⟩ := hnext situation nodes' cursor' hmiddle hholds hle
    refine ⟨?_, ?_⟩
    · simp only [run, hrun, ← hsame, hsame']
    · simp only [run, hrun]
      exact hmeets'.mono hle
  · rw [hrun] at hsame hmeets
    refine ⟨?_, ?_⟩
    · simp only [run, hrun, ← hsame]
    · simp only [run, hrun]
      exact hmeets

theorem attempt (htrial : trial.Reaches expand expand' setting origin start middle nodes cursor)
    (hnext : ∀ situation nodes' cursor', middle situation →
      situation.Holds setting.dialect setting.stream origin start nodes' cursor' →
      cursor.position ≤ cursor'.position →
      next.Reaches expand expand' setting origin start goal nodes' cursor')
    (hotherwise : ∀ furthest, otherwise.Reaches expand expand' setting origin start goal nodes
      ⟨cursor.position, furthest⟩) :
    (Rule.attempt trial next otherwise).Reaches expand expand' setting origin start goal nodes
      cursor := by
  have hsame := htrial.same
  rcases hrun : trial.run expand setting nodes cursor with ⟨nodes', cursor'⟩ | ⟨diagnostic, failed⟩
  · obtain ⟨hread, hmeets⟩ := htrial.seq hnext
    rw [hrun] at hsame
    simp only [run, hrun, ← hsame] at hread hmeets
    refine ⟨?_, ?_⟩
    · simp only [run, hrun, ← hsame, hread]
    · simp only [run, hrun]
      exact hmeets
  · obtain ⟨hread, hmeets⟩ := hotherwise failed.furthest
    rw [hrun] at hsame
    refine ⟨?_, ?_⟩
    · simp only [run, hrun, ← hsame]
      exact hread
    · simp only [run, hrun]
      exact hmeets

theorem apart (hholds : situation.Holds setting.dialect setting.stream origin start nodes cursor)
    (hrule : rule.Reaches expand expand' setting cursor.position start
      (fun last => goal ⟨situation.shape ++ last.shape, last.ahead, last.moved⟩) [] cursor) :
    (Rule.apart rule).Reaches expand expand' setting origin start goal nodes cursor := by
  obtain ⟨hsame, hmeets⟩ := hrule
  rcases hrun : rule.run expand setting [] cursor with ⟨more, cursor'⟩ | ⟨diagnostic, cursor'⟩
  · rw [hrun] at hsame hmeets
    obtain ⟨hle, hbound, last, hgoal, hlast⟩ := hmeets
    refine ⟨by simp only [run, hrun, ← hsame], ?_⟩
    simp only [run, hrun]
    exact ⟨hle, hbound, _, hgoal, hholds.append hlast⟩
  · rw [hrun] at hsame hmeets
    refine ⟨by simp only [run, hrun, ← hsame], ?_⟩
    simp only [run, hrun]
    exact hmeets

theorem recover {recovery : Recovery}
    (hholds : situation.Holds setting.dialect setting.stream origin start nodes cursor)
    (hstart : start ≤ cursor.position) (hgoal : goal (situation.recovered recovery))
    (hrule : rule.Reaches expand expand' setting cursor.position start
      (fun last => goal ⟨situation.shape ++ last.shape, last.ahead, last.moved⟩) [] cursor) :
    (Rule.recover recovery rule).Reaches expand expand' setting origin start goal nodes cursor := by
  have hsame := hrule.same
  rcases hrun : rule.run expand setting [] cursor with ⟨more, cursor'⟩ | ⟨diagnostic, failed⟩
  · obtain ⟨hread, hmeets⟩ := apart hholds hrule
    rw [hrun] at hsame
    simp only [run, hrun] at hmeets
    refine ⟨by simp only [run, hrun, ← hsame], ?_⟩
    simp only [run, hrun]
    exact hmeets
  · have hmeets := hrule.meets
    rw [hrun] at hsame hmeets
    obtain ⟨hle, hbound, hrecoverable⟩ := hmeets
    refine ⟨by simp only [run, hrun, ← hsame], ?_⟩
    simp only [run, hrun, TokenStream.recover, hrecoverable, Bool.false_eq_true, if_false]
    have hskip := failed.position_le_skip setting.stream recovery cursor.position
    exact ⟨hle.trans hskip, Cursor.skip_position_le recovery hbound _, _, hgoal,
      (hholds.recovered hle hbound hrecoverable hstart).congr_position rfl⟩

end Reaches

theorem LeadsTo.exists_learnt {distance : Nat} {next : TokenKind → Rule}
    (h : (Rule.look distance next).LeadsTo rank setting.dialect setting.context goal situation)
    (hholds : situation.Holds setting.dialect setting.stream origin start nodes cursor) :
    ∃ learnt, (next (setting.stream.kind (cursor.position + distance))).LeadsTo rank
        setting.dialect setting.context goal learnt ∧
      learnt.Holds setting.dialect setting.stream origin start nodes cursor := by
  unfold LeadsTo at h
  split at h
  · rename_i kind hkind
    exact ⟨situation, hholds.ahead _ _ hkind ▸ h, hholds⟩
  · exact ⟨_, h _, hholds.learn distance⟩

theorem LeadsTo.exists_narrowed {next : Option Operand → Rule}
    (h : (Rule.byOperand next).LeadsTo rank setting.dialect setting.context goal situation)
    (hholds : situation.Holds setting.dialect setting.stream origin start nodes cursor) :
    ∃ narrowed, (next (Operand.ofNodes nodes)).LeadsTo rank setting.dialect setting.context goal
        narrowed ∧
      narrowed.Holds setting.dialect setting.stream origin start nodes cursor := by
  unfold LeadsTo at h
  split at h
  · rename_i front parts hlast
    obtain ⟨first, last, rfl, hmem, hfirst⟩ := hholds.exists_last hlast
    refine ⟨_, by simpa [Operand.ofNodes, Node.part] using h last.part hmem _, ?_⟩
    refine ⟨hholds.fragment, ?_, hholds.ahead, hholds.moved, hholds.bound⟩
    rw [List.map_append]
    exact hfirst.append (Shape.fits_one (List.mem_singleton.mpr rfl))
  · cases nodes with
    | nil =>
      exact ⟨_, h.1, hholds.fragment, rfl, hholds.ahead, hholds.moved, hholds.bound⟩
    | cons node nodes =>
      have hsome : ∃ operand, Operand.ofNodes (node :: nodes) = some operand := by
        simp [Operand.ofNodes, List.getLast?_cons]
      obtain ⟨operand, hsome⟩ := hsome
      exact ⟨situation, hsome ▸ h.2 operand, hholds⟩

/-- What the grammar says of a rule, by the syntax of the rule, is so of its runs. -/
theorem LeadsTo.reaches
    (hcalls : Nonterminal.Calls expand expand' setting.dialect setting.stream rank start)
    (h : rule.LeadsTo rank setting.dialect setting.context goal situation)
    (hholds : situation.Holds setting.dialect setting.stream origin start nodes cursor)
    (hstart : start ≤ cursor.position) :
    rule.Reaches expand expand' setting origin start goal nodes cursor := by
  induction rule generalizing setting goal situation origin nodes cursor with
  | empty => exact ⟨rfl, le_rfl, hholds.bound, situation, h, hholds⟩
  | seq first next ihFirst ihNext =>
    exact (ihFirst hcalls h hholds hstart).seq fun _ _ _ hmiddle hholds' hle =>
      ihNext hcalls hmiddle hholds' (hstart.trans hle)
  | take kind =>
    unfold LeadsTo at h
    split at h
    · contradiction
    · rename_i token ahead hahead
      obtain ⟨heof, hrenames, hgoal⟩ := h
      have htook := hholds.took hahead heof hrenames hstart
      exact ⟨rfl, cursor.position_le_advance _, htook.bound, _, hgoal, htook⟩
  | look distance next ih =>
    obtain ⟨learnt, hnext, hlearnt⟩ := h.exists_learnt hholds
    have hexamined : learnt.Holds setting.dialect setting.stream origin start nodes
        (cursor.examine setting.stream (cursor.position + distance)) :=
      hlearnt.congr_position rfl
    obtain ⟨hsame, hmeets⟩ := ih _ hcalls hnext hexamined hstart
    exact ⟨hsame, hmeets⟩
  | fail failure =>
    exact ⟨rfl, le_rfl, hholds.bound, Failure.isInternal_diagnostic h _ _ _⟩
  | label field =>
    unfold LeadsTo at h
    split at h
    · rename_i front parts hlast
      exact ⟨rfl, le_rfl, hholds.bound, _, h, hholds.label hlast field⟩
    · contradiction
  | labelInner field =>
    unfold LeadsTo at h
    split at h
    · rename_i front parts hlast
      rcases hholds.labelInner hlast field with hlabel | hlabel
      · exact ⟨rfl, le_rfl, hholds.bound, _, h.1, hlabel⟩
      · exact ⟨rfl, le_rfl, hholds.bound, _, h.2, hlabel⟩
    · contradiction
  | wrap kind =>
    obtain ⟨haccepts, hgoal⟩ := h
    exact ⟨rfl, by split <;> exact le_rfl, by split <;> exact hholds.bound, _, hgoal,
      (hholds.wrap haccepts _).congr_position (by split <;> rfl)⟩
  | apart rule ih => exact .apart hholds (ih hcalls h hholds.fresh hstart)
  | call name =>
    obtain ⟨hlight, hready, hgoal⟩ := h
    have hcall : start < cursor.position ∨ start = cursor.position ∧ name.rank < rank := by
      rcases hlight with hmoved | hrank
      · exact .inl (hholds.moved hmoved)
      · omega
    obtain ⟨hsame, hkept⟩ := hcalls name setting origin situation nodes cursor rfl rfl hready hholds
      hcall
    refine ⟨hsame, ?_⟩
    simp only [run]
    exact hkept.imp fun hle ⟨effect, heffect, hafter⟩ =>
      ⟨_, hgoal effect heffect, hholds.after hle hafter hstart⟩
  | within context rule ih =>
    have hreaches : rule.Reaches expand expand' { setting with context } origin start goal nodes
        cursor := by
      apply ih
      · exact hcalls
      · exact h
      · exact hholds
      · exact hstart
    exact ⟨hreaches.same, hreaches.meets⟩
  | byContext next ih =>
    obtain ⟨hsame, hmeets⟩ := ih _ hcalls h hholds hstart
    exact ⟨hsame, hmeets⟩
  | byDialect next ih =>
    obtain ⟨hsame, hmeets⟩ := ih _ hcalls h hholds hstart
    exact ⟨hsame, hmeets⟩
  | byOperand next ih =>
    obtain ⟨narrowed, hnext, hnarrowed⟩ := h.exists_narrowed hholds
    obtain ⟨hsame, hmeets⟩ := ih _ hcalls hnext hnarrowed hstart
    exact ⟨hsame, hmeets⟩
  | recover recovery rule ih =>
    exact .recover hholds hstart h.2 (ih hcalls h.1 hholds.fresh hstart)
  | attempt trial next otherwise ihTrial ihNext ihOtherwise =>
    refine (ihTrial hcalls h.1 hholds hstart).attempt (fun _ _ _ hmiddle hholds' hle => ?_)
      fun furthest => ?_
    · exact ihNext hcalls hmiddle hholds' (hstart.trans hle)
    · exact ihOtherwise hcalls h.2 (hholds.congr_position rfl) hstart
  | naming rule ih =>
    have hreaches : rule.Reaches expand expand'
        { setting with name := (setting.stream.get cursor.position).value } origin start goal nodes
        (cursor.examineHere setting.stream) := by
      apply ih
      · exact hcalls
      · exact h
      · exact hholds.congr_position rfl
      · exact hstart
    exact ⟨hreaches.same, hreaches.meets⟩

end Rule

end LosslessSyntax
