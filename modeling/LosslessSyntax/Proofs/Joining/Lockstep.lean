import LosslessSyntax.Proofs.Bounds
import LosslessSyntax.Proofs.Dialects.Clean
import LosslessSyntax.Proofs.Following
import LosslessSyntax.Proofs.Locality
/-!
One stream goes on where another one ends, with the start of an item. What is read without errors
from the stream that ends is read in the same way from the one that goes on: a rule that looks at
the end of file does with the start of an item what it does there, or else it fails there. Whether
that is so is a matter of the rule and the kinds of the tokens, and the main statement carries it
over to the runs.
-/
namespace LosslessSyntax

open Node (Throughout)

/-- An item starts at a position, a function with its name. -/
def StartsItem (kinds : Nat → TokenKind) (position : Nat) : Prop :=
  kinds position ∈ Recovery.itemStarts ∧
    (kinds position = .fnKeyword → kinds (position + 1) = .identifier)

instance (kinds : Nat → TokenKind) (position : Nat) : Decidable (StartsItem kinds position) :=
  inferInstanceAs (Decidable (_ ∧ _))

/-- The first stream is an initial part of the second one, up to the start of an item. -/
structure TokenStream.GoesOn (old new : TokenStream) : Prop where
  get_eq : ∀ index < old.body.size, new.get index = old.get index
  ends : old.EndsOnce
  final : old.final.span.isEmpty
  starts : StartsItem new.kind old.body.size

/-- The node is no error, and a leaf has text. -/
structure Node.Solid (node : Node) : Prop where
  kind_ne : node.kind ≠ .error
  span : node.children = [] → node.span.isEmpty = false

open Node (Solid)

theorem Node.solid_lingers : Lingers Solid where
  withField _ _ := ⟨fun h => ⟨h.kind_ne, h.span⟩, fun h => ⟨h.kind_ne, h.span⟩⟩
  grouped node hkind hchildren := ⟨by simp [hkind], fun h => absurd h hchildren⟩

def Setting.on (setting : Setting) (stream : TokenStream) : Setting := { setting with stream }

@[simp] theorem Setting.on_stream (setting : Setting) (stream : TokenStream) :
    (setting.on stream).stream = stream := rfl

@[simp] theorem Setting.on_context (setting : Setting) (stream : TokenStream) :
    (setting.on stream).context = setting.context := rfl

@[simp] theorem Setting.on_dialect (setting : Setting) (stream : TokenStream) :
    (setting.on stream).dialect = setting.dialect := rfl

namespace TokenStream.GoesOn

variable {old new : TokenStream}

theorem get_of_kind_ne_eof (h : old.GoesOn new) {index : Nat} (hkind : old.kind index ≠ .eof) :
    new.get index = old.get index :=
  h.get_eq index (lt_of_kind_ne_eof hkind)

theorem kind_of_kind_ne_eof (h : old.GoesOn new) {index : Nat} (hkind : old.kind index ≠ .eof) :
    new.kind index = old.kind index :=
  congrArg Token.kind (h.get_of_kind_ne_eof hkind)

end TokenStream.GoesOn

/-- From a position on a rule reads nothing, and looks are all it takes. -/
def Rule.Passes (kinds : Nat → TokenKind) (position : Nat) : Rule → Prop
  | .empty => True
  | .look distance next => (next (kinds (position + distance))).Passes kinds position
  | .byDialect next => (next .canonical).Passes kinds position
  | _ => False

/-- At the end of file a rule fails, or it takes what is not there, or it reads nothing and it may
be stuck there. -/
def Rule.Founders : Rule → Prop → Prop
  | .empty, stuck => stuck
  | .seq first next, stuck => first.Founders (next.Founders stuck)
  | .take _, _ => True
  | .look _ next, stuck => (next .eof).Founders stuck
  | .fail _, _ => True
  | .label _, stuck | .labelInner _, stuck | .wrap _, stuck => stuck
  | .apart rule, stuck => rule.Founders stuck
  | .call _, _ => False
  | .within _ rule, stuck => rule.Founders stuck
  | .byContext next, stuck => ∀ context, (next context).Founders stuck
  | .byDialect next, stuck => (next .canonical).Founders stuck
  | .byOperand next, stuck => ∀ operand, (next operand).Founders stuck
  | .recover _ rule, stuck => rule.Founders stuck
  | .attempt _ _ _, _ => False
  | .naming rule, stuck => rule.Founders stuck

namespace Nonterminal

/-- A nonterminal that ends at the end of file without having come to its own end: the bracket that
closes it is missing. -/
def EndsEarly : Nonterminal → Prop
  | .list _ | .arms | .statements | .members _ => True
  | _ => False

def IsJoinable (kind : TokenKind) : Nonterminal → Prop
  | .item => kind ≠ .eof
  | .expression power | .operators power => power < .member
  | .typeNameExpression => kind = .typeIdentifier
  | _ => True

/-- Where a nonterminal can be when the stream that goes on is not read in the same way: at the end
of file, with a bracket open, or at the parenthesis behind a type name. -/
def EndsAt (kinds : Nat → TokenKind) (name : Nonterminal) (after : List Node) (position : Nat) :
    Prop :=
  match name with
  | .typeNameExpression =>
    kinds position = .openParen ∧ after.getLast?.map (·.kind) = some .typeIdentifier
  | _ => kinds position = .eof ∧ name.EndsEarly

end Nonterminal

/-- What a look at a token asks for. A token that both streams have leads to a rule that persists.
At the end of file the rules for the two streams are the same, or else they read nothing, or the one
that the end of file leads to gives up. -/
structure Rule.LooksOn (old new : Nat → TokenKind) (distance : Nat) (next : TokenKind → Rule)
    (persists : TokenKind → Prop) (goal : Nat → Prop) (stuck : Prop) (position : Nat) : Prop where
  token : old (position + distance) ≠ .eof → persists (old (position + distance))
  near : old (position + distance) = .eof →
    ∀ before, distance = before + 1 → old (position + before) ≠ .eof
  same : old (position + distance) = .eof → StartsItem new (position + distance) →
    next (new (position + distance)) = next .eof → persists .eof
  other : old (position + distance) = .eof → StartsItem new (position + distance) →
    next (new (position + distance)) ≠ next .eof →
      ((next .eof).Passes old position ∧
        (next (new (position + distance))).Passes new position ∧ goal position) ∨
      (distance = 0 ∧ (next .eof).Founders stuck) ∨ ∃ failure, next .eof = .fail failure

/-- From a position on a rule does the same in a stream that ends and in one that goes on with an
item, and then the goal holds where it ends. Or else it ends at the end of file and may be stuck. -/
def Rule.Persists (old new : Nat → TokenKind) : Rule → (Nat → Prop) → Prop → Nat → Prop
  | .empty, goal, _, position => goal position
  | .seq first next, goal, stuck, position =>
    first.Persists old new (next.Persists old new goal stuck) (next.Founders stuck) position
  | .take _, goal, _, position => old position ≠ .eof → goal (position + 1)
  | .look distance next, goal, stuck, position =>
    LooksOn old new distance next (fun kind => (next kind).Persists old new goal stuck position)
      goal stuck position
  | .fail _, _, _, _ => True
  | .label _, goal, _, position | .labelInner _, goal, _, position | .wrap _, goal, _, position =>
    goal position
  | .apart rule, goal, stuck, position => rule.Persists old new goal stuck position
  | .call name, goal, stuck, position =>
    name.IsJoinable (old position) ∧ name ≠ .typeNameExpression ∧ (∀ later, goal later) ∧
      (name.EndsEarly → stuck)
  | .within _ rule, goal, stuck, position => rule.Persists old new goal stuck position
  | .byContext next, goal, stuck, position =>
    ∀ context, (next context).Persists old new goal stuck position
  | .byDialect next, goal, stuck, position => (next .canonical).Persists old new goal stuck position
  | .byOperand next, goal, stuck, position =>
    ∀ operand, (next operand).Persists old new goal stuck position
  | .recover _ rule, goal, stuck, position => rule.Persists old new goal stuck position
  | .attempt _ _ _, _, _, _ => False
  | .naming rule, goal, stuck, position =>
    old position ≠ .eof ∧ rule.Persists old new goal stuck position

namespace Rule

variable {old new : Nat → TokenKind} {goal : Nat → Prop} {stuck : Prop} {position : Nat}
  {rule next yes no : Rule} {rules : List Rule} {kind : TokenKind} {field : Field}

attribute [simp] Passes Founders Persists Nonterminal.EndsEarly Nonterminal.IsJoinable

@[simp] theorem founders_ite {c : Prop} [Decidable c] :
    (if c then yes else no).Founders stuck ↔
      (c → yes.Founders stuck) ∧ (¬c → no.Founders stuck) := by
  split <;> simp [*]

@[simp] theorem founders_steps_singleton :
    (steps [rule]).Founders stuck ↔ rule.Founders stuck := Iff.rfl

@[simp] theorem founders_steps_cons :
    (steps (rule :: next :: rules)).Founders stuck ↔
      rule.Founders ((steps (next :: rules)).Founders stuck) := Iff.rfl

@[simp] theorem founders_onKind {next : TokenKind → Rule} :
    (onKind next).Founders stuck ↔ (next .eof).Founders stuck := Iff.rfl

@[simp] theorem founders_ifAt (hkind : kind ≠ .eof) :
    (ifAt kind yes no).Founders stuck ↔ no.Founders stuck := by
  simp [ifAt, hkind.symm]

@[simp] theorem founders_expect (hkind : kind ≠ .eof) : (expect kind).Founders stuck := by
  simp [expect, expectAs, hkind]

@[simp] theorem persists_ite {c : Prop} [Decidable c] :
    (if c then yes else no).Persists old new goal stuck position ↔
      (c → yes.Persists old new goal stuck position) ∧
        (¬c → no.Persists old new goal stuck position) := by
  split <;> simp [*]

@[simp] theorem persists_steps_singleton :
    (steps [rule]).Persists old new goal stuck position ↔
      rule.Persists old new goal stuck position := Iff.rfl

@[simp] theorem persists_steps_cons :
    (steps (rule :: next :: rules)).Persists old new goal stuck position ↔
      rule.Persists old new ((steps (next :: rules)).Persists old new goal stuck)
        ((steps (next :: rules)).Founders stuck) position := Iff.rfl

@[simp] theorem persists_inField :
    (inField field rule).Persists old new goal stuck position ↔
      rule.Persists old new goal stuck position := Iff.rfl

@[simp] theorem persists_child {name : Nonterminal} :
    (child name).Persists old new goal stuck position ↔
      name.IsJoinable (old position) ∧ name ≠ .typeNameExpression ∧ (∀ later, goal later) ∧
        (name.EndsEarly → stuck) := Iff.rfl

@[simp] theorem looksOn_ite {distance : Nat} {persists : TokenKind → Prop}
    (hkind : kind ∉ .eof :: Recovery.itemStarts) :
    LooksOn old new distance (fun found => if found = kind then yes else no) persists goal stuck
        position ↔
      (old (position + distance) ≠ .eof → persists (old (position + distance))) ∧
      (old (position + distance) = .eof →
        (∀ before, distance = before + 1 → old (position + before) ≠ .eof) ∧
        (StartsItem new (position + distance) → persists .eof)) := by
  simp only [List.mem_cons, not_or] at hkind
  have hsame (h : StartsItem new (position + distance)) :
      (if new (position + distance) = kind then yes else no) =
        if TokenKind.eof = kind then yes else no := by
    have hne : new (position + distance) ≠ kind := fun hnew => hkind.2 (hnew ▸ h.1)
    rw [if_neg hne, if_neg (Ne.symm hkind.1)]
  refine ⟨fun h => ⟨h.token, fun heof => ⟨h.near heof, fun hstarts =>
    h.same heof hstarts (hsame hstarts)⟩⟩, fun h => ⟨h.1, fun heof => (h.2 heof).1,
      fun heof hstarts _ => (h.2 heof).2 hstarts, fun _ hstarts hne => absurd (hsame hstarts) hne⟩⟩

theorem persists_onKind_of_founders {next : TokenKind → Rule}
    (h : old position ≠ .eof → (next (old position)).Persists old new goal stuck position)
    (hpersists : (next .eof).Persists old new goal stuck position)
    (hfounders : (next .eof).Founders stuck) :
    (onKind next).Persists old new goal stuck position where
  token := h
  near _ _ hzero := by omega
  same _ _ _ := hpersists
  other _ _ _ := .inr (.inl ⟨rfl, hfounders⟩)

theorem persists_onKind_of_same {next : TokenKind → Rule}
    (h : old position ≠ .eof → (next (old position)).Persists old new goal stuck position)
    (hsame : ∀ kind ∈ Recovery.itemStarts, next kind = next .eof)
    (hpersists : (next .eof).Persists old new goal stuck position) :
    (onKind next).Persists old new goal stuck position where
  token := h
  near _ _ hzero := by omega
  same _ _ _ := hpersists
  other _ hstarts hne := absurd (hsame _ hstarts.1) hne

theorem persists_onKind_of_ne_eof {next : TokenKind → Rule} (heof : old position ≠ .eof)
    (h : (next (old position)).Persists old new goal stuck position) :
    (onKind next).Persists old new goal stuck position :=
  ⟨fun _ => h, fun hend => absurd hend heof, fun hend => absurd hend heof,
    fun hend => absurd hend heof⟩

@[simp] theorem persists_ifAt (hkind : kind ∉ .eof :: Recovery.itemStarts) :
    (ifAt kind yes no).Persists old new goal stuck position ↔
      (old position = kind → yes.Persists old new goal stuck position) ∧
      (old position ≠ kind → (old position = .eof → StartsItem new position) →
        no.Persists old new goal stuck position) := by
  have hne : kind ≠ .eof := fun h => hkind (h ▸ List.mem_cons_self)
  rw [ifAt, onKind, Persists, looksOn_ite hkind]
  by_cases heof : old position = .eof
  · simp [heof, hne.symm]
  · simp [heof]

@[simp] theorem persists_expectAs {what : String} (hkind : kind ≠ .eof) :
    (expectAs kind what).Persists old new goal stuck position ↔
      (old position = kind → goal (position + 1)) := by
  refine ⟨fun h hfound => ?_, fun h => persists_onKind_of_founders ?_ ?_ ?_⟩
  · simpa [hfound, hkind] using h.token (hfound ▸ hkind)
  · simp +contextual [h]
  · simp [hkind.symm]
  · simp [hkind.symm]

@[simp] theorem persists_expect (hkind : kind ≠ .eof) :
    (expect kind).Persists old new goal stuck position ↔
      (old position = kind → goal (position + 1)) := persists_expectAs hkind

@[simp] theorem persists_optional (hkind : kind ∉ .eof :: Recovery.itemStarts) :
    (Rule.optional kind).Persists old new goal stuck position ↔
      (old position = kind → goal (position + 1)) ∧
      (old position ≠ kind → (old position = .eof → StartsItem new position) → goal position) := by
  have hne : kind ≠ .eof := fun h => hkind (h ▸ List.mem_cons_self)
  refine (persists_ifAt hkind).trans (and_congr_left fun _ => ?_)
  simp +contextual [hne]

end Rule

namespace Nonterminal

structure AllPersist (old new : TokenStream) (expand : Nonterminal → Action) : Prop where
  retains : ∀ name, (expand name).RetainsAll Solid
  follows : ∀ (name : Nonterminal) (setting : Setting) (nodes : List Node)
    (cursor cursor' : Cursor), setting.stream = old → setting.dialect = .canonical → cursor'.position = cursor.position →
    cursor.position ≤ old.body.size → name.IsJoinable (old.kind cursor.position) →
    (expand name setting nodes cursor).Follows Solid (· ≤ old.body.size) (name.EndsAt old.kind)
      (expand name (setting.on new) nodes cursor')

end Nonterminal

namespace Rule

variable {expand : Nonterminal → Action} {setting : Setting} {nodes : List Node}
  {cursor cursor' : Cursor} {goal : Nat → Prop} {stuck : Prop} {rule first next : Rule}

theorem Passes.run_eq {stream : TokenStream} {position : Nat} (h : rule.Passes stream.kind position)
    (expand : Nonterminal → Action) (setting : Setting) (nodes : List Node) (cursor : Cursor)
    (hstream : setting.stream = stream) (hdialect : setting.dialect = .canonical)
    (hposition : cursor.position = position) :
    ∃ after, rule.run expand setting nodes cursor = .done nodes after ∧
      after.position = position := by
  subst hstream hposition
  induction rule generalizing cursor with
  | empty => exact ⟨cursor, rfl, rfl⟩
  | look distance next ih => exact ih _ _ h
  | byDialect next ih =>
    simp only [run, hdialect]
    exact ih _ _ h
  | _ => exact h.elim

theorem not_throughout_take {stream : TokenStream} {position : Nat} {kind : Option NodeKind}
    (hfinal : stream.final.span.isEmpty) (hsize : stream.body.size ≤ position) :
    ¬Throughout Solid (nodes ++ [Node.ofTokenAs kind (stream.get position)]) := by
  intro h
  have hsolid := ((Node.throughout_append.mp h).2.of_mem List.mem_cons_self).1.span
  rw [TokenStream.get, Array.getElem?_eq_none hsize, Option.getD_none] at hsolid
  cases kind <;> simp [Node.ofTokenAs, Node.ofToken, Node.leaf, hfinal] at hsolid

theorem not_throughout_wrap {kind : NodeKind} {offset : UInt32} :
    ¬Throughout Solid [Node.ofChildren kind offset []] := by
  intro h
  have hsolid := (h.of_mem List.mem_cons_self).1.span rfl
  simp [Node.ofChildren, Node.spanOf, Span.emptyAt, Span.isEmpty] at hsolid

theorem Founders.outcome {old : TokenStream} (hretains : ∀ name, (expand name).RetainsAll Solid)
    (hends : old.EndsOnce) (hfinal : old.final.span.isEmpty) (hstream : setting.stream = old)
    (hdialect : setting.dialect = .canonical) (heof : old.kind cursor.position = .eof)
    (h : rule.Founders stuck) :
    (rule.run expand setting nodes cursor).StaysStuck Solid
      fun _ position => old.kind position = .eof ∧ stuck := by
  induction rule generalizing setting nodes cursor stuck with
  | empty => exact fun _ => ⟨heof, h⟩
  | seq first next ihFirst ihNext =>
    exact staysStuck_seq (next.run_retainsAll Node.solid_lingers hretains)
      (ihFirst hstream hdialect heof h) fun after cursor hnext =>
        ihNext hstream hdialect hnext.1 hnext.2
  | take kind =>
    subst hstream
    exact fun hsolid => absurd hsolid (not_throughout_take hfinal (hends.le_of_kind_eq_eof heof))
  | look distance next ih =>
    have hlook : setting.stream.kind (cursor.position + distance) = .eof := by
      have hle := hends.le_of_kind_eq_eof heof
      rw [hstream]
      exact TokenStream.kind_eq_eof_of_le (hle.trans (Nat.le_add_right _ _))
    simp only [run, hlook]
    exact ih _ hstream hdialect heof h
  | fail failure => trivial
  | label field => exact fun _ => ⟨heof, h⟩
  | labelInner field => exact fun _ => ⟨heof, h⟩
  | wrap kind =>
    rw [Outcome.StaysStuck, satisfies_wrap]
    intro _
    split <;> exact ⟨heof, h⟩
  | apart rule ih => exact staysStuck_apart (ih hstream hdialect heof h)
  | call name => exact h.elim
  | within context rule ih => exact ih hstream hdialect heof h
  | byContext next ih => exact ih _ hstream hdialect heof (h _)
  | byDialect next ih => exact ih _ hstream hdialect heof (by rw [hdialect]; exact h)
  | byOperand next ih => exact ih _ hstream hdialect heof (h _)
  | recover recovery rule ih =>
    exact staysStuck_recover (fun _ hsolid => hsolid.kind_ne) (ih hstream hdialect heof h)
  | attempt trial next otherwise => exact h.elim
  | naming rule ih => exact ih hstream hdialect heof h

theorem eq_size_of_kind_eq_eof {old : TokenStream} {position distance : Nat} (hends : old.EndsOnce)
    (hbound : position ≤ old.body.size) (heof : old.kind (position + distance) = .eof)
    (hbefore : ∀ before, distance = before + 1 → old.kind (position + before) ≠ .eof) :
    position + distance = old.body.size := by
  have hle := hends.le_of_kind_eq_eof heof
  cases distance with
  | zero => omega
  | succ before =>
    have hlt := TokenStream.lt_of_kind_ne_eof (hbefore before rfl)
    omega

theorem LooksOn.outcome {old new : TokenStream} (hgoes : old.GoesOn new)
    (hcalls : Nonterminal.AllPersist old new expand) (hstream : setting.stream = old)
    (hdialect : setting.dialect = .canonical) (hposition : cursor'.position = cursor.position)
    (hbound : cursor.position ≤ old.body.size) {distance : Nat} {next : TokenKind → Rule}
    {persists : TokenKind → Prop}
    (h : LooksOn old.kind new.kind distance next persists goal stuck cursor.position)
    (hnext : ∀ kind, persists kind →
      ((next kind).run expand setting nodes
          (cursor.examine old (cursor.position + distance))).Follows Solid
        (fun position => position ≤ old.body.size ∧ goal position)
        (fun _ position => old.kind position = .eof ∧ stuck)
        ((next kind).run expand (setting.on new) nodes
          (cursor'.examine new (cursor.position + distance)))) :
    ((Rule.look distance next).run expand setting nodes cursor).Follows Solid
      (fun position => position ≤ old.body.size ∧ goal position)
      (fun _ position => old.kind position = .eof ∧ stuck)
      ((Rule.look distance next).run expand (setting.on new) nodes cursor') := by
  simp only [run, Setting.on_stream, hposition, hstream]
  by_cases heof : old.kind (cursor.position + distance) = .eof
  · have hsize := eq_size_of_kind_eq_eof hgoes.ends hbound heof (h.near heof)
    have hstarts : StartsItem new.kind (cursor.position + distance) := hsize ▸ hgoes.starts
    rw [heof]
    by_cases hsame : next (new.kind (cursor.position + distance)) = next .eof
    · rw [hsame]
      exact hnext _ (h.same heof hstarts hsame)
    rcases h.other heof hstarts hsame with
      ⟨hpass, hpass', hgoal⟩ | ⟨rfl, hfounders⟩ | ⟨failure, hfail⟩
    · obtain ⟨after, hrun, hafter⟩ := hpass.run_eq expand setting nodes
        (cursor.examine old (cursor.position + distance)) hstream hdialect rfl
      obtain ⟨after', hrun', hafter'⟩ := hpass'.run_eq expand (setting.on new) nodes
        (cursor'.examine new (cursor.position + distance)) rfl hdialect hposition
      rw [hrun, hrun']
      refine fun _ => .inl ⟨after', rfl, hafter'.trans hafter.symm, ?_⟩
      rw [hafter]
      exact ⟨hbound, hgoal⟩
    · refine Outcome.StaysStuck.follows ?_
      exact hfounders.outcome hcalls.retains hgoes.ends hgoes.final hstream hdialect heof
    · rw [hfail]
      trivial
  · rw [hgoes.kind_of_kind_ne_eof heof]
    exact hnext _ (h.token heof)

theorem Persists.outcome {old new : TokenStream} (hgoes : old.GoesOn new)
    (hcalls : Nonterminal.AllPersist old new expand) (hstream : setting.stream = old)
    (hdialect : setting.dialect = .canonical) (hposition : cursor'.position = cursor.position)
    (hbound : cursor.position ≤ old.body.size)
    (h : rule.Persists old.kind new.kind goal stuck cursor.position) :
    (rule.run expand setting nodes cursor).Follows Solid
      (fun position => position ≤ old.body.size ∧ goal position)
      (fun _ position => old.kind position = .eof ∧ stuck)
      (rule.run expand (setting.on new) nodes cursor') := by
  induction rule generalizing setting nodes cursor cursor' goal stuck with
  | empty => exact fun _ => .inl ⟨cursor', rfl, hposition, hbound, h⟩
  | seq first next ihFirst ihNext =>
    refine follows_seq (next.run_retainsAll Node.solid_lingers hcalls.retains)
      (ihFirst hstream hdialect hposition hbound h) ?_ ?_
    · exact fun after cursor cursor' hposition hnext =>
        ihNext hstream hdialect hposition hnext.1 hnext.2
    · exact fun after cursor hnext =>
        hnext.2.outcome hcalls.retains hgoes.ends hgoes.final hstream hdialect hnext.1
  | take kind =>
    intro hsolid
    -- the end of file has no text, so a solid fragment has not taken it
    have hkind : old.kind cursor.position ≠ .eof := by
      intro heof
      subst hstream
      exact not_throughout_take hgoes.final (hgoes.ends.le_of_kind_eq_eof heof) hsolid
    have hkind' : new.kind cursor'.position ≠ .eof := by
      rwa [hposition, hgoes.kind_of_kind_ne_eof hkind]
    left
    refine ⟨cursor'.advance new, ?_, ?_, ?_⟩
    · simp only [run, Setting.on, hposition, hgoes.get_of_kind_ne_eof hkind, hstream]
    · rw [Cursor.advance_position_of_ne_eof hkind', hstream,
        Cursor.advance_position_of_ne_eof hkind, hposition]
    · rw [hstream, Cursor.advance_position_of_ne_eof hkind]
      exact ⟨TokenStream.lt_of_kind_ne_eof hkind, h hkind⟩
  | look distance next ih =>
    exact LooksOn.outcome hgoes hcalls hstream hdialect hposition hbound h fun kind hkind =>
      ih kind hstream hdialect hposition hbound hkind
  | fail failure => trivial
  | label field => exact fun _ => .inl ⟨cursor', rfl, hposition, hbound, h⟩
  | labelInner field => exact fun _ => .inl ⟨cursor', rfl, hposition, hbound, h⟩
  | wrap kind =>
    rw [Outcome.Follows, satisfies_wrap]
    intro hsolid
    rcases nodes with _ | ⟨node, nodes⟩
    · exact absurd hsolid not_throughout_wrap
    · exact .inl ⟨cursor', rfl, hposition, hbound, h⟩
  | apart rule ih => exact follows_apart (ih hstream hdialect hposition hbound h)
  | call name =>
    obtain ⟨hjoinable, hname, hgoal, hstuck⟩ := h
    refine (hcalls.follows name setting nodes cursor cursor' hstream hdialect hposition hbound
      hjoinable).imp (fun later hlater => ⟨hlater, hgoal later⟩) fun after later hends => ?_
    have hearly : old.kind later = .eof ∧ name.EndsEarly := by
      cases name <;> first | exact hends | contradiction
    exact ⟨hearly.1, hstuck hearly.2⟩
  | within context rule ih => exact ih hstream hdialect hposition hbound h
  | byContext next ih => exact ih _ hstream hdialect hposition hbound (h _)
  | byDialect next ih =>
    simp only [run, Setting.on_dialect, hdialect]
    exact ih _ hstream hdialect hposition hbound h
  | byOperand next ih => exact ih _ hstream hdialect hposition hbound (h _)
  | recover recovery rule ih =>
    exact follows_recover (fun _ hsolid => hsolid.kind_ne) (ih hstream hdialect hposition hbound h)
  | attempt trial next otherwise => exact h.elim
  | naming rule ih =>
    simp only [run, Setting.on_stream, hposition, hstream, hgoes.get_of_kind_ne_eof h.1]
    exact ih rfl hdialect hposition hbound h.2

end Rule

end LosslessSyntax
