import LosslessSyntax.Parse.Run
import LosslessSyntax.Proofs.Cursor
/-!
Bounds: whatever a rule is and whatever it reads, it goes on from where it is, stays within the
stream and looks at all that it passes.
-/
namespace LosslessSyntax

def Outcome.cursor : Outcome α → Cursor
  | .done _ cursor | .failed _ cursor => cursor

def Action.Advances (action : Action) : Prop :=
  ∀ (setting : Setting) (nodes : List Node) (cursor : Cursor),
    cursor.Reaches setting.stream (action setting nodes cursor).cursor

theorem TokenStream.reaches_recover (stream : TokenStream) (recovery : Recovery) (start : Nat)
    (diagnostic : Diagnostic) (cursor : Cursor) :
    cursor.Reaches stream (stream.recover recovery start diagnostic cursor).cursor := by
  unfold recover
  split
  · exact .refl _
  · exact (Cursor.Reaches.skip _ _ _ _).trans (Cursor.Reaches.examine _ _ _)

theorem Rule.run_advances {expand : Nonterminal → Action} (hexpand : ∀ name, (expand name).Advances)
    (rule : Rule) : Action.Advances (rule.run expand) := by
  intro setting nodes cursor
  induction rule generalizing setting nodes cursor with
  | empty => exact .refl _
  | seq first next ihFirst ihNext =>
    have hfirst := ihFirst setting nodes cursor
    simp only [run]
    split
    · rename_i hrun
      rw [hrun] at hfirst
      exact hfirst.trans (ihNext _ _ _)
    · rename_i hrun
      rw [hrun] at hfirst
      exact hfirst
  | take kind => exact Cursor.Reaches.advance _ _
  | look distance next ih => exact (Cursor.Reaches.examine _ _ _).trans (ih _ _ _ _)
  | fail failure => exact Cursor.Reaches.examineHere _ _
  | label field => exact .refl _
  | labelInner field => exact .refl _
  | wrap kind =>
    simp only [run, Outcome.cursor]
    split
    · exact Cursor.Reaches.examineHere _ _
    · exact .refl _
  | apart rule ih =>
    have hrule := ih setting [] cursor
    simp only [run]
    split <;> simp_all [Outcome.cursor]
  | call name => exact hexpand name setting nodes cursor
  | within context rule ih => exact ih { setting with context } nodes cursor
  | byContext next ih => exact ih _ setting nodes cursor
  | byDialect next ih => exact ih _ setting nodes cursor
  | byOperand next ih => exact ih _ setting nodes cursor
  | recover recovery rule ih =>
    have hrule := ih setting [] cursor
    simp only [run]
    split
    · rename_i hrun
      rw [hrun] at hrule
      exact hrule
    · rename_i diagnostic failed hrun
      rw [hrun] at hrule
      have hrecover := hrule.trans
        (setting.stream.reaches_recover recovery cursor.position diagnostic failed)
      split <;> simp_all [Outcome.cursor]
  | attempt trial next otherwise ihTrial ihNext ihOtherwise =>
    have htrial := ihTrial setting nodes cursor
    simp only [run]
    split
    · rename_i hrun
      rw [hrun] at htrial
      exact htrial.trans (ihNext _ _ _)
    · rename_i hrun
      rw [hrun] at htrial
      -- going back does not take away from what has been looked at
      exact htrial.rewind.trans (ihOtherwise _ _ _)
  | naming rule ih =>
    exact (Cursor.Reaches.examineHere _ _).trans
      (ih { setting with name := (setting.stream.get cursor.position).value } nodes _)

namespace Nonterminal

theorem run_advances (depth : Nat) (name : Nonterminal) : (name.run depth).Advances := by
  induction depth generalizing name with
  | zero => exact fun _ _ _ => .refl _
  | succ depth ih => exact name.rule.run_advances ih

theorem action_advances (name : Nonterminal) : name.action.Advances :=
  fun setting nodes cursor => name.run_advances _ setting nodes cursor

end Nonterminal

end LosslessSyntax
