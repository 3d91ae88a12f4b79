import LosslessSyntax.Token.Kind
/-!
Recovery: where a failed part of the grammar gives up and reading goes on.
-/
namespace LosslessSyntax

structure Recovery where
  /-- Kinds that end the skipping and stay for what follows. -/
  stop : List TokenKind
  /-- Kinds that end the skipping and are skipped too. -/
  inclusive : List TokenKind
  /-- Whether at least one token is skipped when the failed part took none. -/
  forceProgress : Bool
deriving DecidableEq, Repr

namespace Recovery

def itemStarts : List TokenKind :=
  [.fnKeyword, .structKeyword, .enumKeyword, .constKeyword, .importKeyword, .testKeyword,
    .pubKeyword, .directive]

def item : Recovery := ⟨itemStarts, [], true⟩

def statement : Recovery :=
  ⟨[.letKeyword, .constKeyword, .returnKeyword, .deferKeyword, .ifKeyword, .forKeyword,
      .loopKeyword, .breakKeyword, .continueKeyword, .closeCurly, .fnKeyword, .structKeyword,
      .enumKeyword, .importKeyword, .testKeyword, .pubKeyword, .directive],
    [], true⟩

/-- A parameter list may stand for nothing at all, so that the function around it goes on. -/
def parameters : Recovery := ⟨.openCurly :: itemStarts, [.closeParen], false⟩

def member : Recovery := ⟨.closeCurly :: itemStarts, [.comma], true⟩

def arm : Recovery := ⟨[.closeCurly], [.comma], true⟩

end Recovery

end LosslessSyntax
