import LosslessSyntax.Edit.Reparse
import LosslessSyntax.Main
import LosslessSyntax.Options
import LosslessSyntax.Schema.Conformance
import LosslessSyntax.Proofs.Cursor
import LosslessSyntax.Proofs.Fragment
import LosslessSyntax.Proofs.Grammar.Contract
import LosslessSyntax.Proofs.LeadsTo
import LosslessSyntax.Proofs.Reach
import LosslessSyntax.Proofs.Grammar.Obligations
import LosslessSyntax.Proofs.Grammar.Types
import LosslessSyntax.Proofs.Grammar.Lists
import LosslessSyntax.Proofs.Grammar.Patterns
import LosslessSyntax.Proofs.Grammar.Expressions
import LosslessSyntax.Proofs.Grammar.Operators
import LosslessSyntax.Proofs.Grammar.Statements
import LosslessSyntax.Proofs.Grammar.Items
import LosslessSyntax.Proofs.Grammar.Sound
import LosslessSyntax.Proofs.Descent
import LosslessSyntax.Proofs.Lexing.Lexemes
import LosslessSyntax.Proofs.Lexing.Tokens
import LosslessSyntax.Proofs.SourceFile
import LosslessSyntax.Proofs.Bounds
import LosslessSyntax.Proofs.Totality
import LosslessSyntax.Proofs.Conformance
import LosslessSyntax.Proofs.Lossless
import LosslessSyntax.Proofs.Lexing.Settled
import LosslessSyntax.Proofs.Lexing.Bytes
import LosslessSyntax.Proofs.Lexing.Relex
import LosslessSyntax.Proofs.Shifted
import LosslessSyntax.Proofs.Window
import LosslessSyntax.Proofs.Locality
import LosslessSyntax.Proofs.Reuse
import LosslessSyntax.Proofs.Reparse
import LosslessSyntax.Proofs.Execution
import LosslessSyntax.Proofs.Precedence.Operands
import LosslessSyntax.Proofs.Precedence.Frame
import LosslessSyntax.Proofs.Precedence.Climb
import LosslessSyntax.Proofs.Precedence.Operation
import LosslessSyntax.Proofs.Precedence.Reads
import LosslessSyntax.Proofs.Precedence.RoundTrip
import LosslessSyntax.Proofs.Licence
import LosslessSyntax.Proofs.Grammar.Licences
import LosslessSyntax.Proofs.Diagnostics
import LosslessSyntax.Proofs.ItemStarts
import LosslessSyntax.Proofs.Conditions.Bare
import LosslessSyntax.Proofs.Conditions.Heads
import LosslessSyntax.Proofs.Conditions.Shelter
import LosslessSyntax.Proofs.Following
import LosslessSyntax.Proofs.Dialects.Clean
import LosslessSyntax.Proofs.Dialects.Lockstep
import LosslessSyntax.Proofs.Dialects.Productions
import LosslessSyntax.Proofs.Dialects.Expressions
import LosslessSyntax.Proofs.Dialects.Heads
import LosslessSyntax.Proofs.Dialects.Relax
import LosslessSyntax.Proofs.Outline
import LosslessSyntax.Proofs.Lexing.Alone
import LosslessSyntax.Proofs.Lexing.Seams
import LosslessSyntax.Proofs.Rendering
import LosslessSyntax.Proofs.Spans.Covers
import LosslessSyntax.Proofs.Spans.Missing
import LosslessSyntax.Proofs.Spans.Nested
import LosslessSyntax.Proofs.Joining.Lockstep
import LosslessSyntax.Proofs.Joining.Productions
import LosslessSyntax.Proofs.Joining.Concatenation
import LosslessSyntax.Proofs.Extents
import LosslessSyntax.Proofs.Dialects.Extensions
import LosslessSyntax.Proofs.Lexing.Tiling
import LosslessSyntax.Proofs.Reuse.Spared
import LosslessSyntax.Proofs.Reuse.Completeness
import LosslessSyntax.Proofs.Merging
import LosslessSyntax.Proofs.Lexing.Lookahead
import LosslessSyntax.Proofs.Lexing.Restart
import LosslessSyntax.Proofs.Lexing.Quoted
import LosslessSyntax.Proofs.Lexing.Languages
import LosslessSyntax.Proofs.Lexing.Patterns
import LosslessSyntax.Proofs.Lexing.LongestMatch
import LosslessSyntax.Proofs.Lexing.Units
import LosslessSyntax.Proofs.Lexing.Strings
import LosslessSyntax.Proofs.Lexing.Literals
import LosslessSyntax.Proofs.Lexing.InvalidEscapes
import LosslessSyntax.Proofs.Errors.Reports
import LosslessSyntax.Proofs.Errors.Traces
import LosslessSyntax.Proofs.Errors.Productions
import LosslessSyntax.Proofs.Errors.Order
import LosslessSyntax.Proofs.Validity
import LosslessSyntax.Proofs.Layout
import LosslessSyntax.Proofs.Types.Term
import LosslessSyntax.Proofs.Types.RoundTrip
import LosslessSyntax.Proofs.Types.Operands
import LosslessSyntax.Proofs.Lines
import LosslessSyntax.Proofs.Excerpts
import LosslessSyntax.Proofs.Skeletons
import LosslessSyntax.Proofs.Precedence.Validation
import LosslessSyntax.Proofs.Recovery
import LosslessSyntax.Proofs.Progress
import LosslessSyntax.Proofs.Stateful.Machine
import LosslessSyntax.Proofs.Stateful.Agreement
import LosslessSyntax.Proofs.Stateful.Productions
