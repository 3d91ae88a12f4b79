import LosslessSyntax.Text.Escape
import LosslessSyntax.Text.Quoted
import LosslessSyntax.Token
/-!
Diagnostics: the cause of a failure and the span it is about. A cause has a name, a category, a
message and usually a tip for the author of the source.
-/
namespace LosslessSyntax

inductive Cause where
  | unterminatedString
  | unterminatedChar
  | invalidEscape (sequence : String)
  | unrecognisedCharacter (character : String)
  | unexpectedToken (token : String)
  | misplacedToken (token message : String)
  | expectedToken (expected found : String)
  | unexpectedEndOfInput
  | invalidAssignmentTarget (target : String)
  | invalidCallTarget (target : String)
  | chainedRange
  | chainedCast
  | mixedVariantShape (variant : String)
  | missingInitializer (name : String)
  | dialectFeature (feature : String)
  | noRuleApplies (token : String)
  | missingPrecedenceLevel (level : String)
  | internalInvariant (message : String)
  | sourceTooLarge (length limit : Nat)
deriving DecidableEq, Repr

/-- Whose fault it is: a malformed lexeme, a token out of place, or a broken invariant. Only the
first two are ever part of a tree. -/
inductive Category where
  | lexical
  | syntactic
  | internal
deriving DecidableEq, Repr

namespace Cause

def category : Cause → Category
  | .unterminatedString | .unterminatedChar | .invalidEscape _ | .unrecognisedCharacter _ =>
    .lexical
  | .missingPrecedenceLevel _ | .internalInvariant _ | .sourceTooLarge _ _ => .internal
  | _ => .syntactic

def name : Cause → String
  | .unterminatedString => "UnterminatedString"
  | .unterminatedChar => "UnterminatedChar"
  | .invalidEscape _ => "InvalidEscape"
  | .unrecognisedCharacter _ => "UnrecognisedCharacter"
  | .unexpectedToken _ => "UnexpectedToken"
  | .misplacedToken _ _ => "UnexpectedTokenDetailed"
  | .expectedToken _ _ => "ExpectedToken"
  | .unexpectedEndOfInput => "UnexpectedEndOfInput"
  | .invalidAssignmentTarget _ => "InvalidAssignmentTarget"
  | .invalidCallTarget _ => "InvalidCallTarget"
  | .chainedRange => "ChainedRange"
  | .chainedCast => "ChainedCast"
  | .mixedVariantShape _ => "MixedVariantShape"
  | .missingInitializer _ => "MissingInitializer"
  | .dialectFeature _ => "DialectFeature"
  | .noRuleApplies _ => "AmbiguityResolutionFallthrough"
  | .missingPrecedenceLevel _ => "MissingPrecedenceLevel"
  | .internalInvariant _ => "InternalInvariant"
  | .sourceTooLarge _ _ => "SourceTooLarge"

def details : Cause → List (String × (String ⊕ Nat))
  | .unterminatedString | .unterminatedChar | .unexpectedEndOfInput | .chainedRange
  | .chainedCast => []
  | .invalidEscape sequence => [("sequence", .inl sequence)]
  | .unrecognisedCharacter character => [("character", .inl character)]
  | .unexpectedToken token => [("token", .inl token)]
  | .misplacedToken token message => [("token", .inl token), ("message", .inl message)]
  | .expectedToken expected found => [("expected", .inl expected), ("found", .inl found)]
  | .invalidAssignmentTarget target | .invalidCallTarget target => [("target", .inl target)]
  | .mixedVariantShape variant => [("variant", .inl variant)]
  | .missingInitializer name => [("name", .inl name)]
  | .dialectFeature feature => [("feature", .inl feature)]
  | .noRuleApplies token => [("token", .inl token)]
  | .missingPrecedenceLevel level => [("level", .inl level)]
  | .internalInvariant message => [("message", .inl message)]
  | .sourceTooLarge length limit => [("len", .inr length), ("limit", .inr limit)]

def message : Cause → String
  | .unterminatedString => "unterminated string literal"
  | .unterminatedChar => "unterminated char literal"
  | .invalidEscape sequence => "invalid escape sequence " ++ Text.quoted sequence
  | .unrecognisedCharacter character => "unrecognised character " ++ Text.quoted character
  | .unexpectedToken token => "unexpected token: " ++ Text.quoted token
  | .misplacedToken token message =>
    "unexpected token (" ++ Text.quoted message ++ "): " ++ Text.quoted token
  | .expectedToken expected found =>
    "expected " ++ Text.quoted expected ++ ", found " ++ Text.quoted found
  | .unexpectedEndOfInput => "unexpected end of input"
  | .invalidAssignmentTarget target => "invalid assignment target: " ++ target
  | .invalidCallTarget target => "invalid call target: " ++ target
  | .chainedRange => "range expressions cannot be chained"
  | .chainedCast => "cast expressions cannot be chained"
  | .mixedVariantShape variant =>
    "variant " ++ Text.quoted variant ++ " mixes a payload with a discriminant"
  | .missingInitializer name => Text.quoted name ++ " is declared without a value"
  | .dialectFeature feature => feature ++ " require the extended dialect"
  | .noRuleApplies token => "no parse rule applies at " ++ Text.quoted token
  | .missingPrecedenceLevel level => "precedence table is missing level " ++ Text.quoted level
  | .internalInvariant message => "internal parser error: " ++ message
  | .sourceTooLarge length limit => s!"source is {length} bytes, spans address at most {limit}"

def tip? : Cause → Option String
  | .unterminatedString => some "Close the string literal with `\"`"
  | .unterminatedChar => some "A char literal holds exactly one character or escape"
  | .invalidEscape sequence =>
    some ("Unknown escape `" ++ sequence ++
      "`, expected one of \\n \\r \\t \\\" \\' \\\\ \\0")
  | .unrecognisedCharacter _ => none
  | .unexpectedToken token => some ("Unexpected token: `" ++ token ++ "`")
  | .misplacedToken token message =>
    some ("Unexpected token: `" ++ token ++ "`, " ++ message)
  | .expectedToken expected found =>
    some ("Expected `" ++ expected ++ "`, found `" ++ found ++ "`")
  | .unexpectedEndOfInput => some "The input ended in the middle of a construct"
  | .invalidAssignmentTarget target =>
    some ("Cannot assign to a " ++ target ++ ", only to a name, member, index or dereference")
  | .invalidCallTarget target =>
    some ("Cannot call a " ++ target ++ ", only a name or member access")
  | .chainedRange => some "Ranges do not chain, add parentheses"
  | .chainedCast => some "Parenthesise the inner cast: `(x as A) as B`"
  | .mixedVariantShape variant =>
    some ("Variant `" ++ variant ++ "` has both a payload and a discriminant value")
  | .missingInitializer name => some ("`" ++ name ++ "` needs a value: `= ...`")
  | .dialectFeature feature => some (feature ++ " are only available in the extended dialect")
  | .noRuleApplies token =>
    some ("`" ++ token ++ "` cannot start a statement or expression here")
  | .missingPrecedenceLevel level => some ("Precedence level `" ++ level ++ "` is missing")
  | .internalInvariant message => some message
  | .sourceTooLarge _ limit => some s!"Split the source into units of at most {limit} bytes"

end Cause

structure Diagnostic where
  cause : Cause
  span : Span
deriving DecidableEq, Repr

namespace Diagnostic

/-- A broken invariant. It is about no place in the source. -/
def internal (message : String) : Diagnostic := ⟨.internalInvariant message, .emptyAt 0⟩

def ofLexError (reason : LexError) (token : Token) : Diagnostic :=
  let cause := match reason with
    | .unterminatedString => .unterminatedString
    | .unterminatedChar => .unterminatedChar
    | .invalidEscape => .invalidEscape (String.ofList (Text.firstInvalidEscape token.value.toList))
    | .unrecognisedCharacter => .unrecognisedCharacter token.value
  ⟨cause, token.span⟩

/-- A token where it cannot stand. Malformed tokens and the end of the source have causes of their
own, and any other token is reported as `otherwise` says. -/
def ofToken (token : Token) (otherwise : Cause) : Diagnostic :=
  match token.kind with
  | .error reason => .ofLexError reason token
  | .eof => ⟨.unexpectedEndOfInput, token.span⟩
  | _ => ⟨otherwise, token.span⟩

def category (diagnostic : Diagnostic) : Category := diagnostic.cause.category

def isInternal (diagnostic : Diagnostic) : Bool := diagnostic.category == .internal

def shifted (diagnostic : Diagnostic) (distance : Int) : Diagnostic :=
  { diagnostic with span := diagnostic.span.shifted distance }

def display (diagnostic : Diagnostic) : String :=
  s!"{diagnostic.cause.name} at {diagnostic.span.start}..{diagnostic.span.stop}: " ++
    diagnostic.cause.message

def checkLength (length : Nat) : Except Diagnostic Unit :=
  if maxSourceLength < length then
    .error ⟨.sourceTooLarge length maxSourceLength, .emptyAt 0⟩
  else .ok ()

end Diagnostic

end LosslessSyntax
