/-!
Token kinds: what a lexeme can be, the text that names each kind, and the reserved words.
-/
namespace LosslessSyntax

inductive LexError where
  | unterminatedString
  | unterminatedChar
  | invalidEscape
  | unrecognisedCharacter
deriving DecidableEq, Repr

inductive TokenKind where
  | eof
  | identifier
  | typeIdentifier
  | number
  | string
  | char
  | byteChar
  | directive
  | whitespace
  | comment
  | error (reason : LexError)
  | openParen
  | closeParen
  | openCurly
  | closeCurly
  | openBracket
  | closeBracket
  | comma
  | colon
  | semicolon
  | dot
  | dotDot
  | question
  | questionDot
  | questionQuestion
  | fatArrow
  | dollar
  | assignment
  | plusEquals
  | equals
  | notEquals
  | bang
  | less
  | lessEquals
  | greater
  | greaterEquals
  | plus
  | dash
  | star
  | slash
  | percent
  | ampersand
  | pipe
  | caret
  | fnKeyword
  | structKeyword
  | enumKeyword
  | constKeyword
  | letKeyword
  | pubKeyword
  | importKeyword
  | testKeyword
  | ifKeyword
  | elseKeyword
  | forKeyword
  | inKeyword
  | loopKeyword
  | breakKeyword
  | continueKeyword
  | returnKeyword
  | deferKeyword
  | matchKeyword
  | asKeyword
  | andKeyword
  | orKeyword
  | trueKeyword
  | falseKeyword
  | nullKeyword
  | underscore
  | primitive
deriving DecidableEq, Repr, Inhabited

namespace TokenKind

def all : List TokenKind :=
  [.eof, .identifier, .typeIdentifier, .number, .string, .char, .byteChar, .directive,
    .whitespace, .comment, .error .unterminatedString, .error .unterminatedChar,
    .error .invalidEscape, .error .unrecognisedCharacter, .openParen, .closeParen, .openCurly,
    .closeCurly, .openBracket, .closeBracket, .comma, .colon, .semicolon, .dot, .dotDot,
    .question, .questionDot, .questionQuestion, .fatArrow, .dollar, .assignment, .plusEquals,
    .equals, .notEquals, .bang, .less, .lessEquals, .greater, .greaterEquals, .plus, .dash,
    .star, .slash, .percent, .ampersand, .pipe, .caret, .fnKeyword, .structKeyword,
    .enumKeyword, .constKeyword, .letKeyword, .pubKeyword, .importKeyword, .testKeyword,
    .ifKeyword, .elseKeyword, .forKeyword, .inKeyword, .loopKeyword, .breakKeyword,
    .continueKeyword, .returnKeyword, .deferKeyword, .matchKeyword, .asKeyword, .andKeyword,
    .orKeyword, .trueKeyword, .falseKeyword, .nullKeyword, .underscore, .primitive]

theorem mem_all (kind : TokenKind) : kind ∈ all := by
  rcases kind with _ | _ | _ | _ | _ | _ | _ | _ | _ | _ | reason
  case error => cases reason <;> decide
  all_goals decide

/-- A property of kinds is decided by trying them all. -/
instance decidableForall (p : TokenKind → Prop) [DecidablePred p] : Decidable (∀ kind, p kind) :=
  decidable_of_iff (∀ kind ∈ all, p kind)
    ⟨fun h kind => h kind (mem_all kind), fun h kind _ => h kind⟩

/-- How messages and trees call a kind: by its spelling where it has only one. -/
def text : TokenKind → String
  | .eof => "end of file"
  | .identifier => "identifier"
  | .typeIdentifier => "type_identifier"
  | .number => "number"
  | .string => "string"
  | .char => "char"
  | .byteChar => "byte_char"
  | .directive => "directive"
  | .whitespace => "whitespace"
  | .comment => "line_comment"
  | .error _ => "ERROR"
  | .openParen => "("
  | .closeParen => ")"
  | .openCurly => "\x7b"
  | .closeCurly => "\x7d"
  | .openBracket => "["
  | .closeBracket => "]"
  | .comma => ","
  | .colon => ":"
  | .semicolon => ";"
  | .dot => "."
  | .dotDot => ".."
  | .question => "?"
  | .questionDot => "?."
  | .questionQuestion => "??"
  | .fatArrow => "=>"
  | .dollar => "$"
  | .assignment => "="
  | .plusEquals => "+="
  | .equals => "=="
  | .notEquals => "!="
  | .bang => "!"
  | .less => "<"
  | .lessEquals => "<="
  | .greater => ">"
  | .greaterEquals => ">="
  | .plus => "+"
  | .dash => "-"
  | .star => "*"
  | .slash => "/"
  | .percent => "%"
  | .ampersand => "&"
  | .pipe => "|"
  | .caret => "^"
  | .fnKeyword => "fn"
  | .structKeyword => "struct"
  | .enumKeyword => "enum"
  | .constKeyword => "const"
  | .letKeyword => "let"
  | .pubKeyword => "pub"
  | .importKeyword => "import"
  | .testKeyword => "test"
  | .ifKeyword => "if"
  | .elseKeyword => "else"
  | .forKeyword => "for"
  | .inKeyword => "in"
  | .loopKeyword => "loop"
  | .breakKeyword => "break"
  | .continueKeyword => "continue"
  | .returnKeyword => "return"
  | .deferKeyword => "defer"
  | .matchKeyword => "match"
  | .asKeyword => "as"
  | .andKeyword => "and"
  | .orKeyword => "or"
  | .trueKeyword => "true"
  | .falseKeyword => "false"
  | .nullKeyword => "null"
  | .underscore => "_"
  | .primitive => "primitive_type"

/-- White space and comments stand anywhere between tokens and are no part of the grammar. -/
def isExtra : TokenKind → Bool
  | .whitespace | .comment => true
  | _ => false

/-- Names of the built-in types. They are reserved like keywords. -/
def primitiveTypes : List String :=
  ["i8", "i16", "i32", "i64", "isize", "u8", "u16", "u32", "u64", "usize", "bool"]

def keywords : List TokenKind :=
  [.fnKeyword, .structKeyword, .enumKeyword, .constKeyword, .letKeyword, .pubKeyword,
    .importKeyword, .testKeyword, .ifKeyword, .elseKeyword, .forKeyword, .inKeyword,
    .loopKeyword, .breakKeyword, .continueKeyword, .returnKeyword, .deferKeyword,
    .matchKeyword, .asKeyword, .andKeyword, .orKeyword, .trueKeyword, .falseKeyword,
    .nullKeyword, .underscore]

def reservedWords : List (String × TokenKind) :=
  keywords.map (fun kind => (kind.text, kind)) ++ primitiveTypes.map fun name => (name, .primitive)

def ofReserved? (word : String) : Option TokenKind := reservedWords.lookup word

/-- Kinds that stand in a tree as unnamed leaves, in the order of the published schema. -/
def anonymous : List TokenKind :=
  [.openParen, .closeParen, .openCurly, .closeCurly, .openBracket, .closeBracket, .comma,
    .colon, .semicolon, .dot, .dotDot, .question, .questionDot, .questionQuestion, .fatArrow,
    .dollar, .assignment, .plusEquals, .equals, .notEquals, .bang, .less, .lessEquals,
    .greater, .greaterEquals, .plus, .dash, .star, .slash, .percent, .ampersand, .pipe,
    .caret, .fnKeyword, .structKeyword, .enumKeyword, .constKeyword, .letKeyword,
    .importKeyword, .testKeyword, .ifKeyword, .elseKeyword, .forKeyword, .inKeyword,
    .loopKeyword, .returnKeyword, .deferKeyword, .matchKeyword, .asKeyword, .andKeyword,
    .orKeyword]

end TokenKind

end LosslessSyntax
