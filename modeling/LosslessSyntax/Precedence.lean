import LosslessSyntax.Diagnostic
/-!
Operator precedence: the binding powers, the table of operator levels from the loosest to the
tightest, and the check that a table is in order. Assignment and cast stand outside the table.
-/
namespace LosslessSyntax

/-- How tightly an operator binds, from loosest to tightest. -/
inductive BindingPower where
  | default
  | assignment
  | coalesce
  | logicalOr
  | logicalAnd
  | equality
  | comparison
  | range
  | bitwiseOr
  | bitwiseXor
  | bitwiseAnd
  | additive
  | multiplicative
  | cast
  | unary
  | member
  | primary
deriving DecidableEq, Repr, Inhabited

namespace BindingPower

def all : List BindingPower :=
  [.default, .assignment, .coalesce, .logicalOr, .logicalAnd, .equality, .comparison, .range,
    .bitwiseOr, .bitwiseXor, .bitwiseAnd, .additive, .multiplicative, .cast, .unary, .member,
    .primary]

def rank : BindingPower → Nat
  | .default => 0
  | .assignment => 1
  | .coalesce => 2
  | .logicalOr => 3
  | .logicalAnd => 4
  | .equality => 5
  | .comparison => 6
  | .range => 7
  | .bitwiseOr => 8
  | .bitwiseXor => 9
  | .bitwiseAnd => 10
  | .additive => 11
  | .multiplicative => 12
  | .cast => 13
  | .unary => 14
  | .member => 15
  | .primary => 16

instance : LE BindingPower := ⟨fun a b => a.rank ≤ b.rank⟩

instance : LT BindingPower := ⟨fun a b => a.rank < b.rank⟩

instance (a b : BindingPower) : Decidable (a ≤ b) := Nat.decLe a.rank b.rank

instance (a b : BindingPower) : Decidable (a < b) := Nat.decLt a.rank b.rank

end BindingPower

/-- Where an operator of a level stands: between operands, before one or after one. -/
inductive Associativity where
  | left
  | leading
  | trailing
deriving DecidableEq, Repr

structure PrecedenceLevel where
  name : String
  power : BindingPower
  associativity : Associativity
  operators : List TokenKind
deriving DecidableEq, Repr

namespace Precedence

/-- The operator levels, loosest first. -/
def table : List PrecedenceLevel :=
  [⟨"coalesce", .coalesce, .left, [.questionQuestion]⟩,
    ⟨"logical_or", .logicalOr, .left, [.orKeyword]⟩,
    ⟨"logical_and", .logicalAnd, .left, [.andKeyword]⟩,
    ⟨"equality", .equality, .left, [.equals, .notEquals]⟩,
    ⟨"comparison", .comparison, .left, [.less, .greater, .lessEquals, .greaterEquals]⟩,
    ⟨"range", .range, .left, [.dotDot]⟩,
    ⟨"bitwise_or", .bitwiseOr, .left, [.pipe]⟩,
    ⟨"bitwise_xor", .bitwiseXor, .left, [.caret]⟩,
    ⟨"bitwise_and", .bitwiseAnd, .left, [.ampersand]⟩,
    ⟨"additive", .additive, .left, [.plus, .dash]⟩,
    ⟨"multiplicative", .multiplicative, .left, [.star, .slash, .percent]⟩,
    ⟨"unary", .unary, .leading, [.dash, .bang, .ampersand]⟩,
    ⟨"member", .member, .trailing,
      [.dot, .questionDot, .openBracket, .openParen, .matchKeyword]⟩]

def requiredLevels : List String :=
  ["coalesce", "logical_or", "logical_and", "equality", "comparison", "range", "bitwise_or",
    "bitwise_xor", "bitwise_and", "additive", "multiplicative", "unary", "member"]

def levelOf? (kind : TokenKind) : Option PrecedenceLevel :=
  table.find? fun level => level.associativity != .leading && level.operators.contains kind

def power? (kind : TokenKind) : Option BindingPower :=
  match kind with
  | .assignment | .plusEquals => some .assignment
  | .asKeyword => some .cast
  | kind => (levelOf? kind).map (·.power)

def isLeading (kind : TokenKind) : Bool :=
  table.any fun level => level.associativity == .leading && level.operators.contains kind

/-- Checks that the named levels are in the table, each binding tighter than the one before it. -/
def validateNames (table : List PrecedenceLevel) :
    Option PrecedenceLevel → List String → Except Diagnostic Unit
  | _, [] => .ok ()
  | previous, name :: names =>
    match table.find? (·.name = name) with
    | none => .error ⟨.missingPrecedenceLevel name, .emptyAt 0⟩
    | some level =>
      match previous with
      | none => validateNames table (some level) names
      | some previous =>
        if level.power ≤ previous.power then
          .error (.internal ("precedence level `" ++ level.name ++
            "` does not bind tighter than `" ++ previous.name ++ "`"))
        else validateNames table (some level) names

/-- Checks that every required level is there, in order, with strictly rising powers. -/
def validate (table : List PrecedenceLevel) : Except Diagnostic Unit :=
  validateNames table none requiredLevels

end Precedence

end LosslessSyntax
