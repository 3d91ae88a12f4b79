import LosslessSyntax.Diagnostic
import LosslessSyntax.Node.Kind
/-!
Nodes of the concrete syntax tree. Every token of a source is a leaf below its root, so the source
can be told from the leaves, and an error node carries the diagnostic that it stands for.
-/
namespace LosslessSyntax

/-- A node with the slot that it fills in its parent, if it fills one. -/
structure Node where
  field : Option Field
  kind : NodeKind
  span : Span
  children : List Node
  diagnostic : Option Diagnostic
deriving Repr

namespace Node

mutual

def decEq : (a b : Node) → Decidable (a = b)
  | ⟨field, kind, span, children, diagnostic⟩, ⟨field', kind', span', children', diagnostic'⟩ =>
    if h : field = field' ∧ kind = kind' ∧ span = span' ∧ diagnostic = diagnostic' then
      match decEqAll children children' with
      | .isTrue hc => .isTrue (by simp [h, hc])
      | .isFalse hc => .isFalse (by simp [hc])
    else .isFalse (by
      intro heq
      cases heq
      exact h ⟨rfl, rfl, rfl, rfl⟩)

def decEqAll : (a b : List Node) → Decidable (a = b)
  | [], [] => .isTrue rfl
  | [], _ :: _ => .isFalse (by simp)
  | _ :: _, [] => .isFalse (by simp)
  | a :: as, b :: bs =>
    match decEq a b, decEqAll as bs with
    | .isTrue h, .isTrue hs => .isTrue (by rw [h, hs])
    | .isFalse h, _ => .isFalse (by simp [h])
    | _, .isFalse hs => .isFalse (by simp [hs])

end

instance : DecidableEq Node := decEq

def leaf (kind : NodeKind) (span : Span) : Node := ⟨none, kind, span, [], none⟩

/-- The leaf of a token. A malformed token gives an error leaf with its diagnostic. -/
def ofToken (token : Token) : Node :=
  { leaf (.ofToken token.kind) token.span with
    diagnostic := match token.kind with
      | .error reason => some (.ofLexError reason token)
      | _ => none }

/-- The span from the first node to the last. Without nodes it is empty and at `start`. -/
def spanOf (start : UInt32) (nodes : List Node) : Span :=
  match nodes.head?, nodes.getLast? with
  | some first, some last => ⟨first.span.start, last.span.stop⟩
  | _, _ => .emptyAt start

def ofChildren (kind : NodeKind) (start : UInt32) (children : List Node) : Node :=
  ⟨none, kind, spanOf start children, children, none⟩

def withField (node : Node) (field : Field) : Node := { node with field := some field }

def isLeaf (node : Node) : Bool := node.children.isEmpty

def isError (node : Node) : Bool := node.kind == .error

mutual

/-- Whether the node or one below it is an error or carries a diagnostic. -/
def hasError : Node → Bool
  | ⟨_, kind, _, children, diagnostic⟩ =>
    kind == .error || diagnostic.isSome || anyHasError children

def anyHasError : List Node → Bool
  | [] => false
  | node :: rest => hasError node || anyHasError rest

end

def childByField? (node : Node) (field : Field) : Option Node :=
  node.children.find? fun child => child.field == some field

def childrenByField (node : Node) (field : Field) : List Node :=
  node.children.filter fun child => child.field == some field

def fields (node : Node) : List (Field × List Node) :=
  Field.all.filterMap fun field =>
    match node.childrenByField field with
    | [] => none
    | nodes => some (field, nodes)

def namedChildren (node : Node) : List Node :=
  node.children.filter fun child => child.kind.isNamed

def text (node : Node) (source : String) : String := node.span.text source

mutual

def preorder : Node → List Node
  | ⟨field, kind, span, children, diagnostic⟩ =>
    ⟨field, kind, span, children, diagnostic⟩ :: preorderAll children

def preorderAll : List Node → List Node
  | [] => []
  | node :: rest => preorder node ++ preorderAll rest

end

def leaves (node : Node) : List Node := node.preorder.filter isLeaf

def diagnostics (node : Node) : List Diagnostic := node.preorder.filterMap (·.diagnostic)

mutual

/-- The subtree moved by a signed distance, diagnostics included. -/
def shifted (distance : Int) : Node → Node
  | ⟨field, kind, span, children, diagnostic⟩ =>
    ⟨field, kind, span.shifted distance, shiftedAll distance children,
      diagnostic.map (·.shifted distance)⟩

def shiftedAll (distance : Int) : List Node → List Node
  | [] => []
  | node :: rest => shifted distance node :: shiftedAll distance rest

end

def fieldLabel : Option Field → String
  | some field => field.text ++ ": "
  | none => ""

mutual

/-- The named structure in parentheses, with the slot before each node that fills one. -/
def sexp : Node → String
  | ⟨_, kind, _, children, _⟩ => "(" ++ kind.name ++ sexpAll children ++ ")"

def sexpAll : List Node → String
  | [] => ""
  | node :: rest =>
    if node.kind.isNamed then
      " " ++ fieldLabel node.field ++ sexp node ++ sexpAll rest
    else sexpAll rest

end

def at? (node : Node) : List Nat → Option Node
  | [] => some node
  | index :: path => node.children[index]?.bind fun child => child.at? path

end Node

end LosslessSyntax
