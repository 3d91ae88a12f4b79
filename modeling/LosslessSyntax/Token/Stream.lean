import LosslessSyntax.Token
/-!
Token streams that end: the tokens up to the end of a source, and the end-of-file token. Every
index has a token, since the end of file goes on for ever.
-/
namespace LosslessSyntax

structure TokenStream where
  body : Array Token
  final : Token
  final_kind : final.kind = .eof
deriving DecidableEq, Repr

namespace TokenStream

def ofList? (tokens : List Token) : Option TokenStream :=
  match tokens.getLast? with
  | none => none
  | some final =>
    if h : final.kind = .eof then some ⟨tokens.dropLast.toArray, final, h⟩ else none

def toList (stream : TokenStream) : List Token := stream.body.toList ++ [stream.final]

def size (stream : TokenStream) : Nat := stream.body.size + 1

def clamp (stream : TokenStream) (index : Nat) : Nat := min index stream.body.size

/-- The token at an index, which is the end of file past all others. -/
def get (stream : TokenStream) (index : Nat) : Token := stream.body[index]?.getD stream.final

def kind (stream : TokenStream) (index : Nat) : TokenKind := (stream.get index).kind

def slice (stream : TokenStream) (start stop : Nat) : List Token :=
  (List.range' start (stop - start)).map stream.get

def get? (stream : TokenStream) (index : Nat) : Option Token :=
  if index < stream.size then some (stream.get index) else none

theorem toList_of_ofList? {tokens : List Token} {stream : TokenStream}
    (h : ofList? tokens = some stream) : stream.toList = tokens := by
  unfold ofList? at h
  split at h
  · contradiction
  · rename_i final hlast
    split at h
    · cases h
      obtain ⟨front, rfl⟩ := List.getLast?_eq_some_iff.mp hlast
      simp [toList]
    · contradiction

end TokenStream

end LosslessSyntax
