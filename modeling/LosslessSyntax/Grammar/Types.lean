import LosslessSyntax.Grammar.Rule
/-!
The grammar of types: leading forms, and the suffixes `?` and `[]` that bind to what is on their
left.
-/
namespace LosslessSyntax.Grammar

open Rule

def typeForm? : TokenKind → Option Nonterminal
  | .primitive => some .primitiveType
  | .dollar => some .genericTypeParameter
  | .ampersand => some .referenceType
  | .openBracket => some .arrayType
  | .fnKeyword => some .functionType
  | .openParen => some .tupleType
  | .typeIdentifier => some .namedType
  | _ => none

def suffixPower? : TokenKind → Option BindingPower
  | .question | .openBracket => some .member
  | _ => none

def type (power : BindingPower) : Rule :=
  onKind fun kind =>
    match typeForm? kind with
    | some form => steps [.call form, .call (.suffixes power)]
    | none => .fail (.expected "type")

def suffix? : TokenKind → Option Rule
  | .question => some (steps [.label .type, .take none, .wrap .optionalType])
  | .openBracket =>
    some (steps [.label .type, expect .openBracket, expect .closeBracket, .wrap .sliceType])
  | _ => none

/-- The suffixes that bind tighter than a power. An opening bracket is one only with the closing
one behind it. -/
def suffixes (power : BindingPower) : Rule :=
  onKind fun kind =>
    match suffixPower? kind with
    | some own =>
      if own ≤ power then .empty
      else
        let next :=
          match suffix? kind with
          | some suffix => steps [suffix, .call (.suffixes power)]
          | none => withoutHandler "type binding power" kind
        if kind = .openBracket then
          .look 1 fun following => if following = .closeBracket then next else .empty
        else next
    | none => .empty

def anyType : Rule := child (.type .default)

def typeField : Rule := inField .type anyType

def innerExpression : Rule := .within .expression (child (.expression .default))

def primitiveType : Rule := expect .primitive

def genericTypeParameter : Rule :=
  steps [expect .dollar, expect .identifier, .wrap .genericTypeParameter]

/-- The type referred to ends before any suffix. -/
def referenceType : Rule :=
  steps [expect .ampersand, inField .type (child (.type .member)), .wrap .referenceType]

def arrayType : Rule :=
  steps [expect .openBracket, typeField, expect .semicolon, inField .length innerExpression,
    expect .closeBracket, .wrap .arrayType]

def functionType : Rule :=
  steps [expect .fnKeyword, expect .openParen, .call (.list .signatureTypes), expect .closeParen,
    inField .returnType anyType, .wrap .functionType]

def tupleType : Rule :=
  steps [expect .openParen, .call (.list .types), expect .closeParen, .wrap .tupleType]

def namedType : Rule :=
  steps [inField .name (expect .typeIdentifier),
    ifAt .openParen (child .genericArguments) .empty, .wrap .namedType]

def genericArguments : Rule :=
  steps [expect .openParen,
    ifAt .closeParen (.fail (.expected "type"))
      (steps [.call (.list .types), expect .closeParen, .wrap .genericArguments])]

def signatureType : Rule :=
  ifAt .identifier
    (.look 1 fun following =>
      if following = .colon then
        .apart (steps [inField .name (.take none), .take none, typeField, .wrap .parameter])
      else anyType)
    anyType

/-- Goes on by whether the token that it is at can begin the type of a result. A function type
needs its parentheses for that. -/
def ifStartsReturnType (yes no : Rule) : Rule :=
  onKind fun kind =>
    if kind = .fnKeyword then
      .look 1 fun following => if following = .openParen then yes else no
    else if (typeForm? kind).isSome then yes
    else no

def returnType : Rule :=
  ifAt .openCurly .empty (ifStartsReturnType (inField .returnType anyType) .empty)

def typeAnnotation : Rule :=
  ifAt .colon (steps [.take none, typeField]) .empty

end LosslessSyntax.Grammar
