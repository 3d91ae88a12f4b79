import LosslessSyntax.Node.Json
/-!
The published schema: for every kind of node the slots it has and the kinds each slot takes. It
covers both dialects. Named kinds come first, then the unnamed leaves.
-/
namespace LosslessSyntax

/-- What a slot takes: how many nodes, and of which kinds. -/
structure Slot where
  multiple : Bool
  required : Bool
  kinds : List NodeKind
deriving DecidableEq, Repr

/-- An error node fits every slot. -/
def Slot.allows (slot : Slot) (kind : NodeKind) : Bool :=
  kind == .error || slot.kinds.contains kind

/-- The entry of a node kind. Its fields are listed in the order of their texts. -/
structure NodeType where
  kind : NodeKind
  fields : List (Field × Slot)
  children : Option Slot
deriving DecidableEq, Repr

namespace Schema

def one (kinds : List NodeKind) : Slot := ⟨false, true, kinds⟩

def maybe (kinds : List NodeKind) : Slot := ⟨false, false, kinds⟩

def many (kinds : List NodeKind) : Slot := ⟨true, false, kinds⟩

def several (kinds : List NodeKind) : Slot := ⟨true, true, kinds⟩

open NodeKind (expressions types statements patterns items)

def plain (kind : NodeKind) : NodeType := ⟨kind, [], none⟩

def holding (kind : NodeKind) (children : Slot) : NodeType := ⟨kind, [], some children⟩

def slots (kind : NodeKind) (fields : List (Field × Slot)) : NodeType := ⟨kind, fields, none⟩

def mixed (kind : NodeKind) (fields : List (Field × Slot)) (children : Slot) : NodeType :=
  ⟨kind, fields, some children⟩

def tokens (kinds : List TokenKind) : List NodeKind := kinds.map .token

def binaryOperators : List TokenKind :=
  [.questionQuestion, .orKeyword, .andKeyword, .equals, .notEquals, .less, .greater,
    .lessEquals, .greaterEquals, .dotDot, .pipe, .caret, .ampersand, .plus, .dash, .star,
    .slash, .percent]

def blockOrExpression : List NodeKind := .block :: expressions

def modifierAndGenerics : Slot := many [.visibilityModifier, .genericParameters]

def declarations : List NodeType :=
  [holding .sourceFile (many items),
    mixed .importDeclaration [(.path, one [.modulePath])] (maybe [.visibilityModifier]),
    holding .modulePath (several [.identifier]),
    plain .visibilityModifier,
    plain .directive,
    mixed .functionDefinition
      [(.body, maybe [.block]), (.name, one [.identifier]), (.parameters, one [.parameterList]),
        (.returnType, maybe types)]
      (many [.visibilityModifier, .directive]),
    holding .parameterList (many [.parameter]),
    slots .parameter [(.name, one [.identifier]), (.type, one types)],
    mixed .structDefinition
      [(.body, one [.structBody]), (.name, one [.typeIdentifier, .identifier])]
      modifierAndGenerics,
    holding .structBody (many [.structField]),
    slots .structField [(.name, one [.identifier]), (.type, one types)],
    mixed .enumDefinition [(.body, one [.enumBody]), (.name, one [.typeIdentifier])]
      modifierAndGenerics,
    holding .enumBody (many [.enumVariant]),
    mixed .enumVariant [(.name, one [.typeIdentifier]), (.value, maybe expressions)]
      (maybe [.variantParameters]),
    holding .variantParameters (many types),
    holding .genericParameters (several [.typeIdentifier]),
    holding .genericArguments (several types),
    mixed .constDeclaration
      [(.name, one [.identifier]), (.type, maybe types), (.value, one expressions)]
      (maybe [.visibilityModifier]),
    slots .testBlock [(.body, one [.block]), (.name, one [.stringLiteral])]]

def typeForms : List NodeType :=
  [plain .primitiveType,
    holding .genericTypeParameter (one [.identifier]),
    slots .referenceType [(.type, one types)],
    slots .optionalType [(.type, one types)],
    slots .sliceType [(.type, one types)],
    slots .arrayType [(.length, one expressions), (.type, one types)],
    mixed .functionType [(.returnType, one types)] (many (.parameter :: types)),
    holding .tupleType (many types),
    mixed .namedType [(.name, one [.typeIdentifier])] (maybe [.genericArguments])]

def statementForms : List NodeType :=
  [holding .block (many statements),
    slots .letStatement
      [(.name, one [.identifier]), (.type, maybe types), (.value, maybe expressions)],
    slots .constStatement
      [(.name, one [.identifier]), (.type, maybe types), (.value, one expressions)],
    holding .returnStatement (maybe expressions),
    holding .deferStatement (one expressions),
    slots .ifStatement
      [(.alternative, maybe (.block :: .ifStatement :: expressions)),
        (.condition, one expressions), (.consequence, one blockOrExpression)],
    slots .forStatement
      [(.body, one [.block]), (.iterable, one expressions), (.pattern, one [.identifier])],
    slots .loopStatement [(.body, one [.block])],
    plain .breakStatement,
    plain .continueStatement,
    holding .expressionStatement (one expressions)]

def expressionForms : List NodeType :=
  [slots .assignmentExpression
      [(.left, one [.identifier, .memberExpression, .indexExpression, .dereferenceExpression]),
        (.operator, one (tokens [.assignment, .plusEquals])), (.right, one expressions)],
    slots .binaryExpression
      [(.left, one expressions), (.operator, one (tokens binaryOperators)),
        (.right, maybe expressions)],
    slots .unaryExpression
      [(.operand, one expressions), (.operator, one (tokens [.dash, .bang, .ampersand]))],
    slots .castExpression [(.type, one types), (.value, one expressions)],
    mixed .matchExpression [(.scrutinee, one expressions)] (many [.matchArm]),
    slots .matchArm [(.body, one blockOrExpression), (.pattern, one patterns)],
    slots .ifExpression
      [(.alternative, maybe blockOrExpression), (.condition, one expressions),
        (.consequence, one blockOrExpression)],
    slots .lambdaExpression
      [(.body, one [.block]), (.parameters, one [.parameterList]), (.returnType, maybe types)],
    holding .groupedExpression (one expressions),
    holding .tupleExpression (several expressions),
    mixed .arrayLiteral [(.length, maybe expressions), (.value, maybe expressions)]
      (many expressions),
    mixed .structLiteral [(.name, one [.typeIdentifier, .identifier])]
      (many [.genericArguments, .fieldInitializer, .fieldShorthand]),
    holding .anonymousStructLiteral (many [.fieldInitializer, .fieldShorthand]),
    slots .fieldInitializer [(.name, one [.identifier]), (.value, one expressions)],
    holding .fieldShorthand (one [.identifier]),
    slots .functionCall
      [(.arguments, many expressions), (.function, one [.identifier, .memberExpression])],
    slots .memberExpression
      [(.object, one expressions),
        (.property, one [.identifier, .typeIdentifier, .numberLiteral])],
    slots .indexExpression [(.index, one expressions), (.object, one expressions)],
    slots .dereferenceExpression [(.object, one expressions)],
    slots .optionalChainExpression
      [(.object, one expressions), (.property, one [.identifier, .typeIdentifier])]]

def patternForms : List NodeType :=
  [plain .wildcardPattern,
    holding .identifierPattern (one [.identifier]),
    mixed .variantPattern [(.name, one [.typeIdentifier]), (.type, maybe [.typeIdentifier])]
      (many patterns),
    plain .elsePattern] ++
    [.identifier, .typeIdentifier, .numberLiteral, .stringLiteral, .charLiteral,
      .booleanLiteral, .nullLiteral].map plain

/-- All entries, in the order in which they are published. -/
def entries : List NodeType :=
  declarations ++ typeForms ++ statementForms ++ expressionForms ++ patternForms ++
    TokenKind.anonymous.map fun kind => plain (.token kind)

def entry? (kind : NodeKind) : Option NodeType := entries.find? (·.kind == kind)

end Schema

def Slot.toJson (slot : Slot) : Json :=
  .ofMembers [("multiple", .bool slot.multiple), ("required", .bool slot.required),
    ("types", .array (slot.kinds.map fun kind =>
      .ofMembers [("type", .string kind.name), ("named", .bool kind.isNamed)]))]

def NodeType.toJson (type : NodeType) : Json :=
  .ofMembers ([("type", .string type.kind.name), ("named", .bool type.kind.isNamed)] ++
    (if type.fields.isEmpty then [] else
      [("fields", .ofMembers (type.fields.map fun (field, slot) => (field.text, slot.toJson)))]) ++
    (type.children.map fun slot => ("children", slot.toJson)).toList)

def Schema.json : String := (Json.array (entries.map NodeType.toJson)).pretty 0

end LosslessSyntax
