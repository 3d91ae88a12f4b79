import LosslessSyntax.Token.Kind
/-!
Node kinds and fields: what a node of the tree is, and the slot it fills in its parent. Named
kinds carry meaning, and punctuation and keywords are unnamed leaves called by their text.
-/
namespace LosslessSyntax

inductive NodeKind where
  | sourceFile
  | importDeclaration
  | modulePath
  | visibilityModifier
  | directive
  | functionDefinition
  | parameterList
  | parameter
  | structDefinition
  | structBody
  | structField
  | enumDefinition
  | enumBody
  | enumVariant
  | variantParameters
  | genericParameters
  | genericArguments
  | constDeclaration
  | testBlock
  | primitiveType
  | genericTypeParameter
  | referenceType
  | optionalType
  | sliceType
  | arrayType
  | functionType
  | tupleType
  | namedType
  | block
  | letStatement
  | constStatement
  | returnStatement
  | deferStatement
  | ifStatement
  | forStatement
  | loopStatement
  | breakStatement
  | continueStatement
  | expressionStatement
  | assignmentExpression
  | binaryExpression
  | unaryExpression
  | castExpression
  | matchExpression
  | matchArm
  | ifExpression
  | lambdaExpression
  | groupedExpression
  | tupleExpression
  | arrayLiteral
  | structLiteral
  | anonymousStructLiteral
  | fieldInitializer
  | fieldShorthand
  | functionCall
  | memberExpression
  | indexExpression
  | dereferenceExpression
  | optionalChainExpression
  | wildcardPattern
  | identifierPattern
  | variantPattern
  | elsePattern
  | identifier
  | typeIdentifier
  | numberLiteral
  | stringLiteral
  | charLiteral
  | booleanLiteral
  | nullLiteral
  | error
  | token (kind : TokenKind)
deriving DecidableEq, Repr, Inhabited

namespace NodeKind

/-- All named kinds, in the order of the published schema. -/
def named : List NodeKind :=
  [.sourceFile, .importDeclaration, .modulePath, .visibilityModifier, .directive,
    .functionDefinition, .parameterList, .parameter, .structDefinition, .structBody,
    .structField, .enumDefinition, .enumBody, .enumVariant, .variantParameters,
    .genericParameters, .genericArguments, .constDeclaration, .testBlock, .primitiveType,
    .genericTypeParameter, .referenceType, .optionalType, .sliceType, .arrayType,
    .functionType, .tupleType, .namedType, .block, .letStatement, .constStatement,
    .returnStatement, .deferStatement, .ifStatement, .forStatement, .loopStatement,
    .breakStatement, .continueStatement, .expressionStatement, .assignmentExpression,
    .binaryExpression, .unaryExpression, .castExpression, .matchExpression, .matchArm,
    .ifExpression, .lambdaExpression, .groupedExpression, .tupleExpression, .arrayLiteral,
    .structLiteral, .anonymousStructLiteral, .fieldInitializer, .fieldShorthand,
    .functionCall, .memberExpression, .indexExpression, .dereferenceExpression,
    .optionalChainExpression, .wildcardPattern, .identifierPattern, .variantPattern,
    .elsePattern, .identifier, .typeIdentifier, .numberLiteral, .stringLiteral,
    .charLiteral, .booleanLiteral, .nullLiteral, .error]

def isNamed : NodeKind → Bool
  | .token _ => false
  | _ => true

theorem mem_named_iff (kind : NodeKind) : kind ∈ named ↔ kind.isNamed := by
  constructor
  · exact (by decide : ∀ kind ∈ named, kind.isNamed) kind
  · intro h
    cases kind
    case token => contradiction
    all_goals decide

theorem exists_token {kind : NodeKind} (h : ¬kind.isNamed) : ∃ word, kind = .token word := by
  cases kind with
  | token word => exact ⟨word, rfl⟩
  | _ => exact absurd rfl h

def name : NodeKind → String
  | .sourceFile => "source_file"
  | .importDeclaration => "import_declaration"
  | .modulePath => "module_path"
  | .visibilityModifier => "visibility_modifier"
  | .directive => "directive"
  | .functionDefinition => "function_definition"
  | .parameterList => "parameter_list"
  | .parameter => "parameter"
  | .structDefinition => "struct_definition"
  | .structBody => "struct_body"
  | .structField => "struct_field"
  | .enumDefinition => "enum_definition"
  | .enumBody => "enum_body"
  | .enumVariant => "enum_variant"
  | .variantParameters => "variant_parameters"
  | .genericParameters => "generic_parameters"
  | .genericArguments => "generic_arguments"
  | .constDeclaration => "const_declaration"
  | .testBlock => "test_block"
  | .primitiveType => "primitive_type"
  | .genericTypeParameter => "generic_type_parameter"
  | .referenceType => "reference_type"
  | .optionalType => "optional_type"
  | .sliceType => "slice_type"
  | .arrayType => "array_type"
  | .functionType => "function_type"
  | .tupleType => "tuple_type"
  | .namedType => "named_type"
  | .block => "block"
  | .letStatement => "let_statement"
  | .constStatement => "const_statement"
  | .returnStatement => "return_statement"
  | .deferStatement => "defer_statement"
  | .ifStatement => "if_statement"
  | .forStatement => "for_statement"
  | .loopStatement => "loop_statement"
  | .breakStatement => "break_statement"
  | .continueStatement => "continue_statement"
  | .expressionStatement => "expression_statement"
  | .assignmentExpression => "assignment_expression"
  | .binaryExpression => "binary_expression"
  | .unaryExpression => "unary_expression"
  | .castExpression => "cast_expression"
  | .matchExpression => "match_expression"
  | .matchArm => "match_arm"
  | .ifExpression => "if_expression"
  | .lambdaExpression => "lambda_expression"
  | .groupedExpression => "grouped_expression"
  | .tupleExpression => "tuple_expression"
  | .arrayLiteral => "array_literal"
  | .structLiteral => "struct_literal"
  | .anonymousStructLiteral => "anonymous_struct_literal"
  | .fieldInitializer => "field_initializer"
  | .fieldShorthand => "field_shorthand"
  | .functionCall => "function_call"
  | .memberExpression => "member_expression"
  | .indexExpression => "index_expression"
  | .dereferenceExpression => "dereference_expression"
  | .optionalChainExpression => "optional_chain_expression"
  | .wildcardPattern => "wildcard_pattern"
  | .identifierPattern => "identifier_pattern"
  | .variantPattern => "variant_pattern"
  | .elsePattern => "else_pattern"
  | .identifier => "identifier"
  | .typeIdentifier => "type_identifier"
  | .numberLiteral => "number_literal"
  | .stringLiteral => "string_literal"
  | .charLiteral => "char_literal"
  | .booleanLiteral => "boolean_literal"
  | .nullLiteral => "null_literal"
  | .error => "ERROR"
  | .token kind => kind.text

/-- The kind of the leaf that a token becomes where the grammar does not rename it. -/
def ofToken : TokenKind → NodeKind
  | .identifier => .identifier
  | .typeIdentifier => .typeIdentifier
  | .number => .numberLiteral
  | .string => .stringLiteral
  | .char | .byteChar => .charLiteral
  | .directive => .directive
  | .trueKeyword | .falseKeyword => .booleanLiteral
  | .nullKeyword => .nullLiteral
  | .primitive => .primitiveType
  | .pubKeyword => .visibilityModifier
  | .underscore => .wildcardPattern
  | .breakKeyword => .breakStatement
  | .continueKeyword => .continueStatement
  | .error _ => .error
  | kind => .token kind

def expressions : List NodeKind :=
  [.assignmentExpression, .binaryExpression, .unaryExpression, .castExpression,
    .matchExpression, .ifExpression, .lambdaExpression, .groupedExpression, .tupleExpression,
    .arrayLiteral, .structLiteral, .anonymousStructLiteral, .functionCall, .memberExpression,
    .indexExpression, .dereferenceExpression, .optionalChainExpression, .identifier,
    .typeIdentifier, .numberLiteral, .stringLiteral, .charLiteral, .booleanLiteral,
    .nullLiteral]

def types : List NodeKind :=
  [.primitiveType, .genericTypeParameter, .referenceType, .optionalType, .sliceType,
    .arrayType, .functionType, .tupleType, .namedType]

def statements : List NodeKind :=
  [.letStatement, .constStatement, .returnStatement, .deferStatement, .ifStatement,
    .forStatement, .loopStatement, .breakStatement, .continueStatement, .expressionStatement]

def patterns : List NodeKind :=
  [.wildcardPattern, .identifierPattern, .variantPattern, .elsePattern]

def items : List NodeKind :=
  [.functionDefinition, .structDefinition, .enumDefinition, .constDeclaration,
    .importDeclaration, .testBlock]

end NodeKind

inductive Field where
  | name
  | parameters
  | returnType
  | body
  | condition
  | consequence
  | alternative
  | pattern
  | iterable
  | value
  | operator
  | left
  | right
  | function
  | scrutinee
  | type
  | arguments
  | object
  | property
  | index
  | operand
  | path
  | length
deriving DecidableEq, Repr, Inhabited

namespace Field

def all : List Field :=
  [.name, .parameters, .returnType, .body, .condition, .consequence, .alternative, .pattern,
    .iterable, .value, .operator, .left, .right, .function, .scrutinee, .type, .arguments,
    .object, .property, .index, .operand, .path, .length]

theorem mem_all (field : Field) : field ∈ all := by
  cases field <;> decide

def text : Field → String
  | .name => "name"
  | .parameters => "parameters"
  | .returnType => "return_type"
  | .body => "body"
  | .condition => "condition"
  | .consequence => "consequence"
  | .alternative => "alternative"
  | .pattern => "pattern"
  | .iterable => "iterable"
  | .value => "value"
  | .operator => "operator"
  | .left => "left"
  | .right => "right"
  | .function => "function"
  | .scrutinee => "scrutinee"
  | .type => "type"
  | .arguments => "arguments"
  | .object => "object"
  | .property => "property"
  | .index => "index"
  | .operand => "operand"
  | .path => "path"
  | .length => "length"

end Field

end LosslessSyntax
