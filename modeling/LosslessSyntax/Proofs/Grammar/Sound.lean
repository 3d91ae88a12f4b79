import LosslessSyntax.Proofs.Grammar.Items
import LosslessSyntax.Proofs.Grammar.Operators
import LosslessSyntax.Proofs.Grammar.Patterns
import LosslessSyntax.Proofs.Grammar.Types
/-!
The contracts hold of the whole grammar.
-/
namespace LosslessSyntax

theorem Nonterminal.sound (dialect : Dialect) (name : Nonterminal) : name.Sound dialect := by
  cases name with
  | item => exact sound_item
  | functionDefinition => exact sound_functionDefinition
  | structDefinition => exact sound_structDefinition
  | enumDefinition => exact sound_enumDefinition
  | constDeclaration => exact sound_constDeclaration
  | importDeclaration => exact sound_importDeclaration
  | pathSteps => exact sound_pathSteps
  | testBlock => exact sound_testBlock
  | parameterList => exact sound_parameterList
  | members body => exact sound_members body
  | block => exact sound_block
  | statements => exact sound_statements
  | statement => exact sound_statement
  | variableDeclaration => exact sound_variableDeclaration
  | returnStatement => exact sound_returnStatement
  | deferStatement => exact sound_deferStatement
  | ifStatement => exact sound_ifStatement
  | forStatement => exact sound_forStatement
  | loopStatement => exact sound_loopStatement
  | jump => exact sound_jump
  | pattern => exact sound_pattern
  | expression power => exact sound_expression power
  | operators power => exact sound_operators power
  | primary => exact sound_primary
  | typeNameExpression => exact sound_typeNameExpression
  | anonymousStruct => exact sound_anonymousStruct
  | grouping => exact sound_grouping
  | arrayLiteral => exact sound_arrayLiteral
  | unary => exact sound_unary
  | conditional => exact sound_conditional
  | ifExpression => exact sound_ifExpression
  | lambda => exact sound_lambda
  | arms => exact sound_arms
  | type power => exact sound_type power
  | suffixes power => exact sound_suffixes power
  | primitiveType => exact sound_primitiveType
  | genericTypeParameter => exact sound_genericTypeParameter
  | referenceType => exact sound_referenceType
  | arrayType => exact sound_arrayType
  | functionType => exact sound_functionType
  | tupleType => exact sound_tupleType
  | namedType => exact sound_namedType
  | genericArguments => exact sound_genericArguments
  | list listing => exact sound_list listing
  | more continuation => exact sound_more continuation

end LosslessSyntax
