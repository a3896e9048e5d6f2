import InterfaceSchema.Syntax.Rules.Statement

/-!
# The grammar

The pattern of every piece of the grammar.
-/

namespace InterfaceSchema

/-- The pattern that a piece of the grammar follows. -/
def Part.pattern : Part → Pattern
  | .typeParameters => Rules.typeParameters
  | .typeParameter => Rules.typeParameter
  | .typeArguments => Rules.typeArguments
  | .parameters => Rules.parameters
  | .parameter => Rules.parameter
  | .typing => Rules.typing
  | .result => Rules.result
  | .signature => Rules.signature
  | .functionType => Rules.functionType
  | .constructorType => Rules.constructorType
  | .queriedValue => Rules.queriedValue
  | .importedType => Rules.importedType
  | .templateType => .type
  | .indexClause => Rules.indexClause
  | .mappedClause => Rules.mappedClause
  | .callMember => Rules.callMember
  | .expressions => Rules.expressions
  | .expression => Rules.expression
  | .conditional => Rules.conditional
  | .operand => Rules.operand
  | .application => Rules.application
  | .callee => Rules.callee
  | .primary => Rules.primary
  | .suffix => Rules.suffix
  | .arrow => Rules.arrow
  | .arrowBody => Rules.arrowBody
  | .arguments => Rules.arguments
  | .argument => Rules.argument
  | .array => Rules.array
  | .object => Rules.object
  | .property => Rules.property
  | .method => Rules.method
  | .key => Rules.key
  | .computedKey => Rules.computedKey
  | .function => Rules.function
  | .classExpression => Rules.classExpression
  | .target => Rules.target
  | .objectTarget => Rules.objectTarget
  | .propertyTarget => Rules.propertyTarget
  | .arrayTarget => Rules.arrayTarget
  | .elementTarget => Rules.elementTarget
  | .substitution => .part .expressions
  | .decorator => Rules.decorator
  | .decoration => Rules.decoration
  | .classHead => Rules.classHead
  | .classBody => Rules.classBody
  | .classMember => Rules.classMember
  | .methodMember => Rules.methodMember
  | .abstractMember => Rules.abstractMember
  | .fieldMember => Rules.fieldMember
  | .block => Rules.block
  | .statement => Rules.statement
  | .declaration => Rules.declaration
  | .namedStatement => Rules.namedStatement
  | .simpleStatement => Rules.simpleStatement
  | .bindings => Rules.bindings
  | .binding => Rules.binding
  | .interfaceBody => Rules.interfaceBody
  | .typeName => Rules.typeName
  | .loopHead => Rules.loopHead
  | .caseClause => Rules.caseClause
  | .enumMember => Rules.enumMember
  | .importing => Rules.importing
  | .imported => Rules.imported
  | .specifier => Rules.specifier
  | .origin => Rules.origin
  | .exporting => Rules.exporting
  | .exportedNames => Rules.exportedNames

end InterfaceSchema
