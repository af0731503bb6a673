/-!
# Constructs

The kinds of pieces that a source is made of, with the names by which opaque nodes and messages speak
of them.
-/

namespace IndexedLoop

/-- A kind of piece of a source. -/
inductive Construct where
  -- expressions
  | arrayLiteral | arrayPattern | arrowFunction | assignmentPattern | awaitExpression
  | callExpression | classExpression | computedPropertyName | functionExpression
  | generatorFunction | identifier | importKeyword | markupElement | markupEmptyElement
  | memberExpression | metaProperty | methodDefinition | objectLiteral | objectPattern | privateName
  | restPattern | spreadElement | subscriptExpression | superKeyword | templateString | undefinedName
  | yieldExpression
  -- statements
  | block | breakStatement | classDeclaration | continueStatement | debuggerStatement
  | doStatement | emptyStatement | exportStatement | expressionStatement | forInStatement
  | forStatement | functionDeclaration | generatorFunctionDeclaration | hashBangLine | ifStatement
  | importStatement | labeledStatement | lexicalDeclaration | returnStatement | switchStatement
  | throwStatement | tryStatement | variableDeclaration | variableDeclarator | whileStatement
  | withStatement
deriving DecidableEq, Inhabited, Repr

/-- The name of a construct. -/
def Construct.name : Construct → String
  | .arrayLiteral => "array"
  | .arrayPattern => "array_pattern"
  | .arrowFunction => "arrow_function"
  | .assignmentPattern => "assignment_pattern"
  | .awaitExpression => "await_expression"
  | .callExpression => "call_expression"
  | .classExpression => "class"
  | .computedPropertyName => "computed_property_name"
  | .functionExpression => "function_expression"
  | .generatorFunction => "generator_function"
  | .identifier => "identifier"
  | .importKeyword => "import"
  | .markupElement => "jsx_element"
  | .markupEmptyElement => "jsx_self_closing_element"
  | .memberExpression => "member_expression"
  | .metaProperty => "meta_property"
  | .methodDefinition => "method_definition"
  | .objectLiteral => "object"
  | .objectPattern => "object_pattern"
  | .privateName => "private_property_identifier"
  | .restPattern => "rest_pattern"
  | .spreadElement => "spread_element"
  | .subscriptExpression => "subscript_expression"
  | .superKeyword => "super"
  | .templateString => "template_string"
  | .undefinedName => "undefined"
  | .yieldExpression => "yield_expression"
  | .block => "statement_block"
  | .breakStatement => "break_statement"
  | .classDeclaration => "class_declaration"
  | .continueStatement => "continue_statement"
  | .debuggerStatement => "debugger_statement"
  | .doStatement => "do_statement"
  | .emptyStatement => "empty_statement"
  | .exportStatement => "export_statement"
  | .expressionStatement => "expression_statement"
  | .forInStatement => "for_in_statement"
  | .forStatement => "for_statement"
  | .functionDeclaration => "function_declaration"
  | .generatorFunctionDeclaration => "generator_function_declaration"
  | .hashBangLine => "hash_bang_line"
  | .ifStatement => "if_statement"
  | .importStatement => "import_statement"
  | .labeledStatement => "labeled_statement"
  | .lexicalDeclaration => "lexical_declaration"
  | .returnStatement => "return_statement"
  | .switchStatement => "switch_statement"
  | .throwStatement => "throw_statement"
  | .tryStatement => "try_statement"
  | .variableDeclaration => "variable_declaration"
  | .variableDeclarator => "variable_declarator"
  | .whileStatement => "while_statement"
  | .withStatement => "with_statement"

end IndexedLoop
