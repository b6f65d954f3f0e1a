import Baselines.Text.Basic

/-!
# Syntax trees of scripts

A tree covers a part of a script, from one character to another. Its leaves are the words, marks and
literals of the script; comments stand among the children of the node they were met in.
-/

namespace Baselines.Script

/-! ## 1. Kinds -/

/-- The kinds of nodes that have a name. -/
inductive Shape where
  -- leaves
  | identifier | propertyIdentifier | privateIdentifier | shorthand | shorthandPattern
  | statementIdentifier | number | string | regex | stringFragment | escapeSequence | optionalChain
  | jsxText | characterReference | hashBang | comment | htmlComment | automaticSemicolon
  -- statements
  | program | exportStatement | namespaceExport | exportClause | exportSpecifier | importStatement
  | importClause | namespaceImport | namedImports | importSpecifier | importAttribute
  | expressionStatement | variableDeclaration | lexicalDeclaration | usingDeclaration
  | variableDeclarator | statementBlock | elseClause | ifStatement | switchStatement | switchBody
  | switchCase | switchDefault | forStatement | forInStatement | whileStatement | doStatement
  | tryStatement | catchClause | finallyClause | withStatement | breakStatement | continueStatement
  | debuggerStatement | returnStatement | throwStatement | emptyStatement | labeledStatement
  | functionDeclaration | generatorDeclaration | classDeclaration
  -- expressions
  | parenthesized | sequence | yieldExpression | awaitExpression | object | objectPattern | pair
  | pairPattern | objectAssignmentPattern | assignmentPattern | array | arrayPattern | spreadElement
  | restPattern | methodDefinition | computedName | functionExpression | generatorFunction
  | arrowFunction | formalParameters | call | newExpression | member | subscript | assignment
  | augmentedAssignment | ternary | binary | unary | update | arguments | metaProperty
  | templateString | templateSubstitution
  -- classes
  | classExpression | classHeritage | classBody | fieldDefinition | staticBlock | decorator
  -- elements
  | jsxElement | jsxOpening | jsxClosing | jsxSelfClosing | jsxAttribute | jsxExpression
  | jsxNamespaceName
  deriving DecidableEq, Repr

/-- The kind of a node: a mark or word that stands for itself, or a kind with a name. -/
inductive Kind where
  | mark (t : Text)
  | named (s : Shape)
  deriving DecidableEq, Repr

/-- The name of a kind with a name. -/
def Shape.label : Shape → Text
  | identifier => "identifier"
  | propertyIdentifier => "property_identifier"
  | privateIdentifier => "private_property_identifier"
  | shorthand => "shorthand_property_identifier"
  | shorthandPattern => "shorthand_property_identifier_pattern"
  | statementIdentifier => "statement_identifier"
  | number => "number"
  | string => "string"
  | regex => "regex"
  | stringFragment => "string_fragment"
  | escapeSequence => "escape_sequence"
  | optionalChain => "optional_chain"
  | jsxText => "jsx_text"
  | characterReference => "html_character_reference"
  | hashBang => "hash_bang_line"
  | comment => "comment"
  | htmlComment => "html_comment"
  | automaticSemicolon => "automatic_semicolon"
  | program => "program"
  | exportStatement => "export_statement"
  | namespaceExport => "namespace_export"
  | exportClause => "export_clause"
  | exportSpecifier => "export_specifier"
  | importStatement => "import_statement"
  | importClause => "import_clause"
  | namespaceImport => "namespace_import"
  | namedImports => "named_imports"
  | importSpecifier => "import_specifier"
  | importAttribute => "import_attribute"
  | expressionStatement => "expression_statement"
  | variableDeclaration => "variable_declaration"
  | lexicalDeclaration => "lexical_declaration"
  | usingDeclaration => "using_declaration"
  | variableDeclarator => "variable_declarator"
  | statementBlock => "statement_block"
  | elseClause => "else_clause"
  | ifStatement => "if_statement"
  | switchStatement => "switch_statement"
  | switchBody => "switch_body"
  | switchCase => "switch_case"
  | switchDefault => "switch_default"
  | forStatement => "for_statement"
  | forInStatement => "for_in_statement"
  | whileStatement => "while_statement"
  | doStatement => "do_statement"
  | tryStatement => "try_statement"
  | catchClause => "catch_clause"
  | finallyClause => "finally_clause"
  | withStatement => "with_statement"
  | breakStatement => "break_statement"
  | continueStatement => "continue_statement"
  | debuggerStatement => "debugger_statement"
  | returnStatement => "return_statement"
  | throwStatement => "throw_statement"
  | emptyStatement => "empty_statement"
  | labeledStatement => "labeled_statement"
  | functionDeclaration => "function_declaration"
  | generatorDeclaration => "generator_function_declaration"
  | classDeclaration => "class_declaration"
  | parenthesized => "parenthesized_expression"
  | sequence => "sequence_expression"
  | yieldExpression => "yield_expression"
  | awaitExpression => "await_expression"
  | object => "object"
  | objectPattern => "object_pattern"
  | pair => "pair"
  | pairPattern => "pair_pattern"
  | objectAssignmentPattern => "object_assignment_pattern"
  | assignmentPattern => "assignment_pattern"
  | array => "array"
  | arrayPattern => "array_pattern"
  | spreadElement => "spread_element"
  | restPattern => "rest_pattern"
  | methodDefinition => "method_definition"
  | computedName => "computed_property_name"
  | functionExpression => "function_expression"
  | generatorFunction => "generator_function"
  | arrowFunction => "arrow_function"
  | formalParameters => "formal_parameters"
  | call => "call_expression"
  | newExpression => "new_expression"
  | member => "member_expression"
  | subscript => "subscript_expression"
  | assignment => "assignment_expression"
  | augmentedAssignment => "augmented_assignment_expression"
  | ternary => "ternary_expression"
  | binary => "binary_expression"
  | unary => "unary_expression"
  | update => "update_expression"
  | arguments => "arguments"
  | metaProperty => "meta_property"
  | templateString => "template_string"
  | templateSubstitution => "template_substitution"
  | classExpression => "class"
  | classHeritage => "class_heritage"
  | classBody => "class_body"
  | fieldDefinition => "field_definition"
  | staticBlock => "class_static_block"
  | decorator => "decorator"
  | jsxElement => "jsx_element"
  | jsxOpening => "jsx_opening_element"
  | jsxClosing => "jsx_closing_element"
  | jsxSelfClosing => "jsx_self_closing_element"
  | jsxAttribute => "jsx_attribute"
  | jsxExpression => "jsx_expression"
  | jsxNamespaceName => "jsx_namespace_name"

def Kind.label : Kind → Text
  | mark t => t
  | named s => s.label

/-! ## 2. Trees -/

/-- A tree over the characters from `start` up to `stop`. -/
inductive Node where
  | node (kind : Kind) (start stop : Nat) (children : List Node)
  deriving Repr

namespace Node

def kind : Node → Kind
  | node k _ _ _ => k

/-- Where a tree begins. -/
def start : Node → Nat
  | node _ s _ _ => s

/-- Where a tree ends. -/
def stop : Node → Nat
  | node _ _ e _ => e

/-- The parts of a tree. -/
def children : Node → List Node
  | node _ _ _ cs => cs

def leaf (kind : Kind) (start stop : Nat) : Node := node kind start stop []

def is (n : Node) (s : Shape) : Bool := n.kind = .named s

def isMark (n : Node) (t : Text) : Bool := n.kind = .mark t

def isComment (n : Node) : Bool := n.is .comment || n.is .htmlComment

end Node

end Baselines.Script
