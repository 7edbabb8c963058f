import Declutter.Text.Blank

/-!
# Kinds of syntax nodes

The grammars of JavaScript and TypeScript have some two hundred node types.  The analyses tell
apart far fewer: each type has a kind, several types share one, and types that no analysis looks
at have the kind `other`.

## Main definitions

* `Kind` — the kinds.
* `Kind.name` — the name of a kind.
* `Kind.ofType` — the kind of a grammar type.
* `Kind.isLoop`, `Kind.isStatementList` — families of kinds.
-/

namespace Declutter

/-- The kind of a syntax node. -/
inductive Kind where
  | program
  | block
  | expressionStatement
  | variableDeclaration
  | declarator
  | function
  | classDefinition
  | classBody
  | formalParameters
  | ifStatement
  | elseClause
  | forStatement
  | forInStatement
  | whileStatement
  | doStatement
  | switchStatement
  | switchBody
  | switchCase
  | tryStatement
  | catchClause
  | finallyClause
  | returnStatement
  | throwStatement
  | breakStatement
  | continueStatement
  | labeledStatement
  | exportStatement
  | importStatement
  | importSpecifier
  | exportSpecifier
  | identifier
  | shorthandProperty
  | propertyName
  | call
  | newExpression
  | member
  | subscript
  | arguments
  | assignment
  | augmentedAssignment
  | update
  | unary
  | binary
  | ternary
  | parenthesized
  | sequence
  | await
  | yield
  | spread
  | object
  | pair
  | array
  | template
  | templateSubstitution
  | literal
  | this
  | pattern
  | jsx
  | type
  /-- An expression with a type written to it: `x as T`, `x!`, `<T>x`, `x satisfies T`. -/
  | typeExpression
  | other
  deriving DecidableEq, Repr, Inhabited

namespace Kind

/-- The name of a kind. -/
def name : Kind → String
  | .program => "program"
  | .block => "block"
  | .expressionStatement => "expression_statement"
  | .variableDeclaration => "variable_declaration"
  | .declarator => "declarator"
  | .function => "function"
  | .classDefinition => "class"
  | .classBody => "class_body"
  | .formalParameters => "formal_parameters"
  | .ifStatement => "if"
  | .elseClause => "else"
  | .forStatement => "for"
  | .forInStatement => "for_in"
  | .whileStatement => "while"
  | .doStatement => "do"
  | .switchStatement => "switch"
  | .switchBody => "switch_body"
  | .switchCase => "switch_case"
  | .tryStatement => "try"
  | .catchClause => "catch"
  | .finallyClause => "finally"
  | .returnStatement => "return"
  | .throwStatement => "throw"
  | .breakStatement => "break"
  | .continueStatement => "continue"
  | .labeledStatement => "labeled"
  | .exportStatement => "export"
  | .importStatement => "import"
  | .importSpecifier => "import_specifier"
  | .exportSpecifier => "export_specifier"
  | .identifier => "identifier"
  | .shorthandProperty => "shorthand_property"
  | .propertyName => "property_name"
  | .call => "call"
  | .newExpression => "new"
  | .member => "member"
  | .subscript => "subscript"
  | .arguments => "arguments"
  | .assignment => "assignment"
  | .augmentedAssignment => "augmented_assignment"
  | .update => "update"
  | .unary => "unary"
  | .binary => "binary"
  | .ternary => "ternary"
  | .parenthesized => "parenthesized"
  | .sequence => "sequence"
  | .await => "await"
  | .yield => "yield"
  | .spread => "spread"
  | .object => "object"
  | .pair => "pair"
  | .array => "array"
  | .template => "template"
  | .templateSubstitution => "template_substitution"
  | .literal => "literal"
  | .this => "this"
  | .pattern => "pattern"
  | .jsx => "jsx"
  | .type => "type"
  | .typeExpression => "type_expression"
  | .other => "other"

/-- The grammar types with a kind of their own. -/
def ofTypeTable : List (String × Kind) := [
    ("program", .program),
    ("statement_block", .block),
    ("expression_statement", .expressionStatement),
    ("lexical_declaration", .variableDeclaration),
    ("variable_declaration", .variableDeclaration),
    ("variable_declarator", .declarator),
    ("function_declaration", .function),
    ("generator_function_declaration", .function),
    ("function_expression", .function),
    ("function", .function),
    ("generator_function", .function),
    ("arrow_function", .function),
    ("method_definition", .function),
    ("function_signature", .type),
    ("class_declaration", .classDefinition),
    ("abstract_class_declaration", .classDefinition),
    ("class", .classDefinition),
    ("class_body", .classBody),
    ("formal_parameters", .formalParameters),
    ("if_statement", .ifStatement),
    ("else_clause", .elseClause),
    ("for_statement", .forStatement),
    ("for_in_statement", .forInStatement),
    ("while_statement", .whileStatement),
    ("do_statement", .doStatement),
    ("switch_statement", .switchStatement),
    ("switch_body", .switchBody),
    ("switch_case", .switchCase),
    ("switch_default", .switchCase),
    ("try_statement", .tryStatement),
    ("catch_clause", .catchClause),
    ("finally_clause", .finallyClause),
    ("return_statement", .returnStatement),
    ("throw_statement", .throwStatement),
    ("break_statement", .breakStatement),
    ("continue_statement", .continueStatement),
    ("labeled_statement", .labeledStatement),
    ("export_statement", .exportStatement),
    ("import_statement", .importStatement),
    ("import_specifier", .importSpecifier),
    ("export_specifier", .exportSpecifier),
    ("identifier", .identifier),
    ("shorthand_property_identifier", .shorthandProperty),
    ("property_identifier", .propertyName),
    ("private_property_identifier", .propertyName),
    ("statement_identifier", .propertyName),
    ("call_expression", .call),
    ("new_expression", .newExpression),
    ("member_expression", .member),
    ("subscript_expression", .subscript),
    ("arguments", .arguments),
    ("assignment_expression", .assignment),
    ("augmented_assignment_expression", .augmentedAssignment),
    ("update_expression", .update),
    ("unary_expression", .unary),
    ("binary_expression", .binary),
    ("ternary_expression", .ternary),
    ("parenthesized_expression", .parenthesized),
    ("sequence_expression", .sequence),
    ("await_expression", .await),
    ("yield_expression", .yield),
    ("spread_element", .spread),
    ("object", .object),
    ("pair", .pair),
    ("array", .array),
    ("template_string", .template),
    ("template_substitution", .templateSubstitution),
    ("string", .literal),
    ("number", .literal),
    ("regex", .literal),
    ("true", .literal),
    ("false", .literal),
    ("null", .literal),
    ("undefined", .literal),
    ("this", .this),
    ("super", .this),
    ("object_pattern", .pattern),
    ("array_pattern", .pattern),
    ("assignment_pattern", .pattern),
    ("object_assignment_pattern", .pattern),
    ("pair_pattern", .pattern),
    ("rest_pattern", .pattern),
    ("shorthand_property_identifier_pattern", .pattern),
    ("required_parameter", .pattern),
    ("optional_parameter", .pattern),
    ("as_expression", .typeExpression),
    ("satisfies_expression", .typeExpression),
    ("non_null_expression", .typeExpression),
    ("type_assertion", .typeExpression),
    ("type_annotation", .type),
    ("type_arguments", .type),
    ("type_parameters", .type),
    ("interface_declaration", .type),
    ("type_alias_declaration", .type),
    ("enum_declaration", .type),
    ("ambient_declaration", .type)]

/-- The kind of a grammar type: the one of the table; else `jsx` for the types of embedded markup
and `type` for the types whose name says that they are types. -/
def ofType (type : String) : Kind :=
  match ofTypeTable.lookup type with
  | some kind => kind
  | none =>
    if Text.beginsWith type "jsx_" then .jsx
    else if Text.endsWith type "_type" then .type
    else .other

/-- The four loops. -/
def isLoop : Kind → Bool
  | .forStatement | .forInStatement | .whileStatement | .doStatement => true
  | _ => false

/-- The kinds whose children are statements in sequence. -/
def isStatementList : Kind → Bool
  | .program | .block | .switchCase => true
  | _ => false

end Kind

end Declutter
