import MutationLint.SyntaxTree.Basic

/-! The forms of syntax the node model knows. Each grammar name belongs to one form; a name that
is not listed has the form `other`. -/

namespace MutationLint

inductive Form where
  | trivia
  | parenthesized
  | program
  | expressionStatement
  | block
  | emptyStatement
  | returnStatement
  | declaration
  | declarator
  | forStatement
  | exportStatement
  | functionDeclaration
  | functionExpression
  | arrowFunction
  | classDeclaration
  | classExpression
  | classBody
  | method
  | thisWord
  | superWord
  | template
  | member
  | subscript
  | call
  | construct
  | assignment
  | update
  | conditional
  | object
  | array
  | pair
  | shorthand
  | spread
  | objectPattern
  | arrayPattern
  | defaultedProperty
  | rest
  | assignmentPattern
  | parameter
  | cast
  | identifier
  | literal
  | other
  deriving DecidableEq, Repr

namespace Form

def names : List (String × Form) :=
  [("comment", .trivia), ("hash_bang_line", .trivia), ("html_comment", .trivia),
    ("parenthesized_expression", .parenthesized),
    ("program", .program),
    ("expression_statement", .expressionStatement),
    ("statement_block", .block),
    ("empty_statement", .emptyStatement),
    ("return_statement", .returnStatement),
    ("lexical_declaration", .declaration), ("variable_declaration", .declaration),
    ("variable_declarator", .declarator),
    ("for_statement", .forStatement),
    ("export_statement", .exportStatement),
    ("function_declaration", .functionDeclaration),
    ("generator_function_declaration", .functionDeclaration),
    ("function_expression", .functionExpression), ("function", .functionExpression),
    ("generator_function", .functionExpression),
    ("arrow_function", .arrowFunction),
    ("class_declaration", .classDeclaration), ("abstract_class_declaration", .classDeclaration),
    ("class", .classExpression),
    ("class_body", .classBody),
    ("method_definition", .method),
    ("this", .thisWord),
    ("super", .superWord),
    ("template_string", .template),
    ("member_expression", .member),
    ("subscript_expression", .subscript),
    ("call_expression", .call),
    ("new_expression", .construct),
    ("assignment_expression", .assignment), ("augmented_assignment_expression", .assignment),
    ("update_expression", .update),
    ("ternary_expression", .conditional),
    ("object", .object),
    ("array", .array),
    ("pair", .pair), ("pair_pattern", .pair),
    ("shorthand_property_identifier", .shorthand),
    ("shorthand_property_identifier_pattern", .shorthand),
    ("spread_element", .spread),
    ("object_pattern", .objectPattern),
    ("array_pattern", .arrayPattern),
    ("object_assignment_pattern", .defaultedProperty),
    ("rest_pattern", .rest),
    ("assignment_pattern", .assignmentPattern),
    ("required_parameter", .parameter), ("optional_parameter", .parameter),
    ("as_expression", .cast),
    ("identifier", .identifier), ("property_identifier", .identifier),
    ("private_property_identifier", .identifier), ("statement_identifier", .identifier),
    ("type_identifier", .identifier), ("undefined", .identifier),
    ("string", .literal), ("number", .literal), ("true", .literal), ("false", .literal),
    ("null", .literal), ("regex", .literal)]

def ofKind (kind : String) : Form := (names.lookup kind).getD .other

def isName : Form → Bool
  | .identifier | .shorthand => true
  | _ => false

end Form

namespace SyntaxTree

def form (t : SyntaxTree) : Form := .ofKind t.kind

def isTrivia (t : SyntaxTree) : Bool := t.form == .trivia

/-- The named children that are not comments. -/
def content (t : SyntaxTree) : List SyntaxTree :=
  t.children.filter fun c => c.named && !c.isTrivia

theorem mem_of_content {t c : SyntaxTree} (h : c ∈ t.content) : c ∈ t.children :=
  (List.mem_filter.mp h).1

end SyntaxTree
end MutationLint
