import MutationLint.Node.Basic
import MutationLint.Value.Basic

/-! The names of node kinds and roles, and the record of a node with all its parts. -/

namespace MutationLint

def MethodKind.name : MethodKind → String
  | .method => "method"
  | .getter => "get"
  | .setter => "set"
  | .constructor => "constructor"

def UpdateOperator.symbol : UpdateOperator → String
  | .increment => "++"
  | .decrement => "--"

namespace Label

def name : Label → String
  | .program => "Program"
  | .expressionStatement => "ExpressionStatement"
  | .blockStatement => "BlockStatement"
  | .emptyStatement => "EmptyStatement"
  | .returnStatement => "ReturnStatement"
  | .forStatement => "ForStatement"
  | .variableDeclaration _ => "VariableDeclaration"
  | .variableDeclarator => "VariableDeclarator"
  | .exportNamed => "ExportNamedDeclaration"
  | .exportDefault => "ExportDefaultDeclaration"
  | .functionDeclaration _ _ => "FunctionDeclaration"
  | .functionExpression _ _ => "FunctionExpression"
  | .arrowFunction _ _ => "ArrowFunctionExpression"
  | .classDeclaration => "ClassDeclaration"
  | .classExpression => "ClassExpression"
  | .classBody => "ClassBody"
  | .methodDefinition _ _ => "MethodDefinition"
  | .identifier _ => "Identifier"
  | .literal _ => "Literal"
  | .templateLiteral => "TemplateLiteral"
  | .thisExpression => "ThisExpression"
  | .superReference => "Super"
  | .member _ _ => "MemberExpression"
  | .call _ => "CallExpression"
  | .construct => "NewExpression"
  | .assignment _ => "AssignmentExpression"
  | .update _ _ => "UpdateExpression"
  | .conditional => "ConditionalExpression"
  | .objectExpression => "ObjectExpression"
  | .arrayExpression => "ArrayExpression"
  | .property _ _ => "Property"
  | .spread => "SpreadElement"
  | .cast => "TSAsExpression"
  | .objectPattern => "ObjectPattern"
  | .arrayPattern => "ArrayPattern"
  | .restElement => "RestElement"
  | .assignmentPattern => "AssignmentPattern"
  | .other _ => "OpaqueNode"

def attributes : Label → List (Text × Value)
  | .variableDeclaration kind => [("kind", .string kind)]
  | .functionDeclaration g a | .functionExpression g a =>
    [("generator", .bool g), ("is_async", .bool a)]
  | .arrowFunction c a => [("expression", .bool c), ("is_async", .bool a)]
  | .methodDefinition kind s => [("kind", .string kind.name), ("static", .bool s)]
  | .identifier name => [("name", .string name)]
  | .literal raw => [("raw", .string raw)]
  | .member c o => [("computed", .bool c), ("optional", .bool o)]
  | .call o => [("optional", .bool o)]
  | .assignment operator => [("operator", .string operator)]
  | .update operator leading => [("operator", .string operator.symbol), ("prefix", .bool leading)]
  | .property c s => [("computed", .bool c), ("shorthand", .bool s)]
  | .other kind => [("syntax", .string kind)]
  | _ => []

def singleRoles : Label → List Role
  | .expressionStatement | .cast => [.expression]
  | .returnStatement | .update _ _ | .spread | .restElement => [.argument]
  | .forStatement => [.init, .test, .update, .body]
  | .variableDeclarator => [.id, .init]
  | .exportNamed | .exportDefault => [.declaration]
  | .functionDeclaration _ _ | .functionExpression _ _ => [.id, .body]
  | .arrowFunction _ _ => [.body]
  | .classDeclaration | .classExpression => [.id, .superclass, .body]
  | .methodDefinition _ _ | .property _ _ => [.key, .value]
  | .member _ _ => [.object, .property]
  | .call _ | .construct => [.callee]
  | .assignment _ | .assignmentPattern => [.left, .right]
  | .conditional => [.test, .consequent, .alternate]
  | _ => []

def listRole? : Label → Option Role
  | .program | .blockStatement | .classBody => some .body
  | .variableDeclaration _ => some .declarations
  | .functionDeclaration _ _ | .functionExpression _ _ | .arrowFunction _ _ => some .params
  | .templateLiteral => some .expressions
  | .call _ | .construct => some .arguments
  | .objectExpression | .objectPattern => some .properties
  | .arrayExpression | .arrayPattern => some .elements
  | .other _ => some .children
  | _ => none

end Label

def Role.name : Role → String
  | .body => "body"
  | .expression => "expression"
  | .argument => "argument"
  | .init => "init"
  | .test => "test"
  | .update => "update"
  | .declarations => "declarations"
  | .id => "id"
  | .declaration => "declaration"
  | .params => "params"
  | .superclass => "superclass"
  | .key => "key"
  | .value => "value"
  | .expressions => "expressions"
  | .object => "object"
  | .property => "property"
  | .callee => "callee"
  | .arguments => "arguments"
  | .left => "left"
  | .right => "right"
  | .consequent => "consequent"
  | .alternate => "alternate"
  | .properties => "properties"
  | .elements => "elements"
  | .children => "children"

namespace Node

def numbers (ns : List Int) : Value := .list (ns.map .int)

def recordOver (label : Label) (extent : Extent) (children : List (Role × Value)) :
    List (Text × Value) :=
  let single : Role → Text × Value := fun r =>
    (r.name, ((children.find? (·.1 == r)).map (·.2)).getD .null)
  let several : Role → Text × Value := fun r =>
    (r.name, .list (children.filterMap fun c => if c.1 = r then some c.2 else none))
  let place : List (Text × Value) :=
    [("type", .string label.name), ("range", numbers [extent.start, extent.stop]),
      ("loc", numbers [extent.line, extent.column])]
  place ++ label.attributes ++ label.singleRoles.map single ++ label.listRole?.toList.map several

mutual

/-- A node with all its attributes and parts; an absent part is null. -/
def record : Node → Value
  | .mk label extent cs => .object (recordOver label extent (recordAll cs))

def recordAll : List (Role × Node) → List (Role × Value)
  | [] => []
  | (role, n) :: rest => (role, n.record) :: recordAll rest

end

end Node
end MutationLint
