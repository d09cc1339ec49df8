import Idl.Syntax

/-!
# The uniform view of a syntax tree

Every construct seen as a node of one kind: its label, its span and its named parts. What holds
of all nodes of a tree, such as how many there are and where they lie, is said of this view.
-/
namespace Idl

inductive NodeLabel where
  | identifier | integerLiteral | stringLiteral | boolLiteral | name | builtinType | listType
  | mapType | list | map | namespaceDirective | includeDirective | enum | enumEntry | struct
  | field | typedef | const | service | method | argument | document
deriving DecidableEq, Repr

def NodeLabel.text : NodeLabel → String
  | identifier => "Identifier"
  | integerLiteral => "IntegerLiteral"
  | stringLiteral => "StringLiteral"
  | boolLiteral => "BoolLiteral"
  | name => "Name"
  | builtinType => "BuiltinType"
  | listType => "ListType"
  | mapType => "MapType"
  | list => "List"
  | map => "Map"
  | namespaceDirective => "Namespace"
  | includeDirective => "Include"
  | enum => "Enum"
  | enumEntry => "EnumEntry"
  | struct => "Struct"
  | field => "Field"
  | typedef => "Typedef"
  | const => "Const"
  | service => "Service"
  | method => "Method"
  | argument => "Argument"
  | document => "Document"

mutual

/-- A node is a leaf with a text, or holds other nodes in its parts. -/
inductive Node where
  | leaf (label : NodeLabel) (span : Span) (text : String)
  | branch (label : NodeLabel) (span : Span) (parts : List Part)

/-- A named part of a node: a word, a node, a node that was left out, or a list of nodes. -/
inductive Part where
  | word (name text : String)
  | one (name : String) (node : Node)
  | absent (name : String)
  | many (name : String) (nodes : List Node)

end

namespace Node

def label : Node → NodeLabel
  | leaf label _ _ => label
  | branch label _ _ => label

def span : Node → Span
  | leaf _ span _ => span
  | branch _ span _ => span

mutual

/-- Number of nodes in the tree below and including a node. -/
def count : Node → Nat
  | leaf _ _ _ => 1
  | branch _ _ parts => countParts parts + 1

def countParts : List Part → Nat
  | [] => 0
  | .word _ _ :: parts => countParts parts
  | .one _ node :: parts => count node + countParts parts
  | .absent _ :: parts => countParts parts
  | .many _ nodes :: parts => countAll nodes + countParts parts

def countAll : List Node → Nat
  | [] => 0
  | node :: nodes => count node + countAll nodes

end

end Node

/-- A part that may have been left out. -/
def Part.optional (name : String) : Option Node → Part
  | some node => .one name node
  | none => .absent name

def Identifier.toNode (identifier : Identifier) : Node :=
  .leaf .identifier identifier.span identifier.text

def IntegerLiteral.toNode (literal : IntegerLiteral) : Node :=
  .leaf .integerLiteral literal.span (toString literal.value)

def StringLiteral.toNode (literal : StringLiteral) : Node :=
  .leaf .stringLiteral literal.span ("\"" ++ literal.text ++ "\"")

def Name.toNode (name : Name) : Node :=
  .branch .name name.span [.many "path" (name.path.map Identifier.toNode)]

def TypeRef.toNode : TypeRef → Node
  | builtin type span => .leaf .builtinType span type.text
  | list element span => .branch .listType span [.one "element" element.toNode]
  | map key value span =>
    .branch .mapType span [.one "key" key.toNode, .one "value" value.toNode]
  | name n => n.toNode

mutual

def Expr.toNode : Expr → Node
  | .integer literal => literal.toNode
  | .string literal => literal.toNode
  | .bool value span => .leaf .boolLiteral span (if value then "true" else "false")
  | .list elements span => .branch .list span [.many "elements" (Expr.toNodes elements)]
  | .map entries span => .branch .map span (Expr.toParts entries)
  | .name n => n.toNode

def Expr.toNodes : List Expr → List Node
  | [] => []
  | e :: es => e.toNode :: Expr.toNodes es

/-- Keys and values take turns. -/
def Expr.toParts : List (Expr × Expr) → List Part
  | [] => []
  | (key, value) :: entries =>
    .one "key" key.toNode :: .one "value" value.toNode :: Expr.toParts entries

end

def NamespaceDirective.toNode (directive : NamespaceDirective) : Node :=
  .leaf .namespaceDirective directive.span (directive.scope ++ " " ++ directive.name)

def IncludeDirective.toNode (directive : IncludeDirective) : Node :=
  .branch .includeDirective directive.span [.one "path" directive.path.toNode]

def EnumEntry.toNode (entry : EnumEntry) : Node :=
  .branch .enumEntry entry.span
    [.one "name" entry.name.toNode, .optional "value" (entry.value.map (·.toNode))]

def Field.toNode (field : Field) : Node :=
  .branch .field field.span
    [.optional "order" (field.order.map (·.toNode)),
      .word "requiredness" ((field.requiredness.map Requiredness.text).getD "<none>"),
      .one "type" field.type.toNode,
      .one "name" field.name.toNode,
      .optional "default" (field.default.map (·.toNode))]

def Argument.toNode (argument : Argument) : Node :=
  .branch .argument argument.span
    [.optional "order" (argument.order.map (·.toNode)),
      .one "type" argument.type.toNode,
      .one "name" argument.name.toNode]

def Method.toNode (method : Method) : Node :=
  .branch .method method.span
    [.word "oneway" (if method.oneway then "true" else "false"),
      .one "returns" method.returns.toNode,
      .one "name" method.name.toNode,
      .many "arguments" (method.arguments.map Argument.toNode),
      .many "throws" (method.throws.map Argument.toNode)]

def Declaration.toNode : Declaration → Node
  | constant d =>
    .branch .const d.span
      [.one "type" d.type.toNode, .one "name" d.name.toNode, .one "value" d.value.toNode]
  | typedef d => .branch .typedef d.span [.one "type" d.type.toNode, .one "name" d.name.toNode]
  | enum d =>
    .branch .enum d.span
      [.one "name" d.name.toNode, .many "entries" (d.entries.map EnumEntry.toNode)]
  | struct d =>
    .branch .struct d.span
      [.word "kind" d.kind.text,
        .one "name" d.name.toNode,
        .many "fields" (d.fields.map Field.toNode)]
  | service d =>
    .branch .service d.span
      [.one "name" d.name.toNode,
        .optional "extends" (d.parent.map (·.toNode)),
        .many "methods" (d.methods.map Method.toNode)]

def Document.toNode (document : Document) : Node :=
  .branch .document document.span
    [.many "namespaces" (document.namespaces.map NamespaceDirective.toNode),
      .many "includes" (document.includes.map IncludeDirective.toNode),
      .many "declarations" (document.declarations.map Declaration.toNode)]

end Idl
