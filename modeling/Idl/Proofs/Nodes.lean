import Idl.Syntax.Node
import Idl.Syntax.References

/-!
# The nodes of a tree

All nodes of a syntax tree in source order, each before those below it. The names among them are
the references of the file.
-/
namespace Idl

namespace Node

mutual

/-- A node and all nodes below it. -/
def nodes : Node → List Node
  | leaf label span text => [leaf label span text]
  | branch label span parts => branch label span parts :: nodesOfParts parts

def nodesOfParts : List Part → List Node
  | [] => []
  | .word _ _ :: parts => nodesOfParts parts
  | .one _ node :: parts => nodes node ++ nodesOfParts parts
  | .absent _ :: parts => nodesOfParts parts
  | .many _ list :: parts => nodesOfAll list ++ nodesOfParts parts

def nodesOfAll : List Node → List Node
  | [] => []
  | node :: list => nodes node ++ nodesOfAll list

end

/-- The nodes below a node. -/
def inner : Node → List Node
  | leaf _ _ _ => []
  | branch _ _ parts => nodesOfParts parts

theorem nodes_eq (node : Node) : node.nodes = node :: node.inner := by
  cases node with
  | leaf label span text => rw [nodes, inner]
  | branch label span parts => rw [nodes, inner]

theorem nodesOfAll_eq (list : List Node) : nodesOfAll list = list.flatMap nodes := by
  induction list with
  | nil => rw [nodesOfAll, List.flatMap_nil]
  | cons node list ih => rw [nodesOfAll, ih, List.flatMap_cons]

def isName (node : Node) : Bool :=
  node.label = .name

/-- The names below and including a node, in source order. -/
def names (node : Node) : List Node :=
  node.nodes.filter isName

/-- The names in the parts of a node. -/
def namesOfParts (parts : List Part) : List Node :=
  (nodesOfParts parts).filter isName

@[simp] theorem namesOfParts_nil : namesOfParts [] = [] := by
  rw [namesOfParts, nodesOfParts, List.filter_nil]

@[simp] theorem namesOfParts_word (name text : String) (parts : List Part) :
    namesOfParts (.word name text :: parts) = namesOfParts parts := by
  rw [namesOfParts, nodesOfParts, namesOfParts]

@[simp] theorem namesOfParts_one (name : String) (node : Node) (parts : List Part) :
    namesOfParts (.one name node :: parts) = node.names ++ namesOfParts parts := by
  rw [namesOfParts, nodesOfParts, List.filter_append, names, namesOfParts]

@[simp] theorem namesOfParts_optional (name : String) (node : Option Node) (parts : List Part) :
    namesOfParts (.optional name node :: parts) =
      (node.map names).getD [] ++ namesOfParts parts := by
  cases node with
  | none => rw [Part.optional, namesOfParts, nodesOfParts]; rfl
  | some node => rw [Part.optional, namesOfParts_one]; rfl

@[simp] theorem namesOfParts_many (name : String) (list : List Node) (parts : List Part) :
    namesOfParts (.many name list :: parts) = list.flatMap names ++ namesOfParts parts := by
  rw [namesOfParts, nodesOfParts, List.filter_append, nodesOfAll_eq, List.filter_flatMap]
  rfl

theorem names_leaf {label : NodeLabel} (h : label ≠ .name) (span : Span) (text : String) :
    (leaf label span text).names = [] := by
  rw [names, nodes, List.filter_cons, isName, Node.label, decide_eq_false h]
  rfl

theorem names_branch {label : NodeLabel} (h : label ≠ .name) (span : Span) (parts : List Part) :
    (branch label span parts).names = namesOfParts parts := by
  rw [names, nodes, List.filter_cons, isName, Node.label, decide_eq_false h]
  rfl

end Node

open Node

@[simp] theorem Identifier.names_toNode (identifier : Identifier) :
    identifier.toNode.names = [] :=
  names_leaf (by decide) _ _

@[simp] theorem IntegerLiteral.names_toNode (literal : IntegerLiteral) :
    literal.toNode.names = [] :=
  names_leaf (by decide) _ _

@[simp] theorem StringLiteral.names_toNode (literal : StringLiteral) :
    literal.toNode.names = [] :=
  names_leaf (by decide) _ _

@[simp] theorem Name.names_toNode (name : Name) : name.toNode.names = [name.toNode] := by
  have hparts : namesOfParts [.many "path" (name.path.map Identifier.toNode)] = [] := by
    simp [List.flatMap_map]
  rw [names, nodes_eq, List.filter_cons]
  exact congrArg (name.toNode :: ·) hparts

@[simp] theorem TypeRef.names_toNode (type : TypeRef) :
    type.toNode.names = type.references.map Name.toNode := by
  induction type with
  | builtin type span => exact names_leaf (by decide) _ _
  | list element span ih => simp [toNode, references, names_branch, ih]
  | map key value span ihKey ihValue => simp [toNode, references, names_branch, ihKey, ihValue]
  | name n => exact n.names_toNode

mutual

theorem Expr.names_toNode : ∀ expr : Expr, expr.toNode.names = expr.references.map Name.toNode
  | .integer literal => by rw [Expr.toNode, Expr.references]; exact literal.names_toNode
  | .string literal => by rw [Expr.toNode, Expr.references]; exact literal.names_toNode
  | .bool value span => by rw [Expr.toNode, Expr.references]; exact names_leaf (by decide) _ _
  | .list elements span => by
    rw [Expr.toNode, Expr.references, names_branch (by decide), namesOfParts_many,
      Expr.names_toNodes elements, namesOfParts_nil, List.append_nil]
  | .map entries span => by
    rw [Expr.toNode, Expr.references, names_branch (by decide), Expr.names_toParts entries]
  | .name n => by rw [Expr.toNode, Expr.references]; exact n.names_toNode

theorem Expr.names_toNodes : ∀ elements : List Expr,
    (Expr.toNodes elements).flatMap names = (Expr.referencesAll elements).map Name.toNode
  | [] => by rw [Expr.toNodes, Expr.referencesAll]; rfl
  | e :: es => by
    rw [Expr.toNodes, Expr.referencesAll, List.flatMap_cons, List.map_append, Expr.names_toNode e,
      Expr.names_toNodes es]

theorem Expr.names_toParts : ∀ entries : List (Expr × Expr),
    namesOfParts (Expr.toParts entries) = (Expr.referencesEntries entries).map Name.toNode
  | [] => by rw [Expr.toParts, Expr.referencesEntries]; exact namesOfParts_nil
  | (key, value) :: entries => by
    rw [Expr.toParts, Expr.referencesEntries, namesOfParts_one, namesOfParts_one, List.map_append,
      List.map_append, List.append_assoc, Expr.names_toNode key, Expr.names_toNode value,
      Expr.names_toParts entries]

end

attribute [simp] Expr.names_toNode

theorem EnumEntry.names_toNode (entry : EnumEntry) : entry.toNode.names = [] := by
  cases hvalue : entry.value <;> simp [toNode, names_branch, hvalue]

theorem Field.names_toNode (field : Field) :
    field.toNode.names = field.references.map Name.toNode := by
  cases horder : field.order <;> cases hdefault : field.default <;>
    simp [toNode, references, names_branch, horder, hdefault]

theorem Argument.names_toNode (argument : Argument) :
    argument.toNode.names = argument.type.references.map Name.toNode := by
  cases horder : argument.order <;> simp [toNode, names_branch, horder]

theorem Method.names_toNode (method : Method) :
    method.toNode.names = method.references.map Name.toNode := by
  simp [toNode, references, names_branch, List.flatMap_map, Argument.names_toNode,
    List.map_flatMap]

theorem Declaration.names_toNode (declaration : Declaration) :
    declaration.toNode.names = declaration.references.map Name.toNode := by
  cases declaration with
  | constant d => simp [toNode, references, names_branch]
  | typedef d => simp [toNode, references, names_branch]
  | enum d => simp [toNode, references, names_branch, List.flatMap_map, EnumEntry.names_toNode]
  | struct d =>
    simp [toNode, references, names_branch, List.flatMap_map, Field.names_toNode,
      List.map_flatMap]
  | service d =>
    cases hparent : d.parent <;>
      simp [toNode, references, names_branch, List.flatMap_map, Method.names_toNode,
        List.map_flatMap, hparent]

/-- The names in a file are its references, whatever they stand in. -/
theorem Document.names_toNode (document : Document) :
    document.toNode.names = document.references.map Name.toNode := by
  have hnamespaces : (document.namespaces.map NamespaceDirective.toNode).flatMap names = [] := by
    rw [List.flatMap_map, List.flatMap_eq_nil_iff]
    exact fun directive _ => names_leaf (by decide) _ _
  have hincludes : (document.includes.map IncludeDirective.toNode).flatMap names = [] := by
    rw [List.flatMap_map, List.flatMap_eq_nil_iff]
    exact fun directive _ => by simp [IncludeDirective.toNode, names_branch]
  rw [toNode, names_branch (by decide), namesOfParts_many, namesOfParts_many, namesOfParts_many,
    hnamespaces, hincludes]
  simp [references, List.flatMap_map, Declaration.names_toNode, List.map_flatMap]

end Idl
