import Idl.Proofs.Nodes

/-!
# Parts of a tree

Every node that a construct is made of is among the nodes of the construct, and so every span that
is kept in a tree belongs to one of its nodes.
-/
namespace Idl

namespace Node

/-- A node and all nodes below it are among those listed. -/
def Contains (whole : List Node) (node : Node) : Prop :=
  node.nodes ⊆ whole

/-- The span belongs to one of the nodes. -/
def Marks (whole : List Node) (span : Span) : Prop :=
  ∃ node ∈ whole, node.span = span

namespace Contains

variable {whole : List Node} {middle part : Node}

theorem trans (h : Contains whole middle) (h' : Contains middle.nodes part) :
    Contains whole part :=
  List.Subset.trans h' h

theorem mem (h : Contains whole part) : part ∈ whole :=
  h (part.nodes_eq ▸ List.mem_cons_self)

theorem marks (h : Contains whole part) : Marks whole part.span :=
  ⟨part, h.mem, rfl⟩

end Contains

theorem subset_of_mem_nodesOfAll {list : List Node} {node : Node} (h : node ∈ list) :
    node.nodes ⊆ nodesOfAll list := by
  rw [nodesOfAll_eq]
  exact fun other hother => List.mem_flatMap.2 ⟨node, h, hother⟩

theorem subset_nodesOfParts_one {parts : List Part} {name : String} {node : Node}
    (h : Part.one name node ∈ parts) : node.nodes ⊆ nodesOfParts parts := by
  induction parts with
  | nil => cases h
  | cons part parts ih =>
    rcases List.mem_cons.1 h with rfl | hrest
    · rw [nodesOfParts]
      exact List.subset_append_left _ _
    · cases part with
      | word _ _ => rw [nodesOfParts]; exact ih hrest
      | absent _ => rw [nodesOfParts]; exact ih hrest
      | one _ _ => rw [nodesOfParts]; exact List.subset_append_of_subset_right _ (ih hrest)
      | many _ _ => rw [nodesOfParts]; exact List.subset_append_of_subset_right _ (ih hrest)

theorem subset_nodesOfParts_many {parts : List Part} {name : String} {list : List Node}
    (h : Part.many name list ∈ parts) : nodesOfAll list ⊆ nodesOfParts parts := by
  induction parts with
  | nil => cases h
  | cons part parts ih =>
    rcases List.mem_cons.1 h with rfl | hrest
    · rw [nodesOfParts]
      exact List.subset_append_left _ _
    · cases part with
      | word _ _ => rw [nodesOfParts]; exact ih hrest
      | absent _ => rw [nodesOfParts]; exact ih hrest
      | one _ _ => rw [nodesOfParts]; exact List.subset_append_of_subset_right _ (ih hrest)
      | many _ _ => rw [nodesOfParts]; exact List.subset_append_of_subset_right _ (ih hrest)

mutual

theorem nodes_subset_of_mem {node : Node} :
    ∀ other : Node, node ∈ other.nodes → node.nodes ⊆ other.nodes
  | leaf label span text, h => by
    rw [nodes] at h
    obtain rfl := List.mem_singleton.1 h
    exact List.Subset.refl _
  | branch label span parts, h => by
    rw [nodes] at h
    rcases List.mem_cons.1 h with rfl | h
    · exact List.Subset.refl _
    · rw [nodes]
      exact List.subset_cons_of_subset _ (nodes_subset_of_mem_parts parts h)

theorem nodes_subset_of_mem_parts {node : Node} :
    ∀ parts : List Part, node ∈ nodesOfParts parts → node.nodes ⊆ nodesOfParts parts
  | [], h => by
    rw [nodesOfParts] at h
    cases h
  | .word _ _ :: parts, h => by
    rw [nodesOfParts] at h ⊢
    exact nodes_subset_of_mem_parts parts h
  | .absent _ :: parts, h => by
    rw [nodesOfParts] at h ⊢
    exact nodes_subset_of_mem_parts parts h
  | .one _ other :: parts, h => by
    rw [nodesOfParts] at h ⊢
    rcases List.mem_append.1 h with h | h
    · exact List.subset_append_of_subset_left _ (nodes_subset_of_mem other h)
    · exact List.subset_append_of_subset_right _ (nodes_subset_of_mem_parts parts h)
  | .many _ list :: parts, h => by
    rw [nodesOfParts] at h ⊢
    rcases List.mem_append.1 h with h | h
    · exact List.subset_append_of_subset_left _ (nodes_subset_of_mem_all list h)
    · exact List.subset_append_of_subset_right _ (nodes_subset_of_mem_parts parts h)

theorem nodes_subset_of_mem_all {node : Node} :
    ∀ list : List Node, node ∈ nodesOfAll list → node.nodes ⊆ nodesOfAll list
  | [], h => by
    rw [nodesOfAll] at h
    cases h
  | other :: list, h => by
    rw [nodesOfAll] at h ⊢
    rcases List.mem_append.1 h with h | h
    · exact List.subset_append_of_subset_left _ (nodes_subset_of_mem other h)
    · exact List.subset_append_of_subset_right _ (nodes_subset_of_mem_all list h)

end

/-- A node holds the names that are written in it. -/
theorem contains_of_names {node : Node} {names : List Name}
    (hnames : node.names = names.map Name.toNode) {name : Name} (h : name ∈ names) :
    Contains node.nodes name.toNode := by
  have hmem : name.toNode ∈ node.names := hnames ▸ List.mem_map_of_mem h
  exact nodes_subset_of_mem _ (List.mem_filter.1 hmem).1

section

variable {label : NodeLabel} {span : Span} {parts : List Part} {node : Node}

theorem contains_inner_one (name : String) (h : Part.one name node ∈ parts) :
    Contains (branch label span parts).inner node :=
  subset_nodesOfParts_one h

theorem contains_inner_many (name : String) {list : List Node} (h : Part.many name list ∈ parts)
    (hnode : node ∈ list) : Contains (branch label span parts).inner node :=
  List.Subset.trans (subset_of_mem_nodesOfAll hnode) (subset_nodesOfParts_many h)

theorem inner_subset_nodes (node : Node) : node.inner ⊆ node.nodes := by
  rw [nodes_eq]
  exact List.subset_cons_self _ _

theorem contains_one (name : String) (h : Part.one name node ∈ parts) :
    Contains (branch label span parts).nodes node :=
  List.Subset.trans (contains_inner_one name h) (inner_subset_nodes _)

theorem contains_many (name : String) {list : List Node} (h : Part.many name list ∈ parts)
    (hnode : node ∈ list) : Contains (branch label span parts).nodes node :=
  List.Subset.trans (contains_inner_many name h hnode) (inner_subset_nodes _)

end

end Node

open Node

/-! ### Names and literals -/

section

variable {whole : List Node}

theorem Identifier.marks {identifier : Identifier} (h : Contains whole identifier.toNode) :
    Marks whole identifier.span :=
  h.marks

theorem IntegerLiteral.marks {literal : IntegerLiteral} (h : Contains whole literal.toNode) :
    Marks whole literal.span :=
  h.marks

theorem Name.marks {name : Name} (h : Contains whole name.toNode) : Marks whole name.span :=
  h.marks

end

theorem Name.contains_identifier {name : Name} {identifier : Identifier}
    (h : identifier ∈ name.path) : Contains name.toNode.nodes identifier.toNode :=
  contains_many _ List.mem_cons_self (List.mem_map_of_mem h)

/-! ### Types and expressions -/

theorem TypeRef.span_toNode (type : TypeRef) : type.toNode.span = type.span := by
  cases type <;> rfl

theorem TypeRef.marks {whole : List Node} {type : TypeRef} (h : Contains whole type.toNode) :
    Marks whole type.span :=
  type.span_toNode ▸ h.marks

theorem TypeRef.contains_element (element : TypeRef) (span : Span) :
    Contains (TypeRef.list element span).toNode.nodes element.toNode :=
  contains_one _ List.mem_cons_self

theorem TypeRef.contains_key (key value : TypeRef) (span : Span) :
    Contains (TypeRef.map key value span).toNode.nodes key.toNode :=
  contains_one _ List.mem_cons_self

theorem TypeRef.contains_value (key value : TypeRef) (span : Span) :
    Contains (TypeRef.map key value span).toNode.nodes value.toNode :=
  contains_one _ (List.mem_cons_of_mem _ List.mem_cons_self)

theorem TypeRef.contains_reference {type : TypeRef} {name : Name} (h : name ∈ type.references) :
    Contains type.toNode.nodes name.toNode :=
  contains_of_names type.names_toNode h

theorem Expr.span_toNode (expr : Expr) : expr.toNode.span = expr.span := by
  cases expr <;> rw [Expr.toNode] <;> rfl

theorem Expr.marks {whole : List Node} {expr : Expr} (h : Contains whole expr.toNode) :
    Marks whole expr.span :=
  expr.span_toNode ▸ h.marks

theorem Expr.toNodes_eq (elements : List Expr) :
    Expr.toNodes elements = elements.map Expr.toNode := by
  induction elements with
  | nil => rw [Expr.toNodes, List.map_nil]
  | cons element elements ih => rw [Expr.toNodes, List.map_cons, ih]

theorem Expr.contains_elements {whole : List Node} {elements : List Expr} {span : Span}
    (h : Contains whole (Expr.list elements span).toNode) :
    ∀ element ∈ elements, Contains whole element.toNode := by
  intro element helement
  rw [Expr.toNode, Expr.toNodes_eq] at h
  exact h.trans (contains_many _ List.mem_cons_self (List.mem_map_of_mem helement))

theorem Expr.mem_toParts {entries : List (Expr × Expr)} {entry : Expr × Expr}
    (h : entry ∈ entries) :
    .one "key" entry.1.toNode ∈ Expr.toParts entries ∧
      .one "value" entry.2.toNode ∈ Expr.toParts entries := by
  induction entries with
  | nil => cases h
  | cons first entries ih =>
    rw [Expr.toParts]
    rcases List.mem_cons.1 h with rfl | h
    · simp
    · simp [ih h]

theorem Expr.contains_entries {whole : List Node} {entries : List (Expr × Expr)} {span : Span}
    (h : Contains whole (Expr.map entries span).toNode) :
    ∀ entry ∈ entries, Contains whole entry.1.toNode ∧ Contains whole entry.2.toNode := by
  intro entry hentry
  rw [Expr.toNode] at h
  obtain ⟨hkey, hvalue⟩ := Expr.mem_toParts hentry
  exact ⟨h.trans (contains_one _ hkey), h.trans (contains_one _ hvalue)⟩

/-! ### Fields, entries and arguments -/

theorem EnumEntry.contains_name (entry : EnumEntry) :
    Contains entry.toNode.nodes entry.name.toNode :=
  contains_one _ List.mem_cons_self

theorem EnumEntry.contains_value {entry : EnumEntry} {literal : IntegerLiteral}
    (h : entry.value = some literal) : Contains entry.toNode.nodes literal.toNode :=
  contains_one "value" (by simp [h, Part.optional])

theorem Field.contains_order {field : Field} {literal : IntegerLiteral}
    (h : field.order = some literal) : Contains field.toNode.nodes literal.toNode :=
  contains_one "order" (by simp [h, Part.optional])

theorem Field.contains_type (field : Field) : Contains field.toNode.nodes field.type.toNode :=
  contains_one "type" (by simp)

theorem Field.contains_name (field : Field) : Contains field.toNode.nodes field.name.toNode :=
  contains_one "name" (by simp)

theorem Field.contains_default {field : Field} {expr : Expr} (h : field.default = some expr) :
    Contains field.toNode.nodes expr.toNode :=
  contains_one "default" (by simp [h, Part.optional])

theorem Argument.contains_order {argument : Argument} {literal : IntegerLiteral}
    (h : argument.order = some literal) : Contains argument.toNode.nodes literal.toNode :=
  contains_one "order" (by simp [h, Part.optional])

theorem Argument.contains_type (argument : Argument) :
    Contains argument.toNode.nodes argument.type.toNode :=
  contains_one "type" (by simp)

theorem Argument.contains_name (argument : Argument) :
    Contains argument.toNode.nodes argument.name.toNode :=
  contains_one "name" (by simp)

/-! ### Declarations -/

theorem Method.contains_returns (method : Method) :
    Contains method.toNode.nodes method.returns.toNode :=
  contains_one "returns" (by simp)

theorem Method.contains_name (method : Method) :
    Contains method.toNode.nodes method.name.toNode :=
  contains_one "name" (by simp)

theorem Method.contains_argument {method : Method} {argument : Argument}
    (h : argument ∈ method.arguments) : Contains method.toNode.nodes argument.toNode :=
  contains_many "arguments" (by simp) (List.mem_map_of_mem h)

theorem Method.contains_throws {method : Method} {argument : Argument}
    (h : argument ∈ method.throws) : Contains method.toNode.nodes argument.toNode :=
  contains_many "throws" (by simp) (List.mem_map_of_mem h)

theorem EnumDecl.contains_entry {decl : EnumDecl} {entry : EnumEntry} (h : entry ∈ decl.entries) :
    Contains (Declaration.enum decl).toNode.nodes entry.toNode :=
  contains_many "entries" (by simp) (List.mem_map_of_mem h)

theorem StructDecl.contains_field {decl : StructDecl} {field : Field} (h : field ∈ decl.fields) :
    Contains (Declaration.struct decl).toNode.nodes field.toNode :=
  contains_many "fields" (by simp) (List.mem_map_of_mem h)

theorem ServiceDecl.contains_parent {decl : ServiceDecl} {name : Name}
    (h : decl.parent = some name) : Contains (Declaration.service decl).toNode.nodes name.toNode :=
  contains_one "extends" (by simp [h, Part.optional])

theorem ServiceDecl.contains_method {decl : ServiceDecl} {method : Method}
    (h : method ∈ decl.methods) :
    Contains (Declaration.service decl).toNode.nodes method.toNode :=
  contains_many "methods" (by simp) (List.mem_map_of_mem h)

theorem ConstantDecl.contains_type (decl : ConstantDecl) :
    Contains (Declaration.constant decl).toNode.nodes decl.type.toNode :=
  contains_one "type" (by simp)

theorem ConstantDecl.contains_value (decl : ConstantDecl) :
    Contains (Declaration.constant decl).toNode.nodes decl.value.toNode :=
  contains_one "value" (by simp)

theorem TypedefDecl.contains_type (decl : TypedefDecl) :
    Contains (Declaration.typedef decl).toNode.nodes decl.type.toNode :=
  contains_one "type" (by simp)

theorem Declaration.contains_name (declaration : Declaration) :
    Contains declaration.toNode.nodes declaration.name.toNode := by
  cases declaration <;> exact contains_one "name" (by simp [Declaration.name])

/-! ### Files -/

namespace Document

variable {document : Document}

theorem contains_declaration {declaration : Declaration}
    (h : declaration ∈ document.declarations) :
    Contains document.toNode.inner declaration.toNode :=
  contains_inner_many "declarations" (by simp) (List.mem_map_of_mem h)

theorem contains_include {directive : IncludeDirective} (h : directive ∈ document.includes) :
    Contains document.toNode.inner directive.toNode :=
  contains_inner_many "includes" (by simp) (List.mem_map_of_mem h)

theorem contains_path {directive : IncludeDirective} (h : directive ∈ document.includes) :
    Contains document.toNode.inner directive.path.toNode :=
  (contains_include h).trans (contains_one "path" (by simp))

theorem contains_reference {name : Name} (h : name ∈ document.references) :
    Contains document.toNode.inner name.toNode := by
  obtain ⟨declaration, hdeclaration, h⟩ := List.mem_flatMap.1 h
  exact (contains_declaration hdeclaration).trans (contains_of_names declaration.names_toNode h)

end Document

end Idl
