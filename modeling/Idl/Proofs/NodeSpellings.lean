import Idl.Proofs.NodeParts
import Idl.Proofs.Spelling

/-!
# Spellings of the nodes in a tree

In every token sequence that spells a construct there is, for each node of the construct, a
sequence within it that lies in the node's span.
-/
namespace Idl
open Spelling

/-- Every sequence of the language has a sequence within it for each of the nodes, lying in the
node's span. -/
def Spelling.Spells (language : Language Token) (nodes : List Node) : Prop :=
  ∀ node ∈ nodes, ∃ part, Contains language (Spelling.spanning node.span part)

namespace Spelling.Spells

variable {language language' : Language Token} {list list' : List Node}

theorem nil (language : Language Token) : Spells language [] :=
  fun _ hnode => absurd hnode List.not_mem_nil

theorem append (h : Spells language list) (h' : Spells language list') :
    Spells language (list ++ list') := by
  intro node hnode
  rcases List.mem_append.1 hnode with hnode | hnode
  · exact h node hnode
  · exact h' node hnode

theorem left (h : Spells language list) (other : Language Token) :
    Spells (language * other) list := by
  intro node hnode
  obtain ⟨part, hpart⟩ := h node hnode
  exact ⟨part, hpart.left other⟩

theorem right (h : Spells language list) (other : Language Token) :
    Spells (other * language) list := by
  intro node hnode
  obtain ⟨part, hpart⟩ := h node hnode
  exact ⟨part, hpart.right other⟩

theorem mul (h : Spells language list) (h' : Spells language' list') :
    Spells (language * language') (list ++ list') :=
  (h.left language').append (h'.right language)

/-- A node lies in its own span, together with those below it. -/
theorem node (h : Spells language list) (label : NodeLabel) (parts : List Part)
    (hlist : Node.nodesOfParts parts = list) (span : Span) :
    Spells (spanning span language) (Node.branch label span parts).nodes := by
  rw [Node.nodes, hlist]
  intro node hnode
  rcases List.mem_cons.1 hnode with rfl | hnode
  · exact ⟨language, .refl _⟩
  · obtain ⟨part, hpart⟩ := h node hnode
    exact ⟨part, hpart.spanning span⟩

theorem leaf (label : NodeLabel) (span : Span) (text : String) (language : Language Token) :
    Spells (spanning span language) (Node.leaf label span text).nodes := by
  rw [Node.nodes]
  intro node hnode
  obtain rfl := List.mem_singleton.1 hnode
  exact ⟨language, .refl _⟩

theorem items {α : Type} {spelling : α → Language Token} {toNode : α → Node}
    (h : ∀ item, Spells (spelling item) (toNode item).nodes) (list : List α) :
    Spells (Spelling.items spelling list) (Node.nodesOfAll (list.map toNode)) := by
  induction list with
  | nil => rw [List.map_nil, Node.nodesOfAll]; exact nil _
  | cons item list ih =>
    rw [Spelling.items, List.map_cons, List.prod_cons, List.map_cons, Node.nodesOfAll]
    exact ((h item).left separator).mul ih

theorem enclosed (h : Spells language list) (opening closing : Mark) :
    Spells (Spelling.enclosed opening language closing) list :=
  (h.right _).left _

end Spelling.Spells

/-! ### Names, types and expressions -/

theorem Identifier.spells (identifier : Identifier) :
    Spells identifier.spellings identifier.toNode.nodes :=
  .leaf _ _ _ _

theorem IntegerLiteral.spells (literal : IntegerLiteral) :
    Spells literal.spellings literal.toNode.nodes :=
  .leaf _ _ _ _

theorem StringLiteral.spells (literal : StringLiteral) :
    Spells literal.spellings literal.toNode.nodes :=
  .leaf _ _ _ _

theorem Name.spells (name : Name) : Spells name.spellings name.toNode.nodes := by
  have hrest : ∀ rest : List Identifier,
      Spells (rest.map fun next => mark .dot * next.spellings).prod
        (Node.nodesOfAll (rest.map Identifier.toNode)) := by
    intro rest
    induction rest with
    | nil => rw [List.map_nil, List.map_nil, Node.nodesOfAll]; exact .nil _
    | cons next rest ih =>
      rw [List.map_cons, List.prod_cons, List.map_cons, Node.nodesOfAll]
      exact (next.spells.right _).mul ih
  refine (name.head.spells.mul (hrest name.tail)).node .name _ ?_ name.span
  rw [Node.nodesOfParts, Node.nodesOfParts, List.append_nil, path, List.map_cons, Node.nodesOfAll]

theorem TypeRef.spells (type : TypeRef) : Spells type.spellings type.toNode.nodes := by
  induction type with
  | builtin type span => exact .leaf _ _ _ _
  | list element span ih =>
    refine ((ih.right _).left _).node .listType _ ?_ span
    rw [Node.nodesOfParts, Node.nodesOfParts, List.append_nil]
  | map key value span ihKey ihValue =>
    refine ((((ihKey.right _).left _).mul ihValue).left _).node .mapType _ ?_ span
    rw [Node.nodesOfParts, Node.nodesOfParts, Node.nodesOfParts, List.append_nil]
  | name n => exact n.spells

mutual

theorem Expr.spells : ∀ expr : Expr, Spells expr.spellings expr.toNode.nodes
  | .integer literal => by
    rw [Expr.spellings, Expr.toNode]
    exact literal.spells
  | .string literal => by
    rw [Expr.spellings, Expr.toNode]
    exact literal.spells
  | .bool value span => by
    rw [Expr.spellings, Expr.toNode]
    exact .leaf _ _ _ _
  | .list elements span => by
    rw [Expr.spellings, Expr.toNode]
    refine ((Expr.elements_spell elements).enclosed _ _).node .list _ ?_ span
    rw [Node.nodesOfParts, Node.nodesOfParts, List.append_nil]
  | .map entries span => by
    rw [Expr.spellings, Expr.toNode]
    exact ((Expr.entries_spell entries).enclosed _ _).node .map _ rfl span
  | .name n => by
    rw [Expr.spellings, Expr.toNode]
    exact n.spells

theorem Expr.elements_spell : ∀ elements : List Expr,
    Spells (Expr.elementSpellings elements) (Node.nodesOfAll (Expr.toNodes elements))
  | [] => by
    rw [Expr.toNodes, Node.nodesOfAll]
    exact .nil _
  | element :: elements => by
    rw [Expr.elementSpellings, Expr.toNodes, Node.nodesOfAll]
    exact ((Expr.spells element).left _).mul (Expr.elements_spell elements)

theorem Expr.entries_spell : ∀ entries : List (Expr × Expr),
    Spells (Expr.entrySpellings entries) (Node.nodesOfParts (Expr.toParts entries))
  | [] => by
    rw [Expr.toParts, Node.nodesOfParts]
    exact .nil _
  | (key, value) :: entries => by
    rw [Expr.entrySpellings, Expr.toParts, Node.nodesOfParts, Node.nodesOfParts,
      ← List.append_assoc]
    exact ((((Expr.spells key).left _).mul (Expr.spells value)).left _).mul
      (Expr.entries_spell entries)

end

/-! ### Fields, entries and arguments -/

/-- An optional part with nothing or something in front of it. -/
theorem Spelling.Spells.optional {α : Type} {spelling : α → Language Token} {toNode : α → Node}
    (h : ∀ item, Spells (spelling item) (toNode item).nodes) (item : Option α) (name : String) :
    Spells (item.elim 1 spelling) (Node.nodesOfParts [.optional name (item.map toNode)]) := by
  cases item with
  | none =>
    rw [Option.map_none, Part.optional, Node.nodesOfParts, Node.nodesOfParts]
    exact .nil _
  | some item =>
    rw [Option.map_some, Part.optional, Node.nodesOfParts, Node.nodesOfParts, List.append_nil]
    exact h item

theorem Node.nodesOfParts_append (parts parts' : List Part) :
    nodesOfParts (parts ++ parts') = nodesOfParts parts ++ nodesOfParts parts' := by
  induction parts with
  | nil => rw [nodesOfParts]; rfl
  | cons part parts ih =>
    cases part <;> simp only [List.cons_append, nodesOfParts, ih, List.append_assoc]

theorem EnumEntry.spells (entry : EnumEntry) : Spells entry.spellings entry.toNode.nodes := by
  have hvalue := Spells.optional (fun literal : IntegerLiteral =>
    literal.spells.right (mark .equals)) entry.value "value"
  refine (entry.name.spells.mul hvalue).node .enumEntry _ ?_ entry.span
  rw [Node.nodesOfParts]

theorem IntegerLiteral.order_spells (order : Option IntegerLiteral) :
    Spells (IntegerLiteral.orderSpellings order)
      (Node.nodesOfParts [.optional "order" (order.map (·.toNode))]) :=
  .optional (fun literal => literal.spells.left (mark .colon)) order "order"

theorem Field.spells (field : Field) : Spells field.spellings field.toNode.nodes := by
  have hdefault := Spells.optional (fun value : Expr => value.spells.right (mark .equals))
    field.default "default"
  refine ((((IntegerLiteral.order_spells field.order).left _).mul field.type.spells).mul
    field.name.spells |>.mul hdefault).node .field _ ?_ field.span
  rw [← List.singleton_append, Node.nodesOfParts_append]
  simp only [Node.nodesOfParts, List.append_assoc]

theorem Argument.spells (argument : Argument) :
    Spells argument.spellings argument.toNode.nodes := by
  refine (((IntegerLiteral.order_spells argument.order).mul argument.type.spells).mul
    argument.name.spells).node .argument _ ?_ argument.span
  rw [← List.singleton_append, Node.nodesOfParts_append]
  simp only [Node.nodesOfParts, List.append_assoc, List.append_nil]

theorem Argument.list_spells (arguments : List Argument) :
    Spells (Argument.listSpellings arguments)
      (Node.nodesOfAll (arguments.map Argument.toNode)) :=
  (Spells.items Argument.spells arguments).enclosed _ _

/-! ### Declarations -/

theorem Method.spells (method : Method) : Spells method.spellings method.toNode.nodes := by
  have hthrows : Spells ((if method.throws = [] then 1 else 0) +
      keyword .throws * Argument.listSpellings method.throws)
      (Node.nodesOfAll (method.throws.map Argument.toNode)) := by
    by_cases hnone : method.throws = []
    · rw [hnone, List.map_nil, Node.nodesOfAll]
      exact .nil _
    · rw [if_neg hnone, zero_add]
      exact (Argument.list_spells method.throws).right _
  refine ((((method.returns.spells.right _).mul method.name.spells).mul
    (Argument.list_spells method.arguments)).mul hthrows).node .method _ ?_ method.span
  simp only [Node.nodesOfParts, List.append_assoc, List.append_nil]

theorem Declaration.spells (declaration : Declaration) :
    Spells declaration.spellings declaration.toNode.nodes := by
  cases declaration with
  | constant decl =>
    refine ((((decl.type.spells.right _).mul decl.name.spells).left _).mul
      decl.value.spells).node .const _ ?_ decl.span
    simp only [Node.nodesOfParts, List.append_assoc, List.append_nil]
  | typedef decl =>
    refine ((decl.type.spells.right _).mul decl.name.spells).node .typedef _ ?_ decl.span
    simp only [Node.nodesOfParts, List.append_nil]
  | enum decl =>
    refine ((decl.name.spells.right _).mul
      ((Spells.items EnumEntry.spells decl.entries).enclosed _ _)).node .enum _ ?_ decl.span
    simp only [Node.nodesOfParts, List.append_nil]
  | struct decl =>
    refine ((decl.name.spells.right _).mul
      ((Spells.items Field.spells decl.fields).enclosed _ _)).node .struct _ ?_ decl.span
    simp only [Node.nodesOfParts, List.append_nil]
  | service decl =>
    have hparent := Spells.optional (fun parent : Name => parent.spells.right (keyword .extending))
      decl.parent "extends"
    refine (((decl.name.spells.right _).mul hparent).mul
      ((Spells.items Method.spells decl.methods).enclosed _ _)).node .service _ ?_ decl.span
    rw [Node.nodesOfParts, ← List.singleton_append, Node.nodesOfParts_append]
    simp only [Node.nodesOfParts, List.append_assoc, List.append_nil]

/-! ### Files -/

theorem NamespaceDirective.spells (directive : NamespaceDirective) :
    Spells directive.spellings directive.toNode.nodes :=
  .leaf _ _ _ _

theorem IncludeDirective.spells (directive : IncludeDirective) :
    Spells directive.spellings directive.toNode.nodes := by
  refine (directive.path.spells.right _).node .includeDirective _ ?_ directive.span
  rw [Node.nodesOfParts, Node.nodesOfParts, List.append_nil]

def Header.toNode : Header → Node
  | naming directive => directive.toNode
  | inclusion directive => directive.toNode

theorem Header.spells (header : Header) : Spells header.spellings header.toNode.nodes := by
  cases header with
  | naming directive => exact directive.spells
  | inclusion directive => exact directive.spells

/-- Only the document itself may have a span without tokens. -/
theorem Document.spells (document : Document) :
    Spells document.spellings document.toNode.inner := by
  have hheaders := (Spells.items Header.spells document.headers).left
    (items Declaration.spellings document.declarations)
  have hheader : ∀ header : Header, header ∈ document.headers →
      Spells document.spellings header.toNode.nodes := fun header hmem node hnode =>
    hheaders node (Node.subset_of_mem_nodesOfAll (List.mem_map_of_mem hmem) hnode)
  have hdirectives : ∀ list : List Header, list ⊆ document.headers →
      Spells document.spellings (Node.nodesOfAll (list.map Header.toNode)) := by
    intro list hsubset node hnode
    rw [Node.nodesOfAll_eq, List.flatMap_map, List.mem_flatMap] at hnode
    obtain ⟨header, hmem, hnode⟩ := hnode
    exact hheader header (hsubset hmem) node hnode
  have hnamespaces := hdirectives (document.namespaces.map .naming) fun header hmem =>
    List.mem_merge.2 (.inl hmem)
  have hincludes := hdirectives (document.includes.map .inclusion) fun header hmem =>
    List.mem_merge.2 (.inr hmem)
  rw [List.map_map] at hnamespaces hincludes
  have hdeclarations := (Spells.items Declaration.spells document.declarations).right
    (items Header.spellings document.headers)
  rw [toNode, Node.inner]
  simp only [Node.nodesOfParts, List.append_nil]
  exact hnamespaces.append (hincludes.append hdeclarations)

end Idl
