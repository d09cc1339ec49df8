import Idl.Proofs.Located
import Idl.Proofs.TokenStream

/-!
# Derivations of nodes

A node of a tree is derived from a run of tokens: they spell the construct that the node stands
for, its span goes from the first of them to the last, and the nodes right below it are derived
from runs within, one behind the other.
-/
namespace Idl
open Spelling

/-- The nodes that a part holds. -/
def Part.nodes : Part → List Node
  | word _ _ => []
  | one _ node => [node]
  | absent _ => []
  | many _ nodes => nodes

@[simp] theorem Part.nodes_word (name text : String) : (word name text).nodes = [] := rfl

@[simp] theorem Part.nodes_one (name : String) (node : Node) : (one name node).nodes = [node] := rfl

@[simp] theorem Part.nodes_many (name : String) (list : List Node) :
    (many name list).nodes = list := rfl

@[simp] theorem Part.nodes_optional (name : String) (node : Option Node) :
    (Part.optional name node).nodes = node.toList := by
  cases node <;> rfl

namespace Node

/-- The nodes right below a node, in the order of its parts. -/
def children : Node → List Node
  | leaf _ _ _ => []
  | branch _ _ parts => parts.flatMap Part.nodes

theorem nodesOfParts_eq (parts : List Part) :
    nodesOfParts parts = (parts.flatMap Part.nodes).flatMap nodes := by
  induction parts with
  | nil => rw [nodesOfParts]; rfl
  | cons part parts ih =>
    cases part <;> simp [nodesOfParts, Part.nodes, ih, nodesOfAll_eq]

/-- The nodes below a node are its children and the nodes below those. -/
theorem inner_eq (node : Node) : node.inner = node.children.flatMap nodes := by
  cases node with
  | leaf => rfl
  | branch label span parts => exact nodesOfParts_eq parts

/-- The token sequences that a node may be derived from: those that spell what it stands for. -/
inductive Spelled : Node → Language Token → Prop
  | identifier (identifier : Identifier) : Spelled identifier.toNode identifier.spellings
  | integer (literal : IntegerLiteral) : Spelled literal.toNode literal.spellings
  | string (literal : StringLiteral) : Spelled literal.toNode literal.spellings
  | name (name : Name) : Spelled name.toNode name.spellings
  | type (type : TypeRef) : Spelled type.toNode type.spellings
  | expr (expr : Expr) : Spelled expr.toNode expr.spellings
  | enumEntry (entry : EnumEntry) : Spelled entry.toNode entry.spellings
  | field (field : Field) : Spelled field.toNode field.spellings
  | argument (argument : Argument) : Spelled argument.toNode argument.spellings
  | method (method : Method) : Spelled method.toNode method.spellings
  | declaration (declaration : Declaration) : Spelled declaration.toNode declaration.spellings
  | header (header : Header) : Spelled header.toNode header.spellings

mutual

/-- The node is derived from these tokens. -/
inductive Derived : Node → List Token → Prop
  | intro {node language tokens} (rule : node.Spelled language) (spelled : tokens ∈ language)
      (below : DerivedIn node.children tokens) : Derived node tokens

/-- The nodes are derived from runs of these tokens that lie one behind the other. -/
inductive DerivedIn : List Node → List Token → Prop
  | nil {tokens} : DerivedIn [] tokens
  | cons {node nodes before run after} (head : Derived node run) (tail : DerivedIn nodes after) :
      DerivedIn (node :: nodes) (before ++ (run ++ after))

end

/-- What a node may be derived from begins and ends where its span does. -/
theorem Spelled.exists_spanning {node : Node} {language : Language Token}
    (h : node.Spelled language) : ∃ part, language = spanning node.span part := by
  cases h with
  | type type => cases type <;> exact ⟨_, rfl⟩
  | expr expr => cases expr <;> exact ⟨_, rfl⟩
  | declaration declaration => cases declaration <;> exact ⟨_, rfl⟩
  | header header => cases header <;> exact ⟨_, rfl⟩
  | _ => exact ⟨_, rfl⟩

namespace DerivedIn

variable {list list' : List Node} {tokens tokens' : List Token}

theorem prepend (h : DerivedIn list tokens) (before : List Token) :
    DerivedIn list (before ++ tokens) := by
  cases h with
  | nil => exact .nil
  | cons head tail =>
    rw [← List.append_assoc]
    exact .cons head tail

theorem append (h : DerivedIn list tokens) (h' : DerivedIn list' tokens') :
    DerivedIn (list ++ list') (tokens ++ tokens') := by
  induction list generalizing tokens with
  | nil => exact h'.prepend tokens
  | cons node list ih =>
    cases h with
    | cons head tail =>
      rw [List.append_assoc, List.append_assoc]
      exact .cons head (ih tail)

theorem singleton {node : Node} (h : Derived node tokens) : DerivedIn [node] tokens := by
  have hrun := @DerivedIn.cons node [] [] tokens [] h .nil
  rwa [List.append_nil] at hrun

end DerivedIn

end Node

/-- In every sequence of the language the nodes are derived from runs one behind the other. -/
def Spelling.Derives (language : Language Token) (nodes : List Node) : Prop :=
  ∀ tokens ∈ language, Node.DerivedIn nodes tokens

namespace Spelling.Derives

variable {language language' : Language Token} {list list' : List Node}

theorem nil (language : Language Token) : Derives language [] :=
  fun _ _ => .nil

theorem mul (h : Derives language list) (h' : Derives language' list') :
    Derives (language * language') (list ++ list') := by
  rintro _ ⟨first, hfirst, second, hsecond, rfl⟩
  exact (h first hfirst).append (h' second hsecond)

theorem left (h : Derives language list) (other : Language Token) :
    Derives (language * other) list :=
  List.append_nil list ▸ h.mul (nil other)

theorem right (h : Derives language list) (other : Language Token) :
    Derives (other * language) list :=
  (nil other).mul h

theorem add (h : Derives language list) (h' : Derives language' list) :
    Derives (language + language') list := by
  rintro tokens (htokens | htokens)
  · exact h tokens htokens
  · exact h' tokens htokens

/-- A node is derived from what spells it if its children are. -/
theorem node {node : Node} {span : Span} (h : Derives language list)
    (rule : node.Spelled (spanning span language)) (hlist : node.children = list) :
    Derives (spanning span language) [node] :=
  fun tokens htokens => .singleton (.intro rule htokens (hlist ▸ h tokens htokens.1))

theorem items {α : Type} {spelling : α → Language Token} {toNode : α → Node}
    (h : ∀ item, Derives (spelling item) [toNode item]) (list : List α) :
    Derives (Spelling.items spelling list) (list.map toNode) := by
  induction list with
  | nil => exact nil _
  | cons item list ih =>
    rw [Spelling.items, List.map_cons, List.prod_cons]
    exact ((h item).left separator).mul ih

theorem enclosed (h : Derives language list) (opening closing : Mark) :
    Derives (Spelling.enclosed opening language closing) list :=
  (h.right _).left _

theorem optional {α : Type} {spelling : α → Language Token} {toNode : α → Node}
    (h : ∀ item, Derives (spelling item) [toNode item]) (item : Option α) :
    Derives (item.elim 1 spelling) (item.map toNode).toList := by
  cases item with
  | none => exact nil _
  | some item => exact h item

end Spelling.Derives

/-! ### Names, types and expressions -/

theorem Identifier.derives (identifier : Identifier) :
    Derives identifier.spellings [identifier.toNode] :=
  (Derives.nil _).node (.identifier identifier) rfl

theorem IntegerLiteral.derives (literal : IntegerLiteral) :
    Derives literal.spellings [literal.toNode] :=
  (Derives.nil _).node (.integer literal) rfl

theorem StringLiteral.derives (literal : StringLiteral) :
    Derives literal.spellings [literal.toNode] :=
  (Derives.nil _).node (.string literal) rfl

theorem Name.derives (name : Name) : Derives name.spellings [name.toNode] := by
  have hrest : ∀ rest : List Identifier,
      Derives (rest.map fun next => mark .dot * next.spellings).prod
        (rest.map Identifier.toNode) := by
    intro rest
    induction rest with
    | nil => exact .nil _
    | cons next rest ih =>
      rw [List.map_cons, List.prod_cons]
      exact (next.derives.right _).mul ih
  exact (name.head.derives.mul (hrest name.tail)).node (.name name)
    (by simp [toNode, Node.children, path])

theorem TypeRef.derives (type : TypeRef) : Derives type.spellings [type.toNode] := by
  induction type with
  | builtin type span => exact (Derives.nil _).node (.type (.builtin type span)) rfl
  | list element span ih =>
    exact ((ih.right _).left _).node (.type (.list element span)) rfl
  | map key value span ihKey ihValue =>
    exact ((((ihKey.right _).left _).mul ihValue).left _).node (.type (.map key value span)) rfl
  | name n => exact n.derives

mutual

theorem Expr.derives : ∀ expr : Expr, Derives expr.spellings [expr.toNode]
  | .integer literal => by
    rw [Expr.spellings, Expr.toNode]
    exact literal.derives
  | .string literal => by
    rw [Expr.spellings, Expr.toNode]
    exact literal.derives
  | .bool value span => by
    have hrule := Node.Spelled.expr (.bool value span)
    rw [Expr.spellings] at hrule ⊢
    exact (Derives.nil _).node hrule (by rw [Expr.toNode]; rfl)
  | .list elements span => by
    have hrule := Node.Spelled.expr (.list elements span)
    rw [Expr.spellings] at hrule ⊢
    refine ((Expr.derives_elements elements).enclosed _ _).node hrule ?_
    simp [Expr.toNode, Node.children]
  | .map entries span => by
    have hrule := Node.Spelled.expr (.map entries span)
    rw [Expr.spellings] at hrule ⊢
    exact ((Expr.derives_entries entries).enclosed _ _).node hrule (by rw [Expr.toNode]; rfl)
  | .name n => by
    rw [Expr.spellings, Expr.toNode]
    exact n.derives

theorem Expr.derives_elements : ∀ elements : List Expr,
    Derives (Expr.elementSpellings elements) (Expr.toNodes elements)
  | [] => by
    rw [Expr.toNodes]
    exact .nil _
  | element :: elements => by
    rw [Expr.elementSpellings, Expr.toNodes]
    exact ((Expr.derives element).left _).mul (Expr.derives_elements elements)

theorem Expr.derives_entries : ∀ entries : List (Expr × Expr),
    Derives (Expr.entrySpellings entries) ((Expr.toParts entries).flatMap Part.nodes)
  | [] => by
    rw [Expr.toParts]
    exact .nil _
  | (key, value) :: entries => by
    rw [Expr.entrySpellings, Expr.toParts]
    exact ((((Expr.derives key).left _).mul (Expr.derives value)).left _).mul
      (Expr.derives_entries entries)

end

/-! ### Fields, entries and arguments -/

theorem EnumEntry.derives (entry : EnumEntry) : Derives entry.spellings [entry.toNode] := by
  have hvalue := Derives.optional (fun literal : IntegerLiteral =>
    literal.derives.right (mark .equals)) entry.value
  exact (entry.name.derives.mul hvalue).node (.enumEntry entry)
    (by simp [toNode, Node.children])

theorem IntegerLiteral.order_derives (order : Option IntegerLiteral) :
    Derives (IntegerLiteral.orderSpellings order) (order.map (·.toNode)).toList :=
  .optional (fun literal => literal.derives.left (mark .colon)) order

theorem Field.derives (field : Field) : Derives field.spellings [field.toNode] := by
  have hdefault := Derives.optional (fun value : Expr => value.derives.right (mark .equals))
    field.default
  exact ((((IntegerLiteral.order_derives field.order).left _).mul field.type.derives).mul
    field.name.derives |>.mul hdefault).node (.field field)
    (by simp [toNode, Node.children])

theorem Argument.derives (argument : Argument) :
    Derives argument.spellings [argument.toNode] :=
  (((IntegerLiteral.order_derives argument.order).mul argument.type.derives).mul
    argument.name.derives).node (.argument argument)
    (by simp [toNode, Node.children])

theorem Argument.list_derives (arguments : List Argument) :
    Derives (Argument.listSpellings arguments) (arguments.map Argument.toNode) :=
  (Derives.items Argument.derives arguments).enclosed _ _

/-! ### Declarations -/

theorem Method.derives (method : Method) : Derives method.spellings [method.toNode] := by
  have hthrows : Derives ((if method.throws = [] then 1 else 0) +
      keyword .throws * Argument.listSpellings method.throws)
      (method.throws.map Argument.toNode) := by
    refine Derives.add ?_ ((Argument.list_derives method.throws).right _)
    split
    · next hnone =>
      rw [hnone]
      exact .nil _
    · exact fun _ htokens => htokens.elim
  exact ((((method.returns.derives.right _).mul method.name.derives).mul
    (Argument.list_derives method.arguments)).mul hthrows).node (.method method)
    (by simp [toNode, Node.children])

theorem Declaration.derives (declaration : Declaration) :
    Derives declaration.spellings [declaration.toNode] := by
  cases declaration with
  | constant decl =>
    exact ((((decl.type.derives.right _).mul decl.name.derives).left _).mul
      decl.value.derives).node (.declaration (.constant decl)) rfl
  | typedef decl =>
    exact ((decl.type.derives.right _).mul decl.name.derives).node
      (.declaration (.typedef decl)) rfl
  | enum decl =>
    exact ((decl.name.derives.right _).mul
      ((Derives.items EnumEntry.derives decl.entries).enclosed _ _)).node
      (.declaration (.enum decl)) (by simp [toNode, Node.children])
  | struct decl =>
    exact ((decl.name.derives.right _).mul
      ((Derives.items Field.derives decl.fields).enclosed _ _)).node
      (.declaration (.struct decl)) (by simp [toNode, Node.children])
  | service decl =>
    have hparent := Derives.optional
      (fun parent : Name => parent.derives.right (keyword .extending)) decl.parent
    exact (((decl.name.derives.right _).mul hparent).mul
      ((Derives.items Method.derives decl.methods).enclosed _ _)).node
      (.declaration (.service decl))
      (by simp [toNode, Node.children])

/-! ### Files -/

theorem Header.derives (header : Header) : Derives header.spellings [header.toNode] := by
  cases header with
  | naming directive => exact (Derives.nil _).node (.header (.naming directive)) rfl
  | inclusion directive =>
    exact (directive.path.derives.right _).node (.header (.inclusion directive)) rfl

/-- The children of a document in the order in which they are written: the headers, of both sorts
mixed, before the declarations. -/
def Document.sequence (document : Document) : List Node :=
  document.headers.map Header.toNode ++ document.declarations.map Declaration.toNode

theorem Document.sequence_perm (document : Document) :
    document.sequence.Perm document.toNode.children := by
  have hmerge : document.headers.Perm _ := List.merge_perm_append _
  have hheaders := hmerge.map Header.toNode
  rw [List.map_append, List.map_map, List.map_map] at hheaders
  have hchildren : document.toNode.children =
      (document.namespaces.map NamespaceDirective.toNode ++
        document.includes.map IncludeDirective.toNode) ++
        document.declarations.map Declaration.toNode := by
    simp [toNode, Node.children]
  rw [hchildren, sequence]
  exact hheaders.append_right _

theorem Document.derives (document : Document) :
    Derives document.spellings document.sequence :=
  (Derives.items Header.derives document.headers).mul
    (Derives.items Declaration.derives document.declarations)

end Idl
