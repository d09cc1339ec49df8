import Idl.Syntax.Dump

/-!
# Arenas

The nodes of one file in the order in which they were made. Nodes do not hold one another: a node
refers to its parts by where they stand in the arena, and every reference says of which kind the
node is that it refers to.
-/
namespace Idl

/-- Where a node of the given kind stands. -/
structure NodeId (label : NodeLabel) where
  index : Nat
deriving DecidableEq, Hashable, Repr

/-- The kind of a node and where it stands. -/
structure Reference where
  label : NodeLabel
  index : Nat
deriving DecidableEq, Repr

def NodeId.reference {label : NodeLabel} (id : NodeId label) : Reference :=
  ⟨label, id.index⟩

inductive TypeId where
  | builtin (id : NodeId .builtinType)
  | list (id : NodeId .listType)
  | map (id : NodeId .mapType)
  | name (id : NodeId .name)
deriving DecidableEq, Repr

def TypeId.reference : TypeId → Reference
  | builtin id => id.reference
  | list id => id.reference
  | map id => id.reference
  | name id => id.reference

inductive ExprId where
  | integer (id : NodeId .integerLiteral)
  | string (id : NodeId .stringLiteral)
  | bool (id : NodeId .boolLiteral)
  | list (id : NodeId .list)
  | map (id : NodeId .map)
  | name (id : NodeId .name)
deriving DecidableEq, Repr

def ExprId.reference : ExprId → Reference
  | integer id => id.reference
  | string id => id.reference
  | bool id => id.reference
  | list id => id.reference
  | map id => id.reference
  | name id => id.reference

inductive DeclarationId where
  | constant (id : NodeId .const)
  | typedef (id : NodeId .typedef)
  | enum (id : NodeId .enum)
  | struct (id : NodeId .struct)
  | service (id : NodeId .service)
deriving DecidableEq, Repr

def DeclarationId.reference : DeclarationId → Reference
  | constant id => id.reference
  | typedef id => id.reference
  | enum id => id.reference
  | struct id => id.reference
  | service id => id.reference

/-- What a node of an arena says, with references to its parts. -/
inductive NodeData where
  | identifier (text : String)
  | integerLiteral (value : Int)
  | stringLiteral (text : String)
  | boolLiteral (value : Bool)
  | name (path : List (NodeId .identifier))
  | builtinType (type : Builtin)
  | listType (element : TypeId)
  | mapType (key value : TypeId)
  | list (elements : List ExprId)
  | map (entries : List (ExprId × ExprId))
  | namespaceDirective (scope name : String)
  | includeDirective (path : NodeId .stringLiteral)
  | enum (name : NodeId .identifier) (entries : List (NodeId .enumEntry))
  | enumEntry (name : NodeId .identifier) (value : Option (NodeId .integerLiteral))
  | struct (kind : StructKind) (name : NodeId .identifier) (fields : List (NodeId .field))
  | field (order : Option (NodeId .integerLiteral)) (requiredness : Option Requiredness)
      (type : TypeId) (name : NodeId .identifier) (default : Option ExprId)
  | typedef (type : TypeId) (name : NodeId .identifier)
  | const (type : TypeId) (name : NodeId .identifier) (value : ExprId)
  | service (name : NodeId .identifier) (parent : Option (NodeId .name))
      (methods : List (NodeId .method))
  | method (oneway : Bool) (returns : TypeId) (name : NodeId .identifier)
      (arguments throws : List (NodeId .argument))
  | argument (order : Option (NodeId .integerLiteral)) (type : TypeId)
      (name : NodeId .identifier)
  | document (namespaces : List (NodeId .namespaceDirective))
      (includes : List (NodeId .includeDirective)) (declarations : List DeclarationId)
deriving Repr

/-- A named part of a node in an arena. It is a part of a tree with references in place of
nodes. -/
inductive Slot where
  | word (name text : String)
  | one (name : String) (reference : Reference)
  | absent (name : String)
  | many (name : String) (references : List Reference)

namespace Slot

def optional (name : String) : Option Reference → Slot
  | some reference => one name reference
  | none => absent name

def references : Slot → List Reference
  | word _ _ => []
  | one _ reference => [reference]
  | absent _ => []
  | many _ references => references

/-- The part with every reference replaced by the node that it is read as. -/
def read? (read : Reference → Option Node) : Slot → Option Part
  | word name text => some (.word name text)
  | one name reference => (read reference).map (.one name)
  | absent name => some (.absent name)
  | many name references => (references.mapM read).map (.many name)

end Slot

/-- A node of an arena is a leaf with a text, or has parts. -/
inductive NodeShape where
  | leaf (text : String)
  | branch (slots : List Slot)

def NodeShape.references : NodeShape → List Reference
  | leaf _ => []
  | branch slots => slots.flatMap Slot.references

namespace NodeData

def label : NodeData → NodeLabel
  | identifier _ => .identifier
  | integerLiteral _ => .integerLiteral
  | stringLiteral _ => .stringLiteral
  | boolLiteral _ => .boolLiteral
  | name _ => .name
  | builtinType _ => .builtinType
  | listType _ => .listType
  | mapType _ _ => .mapType
  | list _ => .list
  | map _ => .map
  | namespaceDirective _ _ => .namespaceDirective
  | includeDirective _ => .includeDirective
  | enum _ _ => .enum
  | enumEntry _ _ => .enumEntry
  | struct _ _ _ => .struct
  | field _ _ _ _ _ => .field
  | typedef _ _ => .typedef
  | const _ _ _ => .const
  | service _ _ _ => .service
  | method _ _ _ _ _ => .method
  | argument _ _ _ => .argument
  | document _ _ _ => .document

/-- What a dump shows of a node. -/
def shape : NodeData → NodeShape
  | identifier text => .leaf text
  | integerLiteral value => .leaf (toString value)
  | stringLiteral text => .leaf ("\"" ++ text ++ "\"")
  | boolLiteral value => .leaf (if value then "true" else "false")
  | name path => .branch [.many "path" (path.map (·.reference))]
  | builtinType type => .leaf type.text
  | listType element => .branch [.one "element" element.reference]
  | mapType key value => .branch [.one "key" key.reference, .one "value" value.reference]
  | list elements => .branch [.many "elements" (elements.map (·.reference))]
  | map entries =>
    .branch (entries.flatMap fun (key, value) =>
      [.one "key" key.reference, .one "value" value.reference])
  | namespaceDirective scope package => .leaf (scope ++ " " ++ package)
  | includeDirective path => .branch [.one "path" path.reference]
  | enum title entries =>
    .branch [.one "name" title.reference, .many "entries" (entries.map (·.reference))]
  | enumEntry title value =>
    .branch [.one "name" title.reference, .optional "value" (value.map (·.reference))]
  | struct kind title fields =>
    .branch [.word "kind" kind.text, .one "name" title.reference,
      .many "fields" (fields.map (·.reference))]
  | field order requiredness type title default =>
    .branch [.optional "order" (order.map (·.reference)),
      .word "requiredness" ((requiredness.map Requiredness.text).getD "<none>"),
      .one "type" type.reference, .one "name" title.reference,
      .optional "default" (default.map (·.reference))]
  | typedef type title => .branch [.one "type" type.reference, .one "name" title.reference]
  | const type title value =>
    .branch [.one "type" type.reference, .one "name" title.reference,
      .one "value" value.reference]
  | service title parent methods =>
    .branch [.one "name" title.reference, .optional "extends" (parent.map (·.reference)),
      .many "methods" (methods.map (·.reference))]
  | method oneway returns title arguments throws =>
    .branch [.word "oneway" (if oneway then "true" else "false"),
      .one "returns" returns.reference, .one "name" title.reference,
      .many "arguments" (arguments.map (·.reference)),
      .many "throws" (throws.map (·.reference))]
  | argument order type title =>
    .branch [.optional "order" (order.map (·.reference)), .one "type" type.reference,
      .one "name" title.reference]
  | document namespaces includes declarations =>
    .branch [.many "namespaces" (namespaces.map (·.reference)),
      .many "includes" (includes.map (·.reference)),
      .many "declarations" (declarations.map (·.reference))]

def references (data : NodeData) : List Reference :=
  data.shape.references

end NodeData

structure StoredNode where
  span : Span
  data : NodeData
deriving Repr

abbrev Arena := Array StoredNode

namespace Arena

/-- Puts a node behind all others. -/
def add (arena : Arena) (span : Span) (data : NodeData) : NodeId data.label × Arena :=
  (⟨arena.size⟩, arena.push ⟨span, data⟩)

/-- The node that is referred to. There is none past the end of the arena or if the node is of
another kind. -/
def find? (arena : Arena) (reference : Reference) : Option StoredNode :=
  arena[reference.index]?.filter (·.data.label = reference.label)

/-- The tree below and including a node, as far as the fuel allows. A node that refers to earlier
nodes only never needs more than there are nodes up to it. -/
def view? (arena : Arena) : Nat → Nat → Option Node
  | 0, _ => none
  | fuel + 1, index => do
    let node ← arena[index]?
    match node.data.shape with
    | .leaf text => return .leaf node.data.label node.span text
    | .branch slots =>
      return .branch node.data.label node.span
        (← slots.mapM (Slot.read? fun reference => view? arena fuel reference.index))

/-- The lines of a node and those below it. -/
def dump? (source : Source) (arena : Arena) (index : Nat) : Option String :=
  (arena.view? arena.size index).map (Node.dump source 0)

end Arena
end Idl
