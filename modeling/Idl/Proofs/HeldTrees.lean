import Idl.Proofs.GrowingArenas

/-!
# Held trees

Storing a construct puts exactly its nodes into the arena. There is one lemma for each construct:
its parts are stored one behind the other, and its own node takes them over.
-/
namespace Idl
open Arena (Holds HoldsParts)

namespace Storing

variable {α β : Type} {store : α → Storing β} {reference : β → Reference} {toNode : α → Node}

/-- Storing an item puts its nodes into the arena and hands back a reference to its own one. -/
def Stores (store : α → Storing β) (reference : β → Reference) (toNode : α → Node) : Prop :=
  ∀ item arena, Holds arena (store item arena).2 [reference (store item arena).1] [toNode item]

theorem Stores.all (h : Stores store reference toNode) (items : List α) (arena : Arena) :
    Holds arena (all store items arena).2 ((all store items arena).1.map reference)
      (items.map toNode) := by
  induction items generalizing arena with
  | nil => exact .nil arena
  | cons item items ih => exact (h item arena).append (ih (store item arena).2)

theorem Stores.optional (h : Stores store reference toNode) (item : Option α) (arena : Arena) :
    Holds arena (optional store item arena).2
      ((optional store item arena).1.map reference).toList (item.map toNode).toList := by
  cases item with
  | none => exact .nil arena
  | some item => exact h item arena

end Storing

open Storing (Stores)

theorem Identifier.stores : Stores store NodeId.reference toNode :=
  fun _ arena => .leaf arena rfl

theorem IntegerLiteral.stores : Stores store NodeId.reference toNode :=
  fun _ arena => .leaf arena rfl

theorem StringLiteral.stores : Stores store NodeId.reference toNode :=
  fun _ arena => .leaf arena rfl

theorem Name.stores : Stores store NodeId.reference toNode :=
  fun name arena =>
    (HoldsParts.many _ (Identifier.stores.all name.path arena) (.nil _)).branch rfl

theorem TypeRef.stores : Stores store TypeId.reference toNode := by
  intro type
  induction type with
  | builtin type span => exact fun arena => .leaf arena rfl
  | list element span ih => exact fun arena => (HoldsParts.one _ (ih arena) (.nil _)).branch rfl
  | map key value span ihKey ihValue =>
    exact fun arena => (HoldsParts.one _ (ihKey arena) (.one _ (ihValue _) (.nil _))).branch rfl
  | name n => exact n.stores

mutual

theorem Expr.stores : ∀ expr arena,
    Holds arena (Expr.store expr arena).2 [(Expr.store expr arena).1.reference] [expr.toNode]
  | .integer literal, arena => literal.stores arena
  | .string literal, arena => literal.stores arena
  | .bool _ _, arena => .leaf arena rfl
  | .list elements _, arena =>
    (HoldsParts.many _ (Expr.holds_storeAll elements arena) (.nil _)).branch rfl
  | .map entries _, arena => (Expr.holdsParts_storeEntries entries arena).branch rfl
  | .name n, arena => n.stores arena

theorem Expr.holds_storeAll : ∀ elements arena,
    Holds arena (Expr.storeAll elements arena).2
      ((Expr.storeAll elements arena).1.map ExprId.reference) (Expr.toNodes elements)
  | [], arena => .nil arena
  | e :: es, arena => (Expr.stores e arena).append (Expr.holds_storeAll es _)

theorem Expr.holdsParts_storeEntries : ∀ entries arena,
    HoldsParts arena (Expr.storeEntries entries arena).2
      ((Expr.storeEntries entries arena).1.flatMap fun (key, value) =>
        [.one "key" key.reference, .one "value" value.reference]) (Expr.toParts entries)
  | [], arena => .nil arena
  | (key, value) :: entries, arena =>
    .one _ (Expr.stores key arena)
      (.one _ (Expr.stores value _) (Expr.holdsParts_storeEntries entries _))

end

theorem NamespaceDirective.stores : Stores store NodeId.reference toNode :=
  fun _ arena => .leaf arena rfl

theorem IncludeDirective.stores : Stores store NodeId.reference toNode :=
  fun directive arena => (HoldsParts.one _ (directive.path.stores arena) (.nil _)).branch rfl

theorem EnumEntry.stores : Stores store NodeId.reference toNode :=
  fun entry arena =>
    (HoldsParts.one _ (entry.name.stores arena)
      (.optional _ (IntegerLiteral.stores.optional entry.value _) (.nil _))).branch rfl

theorem Field.stores : Stores store NodeId.reference toNode :=
  fun field arena =>
    (HoldsParts.optional _ (IntegerLiteral.stores.optional field.order arena)
      (.word _ _ (.one _ (field.type.stores _) (.one _ (field.name.stores _)
        (.optional _ (Storing.Stores.optional Expr.stores field.default _) (.nil _)))))).branch rfl

theorem Argument.stores : Stores store NodeId.reference toNode :=
  fun argument arena =>
    (HoldsParts.optional _ (IntegerLiteral.stores.optional argument.order arena)
      (.one _ (argument.type.stores _) (.one _ (argument.name.stores _) (.nil _)))).branch rfl

theorem Method.stores : Stores store NodeId.reference toNode :=
  fun method arena =>
    (HoldsParts.word _ _ (.one _ (method.returns.stores arena) (.one _ (method.name.stores _)
      (.many _ (Argument.stores.all method.arguments _)
        (.many _ (Argument.stores.all method.throws _) (.nil _)))))).branch rfl

theorem Declaration.stores : Stores store DeclarationId.reference toNode
  | .constant d, arena =>
    (HoldsParts.one _ (d.type.stores arena) (.one _ (d.name.stores _)
      (.one _ (d.value.stores _) (.nil _)))).branch rfl
  | .typedef d, arena =>
    (HoldsParts.one _ (d.type.stores arena) (.one _ (d.name.stores _) (.nil _))).branch rfl
  | .enum d, arena =>
    (HoldsParts.one _ (d.name.stores arena)
      (.many _ (EnumEntry.stores.all d.entries _) (.nil _))).branch rfl
  | .struct d, arena =>
    (HoldsParts.word _ _ (.one _ (d.name.stores arena)
      (.many _ (Field.stores.all d.fields _) (.nil _)))).branch rfl
  | .service d, arena =>
    (HoldsParts.one _ (d.name.stores arena) (.optional _ (Name.stores.optional d.parent _)
      (.many _ (Method.stores.all d.methods _) (.nil _)))).branch rfl

/-- The directives are stored in the order in which they are written, and then dealt out to the
two parts of the document that they belong to. -/
theorem holdsParts_storeHeaders (headers : List Header) (arena : Arena) :
    HoldsParts arena (storeHeaders headers arena).2
      [.many "namespaces" ((storeHeaders headers arena).1.1.map NodeId.reference),
        .many "includes" ((storeHeaders headers arena).1.2.map NodeId.reference)]
      [.many "namespaces" ((Parser.partitionHeaders headers).1.map NamespaceDirective.toNode),
        .many "includes" ((Parser.partitionHeaders headers).2.map IncludeDirective.toNode)] := by
  induction headers generalizing arena with
  | nil => exact .many _ (.nil _) (.many _ (.nil _) (.nil _))
  | cons header headers ih =>
    cases header with
    | naming directive => exact (ih _).insert (directive.stores arena)
    | inclusion directive => exact ((ih _).swap.insert (directive.stores arena)).swap

theorem OrderedDocument.stores :
    Stores store NodeId.reference fun ordered => ordered.document.toNode :=
  fun ordered arena =>
    ((holdsParts_storeHeaders ordered.headers arena).append
      (.many _ (Declaration.stores.all ordered.declarations _) (.nil _))).branch rfl

end Idl
