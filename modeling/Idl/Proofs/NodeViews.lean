import Idl.Proofs.OffsetLexer
import Idl.Syntax.Node

/-!
# What nodes stand for

A construct is found again in its node: the label says which construct it is, and the parts say
what it consists of.
-/
namespace Idl

theorem Part.optional_injective (name : String) : Function.Injective (Part.optional name) := by
  intro node node' h
  cases node <;> cases node' <;> simp_all [optional]

/-- A part that may have been left out is found again if it is found again where it is there. -/
theorem Part.optional_map_inj {α : Type} {toNode : α → Node} (h : Function.Injective toNode)
    {name : String} {item item' : Option α} :
    Part.optional name (item.map toNode) = Part.optional name (item'.map toNode) ↔
      item = item' :=
  ((optional_injective name).comp (Option.map_injective h)).eq_iff

/-! ### Names, types and expressions -/

theorem Identifier.toNode_injective : Function.Injective toNode := by
  rintro ⟨text, span⟩ ⟨text', span'⟩ h
  simp_all [toNode]

@[simp] theorem Identifier.toNode_inj {identifier identifier' : Identifier} :
    identifier.toNode = identifier'.toNode ↔ identifier = identifier' :=
  toNode_injective.eq_iff

theorem IntegerLiteral.toNode_injective : Function.Injective toNode := by
  rintro ⟨value, span⟩ ⟨value', span'⟩ h
  simp only [toNode, Node.leaf.injEq, true_and] at h
  obtain ⟨rfl, hvalue⟩ := h
  rw [← Reading.literalValue_toString value, hvalue, Reading.literalValue_toString]

theorem StringLiteral.toNode_injective : Function.Injective toNode := by
  rintro ⟨text, span⟩ ⟨text', span'⟩ h
  simp_all [toNode]

theorem Name.toNode_injective : Function.Injective toNode := by
  rintro ⟨head, tail, span⟩ ⟨head', tail', span'⟩ h
  have htail := @List.map_inj_right _ _ tail tail' _ Identifier.toNode_injective
  simp_all [toNode, path]

theorem Builtin.text_injective : Function.Injective text := by
  intro type type' h
  cases type <;> cases type' <;> first | rfl | exact absurd h (by decide)

theorem TypeRef.toNode_injective : Function.Injective toNode := by
  intro type type' h
  induction type generalizing type' with
  | builtin type span =>
    cases type' with
    | builtin type' span' =>
      simp only [toNode, Node.leaf.injEq, true_and] at h
      rw [h.1, Builtin.text_injective h.2]
    | _ => simp [toNode, Name.toNode] at h
  | list element span ih =>
    cases type' with
    | list element' span' =>
      simp only [toNode, Node.branch.injEq, List.cons.injEq, Part.one.injEq, true_and,
        and_true] at h
      rw [h.1, ih h.2]
    | _ => simp [toNode, Name.toNode] at h
  | map key value span ihKey ihValue =>
    cases type' with
    | map key' value' span' =>
      simp only [toNode, Node.branch.injEq, List.cons.injEq, Part.one.injEq, true_and,
        and_true] at h
      rw [h.1, ihKey h.2.1, ihValue h.2.2]
    | _ => simp [toNode, Name.toNode] at h
  | name n =>
    cases type' with
    | name n' => rw [Name.toNode_injective h]
    | _ => simp [toNode, Name.toNode] at h

@[simp] theorem TypeRef.toNode_inj {type type' : TypeRef} :
    type.toNode = type'.toNode ↔ type = type' :=
  toNode_injective.eq_iff

mutual

theorem Expr.eq_of_toNode_eq : ∀ {expr expr' : Expr}, expr.toNode = expr'.toNode → expr = expr'
  | .integer literal, expr', h => by
    cases expr' with
    | integer literal' =>
      rw [Expr.toNode, Expr.toNode] at h
      rw [IntegerLiteral.toNode_injective h]
    | _ => simp [Expr.toNode, IntegerLiteral.toNode, StringLiteral.toNode, Name.toNode] at h
  | .string literal, expr', h => by
    cases expr' with
    | string literal' =>
      rw [Expr.toNode, Expr.toNode] at h
      rw [StringLiteral.toNode_injective h]
    | _ => simp [Expr.toNode, IntegerLiteral.toNode, StringLiteral.toNode, Name.toNode] at h
  | .bool value span, expr', h => by
    cases expr' with
    | bool value' span' =>
      cases value <;> cases value' <;> simp_all [Expr.toNode]
    | _ => simp [Expr.toNode, IntegerLiteral.toNode, StringLiteral.toNode, Name.toNode] at h
  | .list elements span, expr', h => by
    cases expr' with
    | list elements' span' =>
      simp only [Expr.toNode, Node.branch.injEq, List.cons.injEq, Part.many.injEq, true_and,
        and_true] at h
      rw [h.1, Expr.eq_of_toNodes_eq h.2]
    | _ => simp [Expr.toNode, IntegerLiteral.toNode, StringLiteral.toNode, Name.toNode] at h
  | .map entries span, expr', h => by
    cases expr' with
    | map entries' span' =>
      simp only [Expr.toNode, Node.branch.injEq, true_and] at h
      rw [h.1, Expr.eq_of_toParts_eq h.2]
    | _ => simp [Expr.toNode, IntegerLiteral.toNode, StringLiteral.toNode, Name.toNode] at h
  | .name n, expr', h => by
    cases expr' with
    | name n' =>
      rw [Expr.toNode, Expr.toNode] at h
      rw [Name.toNode_injective h]
    | _ => simp [Expr.toNode, IntegerLiteral.toNode, StringLiteral.toNode, Name.toNode] at h

theorem Expr.eq_of_toNodes_eq : ∀ {elements elements' : List Expr},
    Expr.toNodes elements = Expr.toNodes elements' → elements = elements'
  | [], [], _ => rfl
  | [], _ :: _, h => by simp [Expr.toNodes] at h
  | _ :: _, [], h => by simp [Expr.toNodes] at h
  | element :: elements, element' :: elements', h => by
    rw [Expr.toNodes, Expr.toNodes, List.cons.injEq] at h
    rw [Expr.eq_of_toNode_eq h.1, Expr.eq_of_toNodes_eq h.2]

theorem Expr.eq_of_toParts_eq : ∀ {entries entries' : List (Expr × Expr)},
    Expr.toParts entries = Expr.toParts entries' → entries = entries'
  | [], [], _ => rfl
  | [], _ :: _, h => by simp [Expr.toParts] at h
  | _ :: _, [], h => by simp [Expr.toParts] at h
  | (key, value) :: entries, (key', value') :: entries', h => by
    simp only [Expr.toParts, List.cons.injEq, Part.one.injEq, true_and] at h
    rw [Expr.eq_of_toNode_eq h.1, Expr.eq_of_toNode_eq h.2.1, Expr.eq_of_toParts_eq h.2.2]

end

theorem Expr.toNode_injective : Function.Injective toNode :=
  fun _ _ => eq_of_toNode_eq

/-! ### Entries, fields and arguments -/

theorem EnumEntry.toNode_injective : Function.Injective toNode := by
  rintro ⟨name, value, span⟩ ⟨name', value', span'⟩ h
  have hvalue := @Part.optional_map_inj _ _ IntegerLiteral.toNode_injective "value" value value'
  simp_all [toNode]

theorem Requiredness.text_getD_injective :
    Function.Injective fun requiredness : Option Requiredness =>
      (requiredness.map text).getD "<none>" := by
  intro requiredness requiredness' h
  rcases requiredness with _ | _ | _ <;> rcases requiredness' with _ | _ | _ <;>
    first | rfl | exact absurd h (by decide)

theorem Field.toNode_injective : Function.Injective toNode := by
  rintro ⟨order, requiredness, type, name, default, span⟩
    ⟨order', requiredness', type', name', default', span'⟩ h
  have horder := @Part.optional_map_inj _ _ IntegerLiteral.toNode_injective "order" order order'
  have hdefault := @Part.optional_map_inj _ _ Expr.toNode_injective "default" default default'
  have hrequiredness := @Requiredness.text_getD_injective requiredness requiredness'
  simp only [toNode, Node.branch.injEq, List.cons.injEq, Part.word.injEq, Part.one.injEq,
    true_and, and_true, horder, hdefault] at h
  simp_all

theorem Argument.toNode_injective : Function.Injective toNode := by
  rintro ⟨order, type, name, span⟩ ⟨order', type', name', span'⟩ h
  have horder := @Part.optional_map_inj _ _ IntegerLiteral.toNode_injective "order" order order'
  simp_all [toNode]

/-! ### Declarations -/

theorem Method.toNode_injective : Function.Injective toNode := by
  rintro ⟨oneway, returns, name, arguments, throws, span⟩
    ⟨oneway', returns', name', arguments', throws', span'⟩ h
  have harguments := @List.map_inj_right _ _ arguments arguments' _ Argument.toNode_injective
  have hthrows := @List.map_inj_right _ _ throws throws' _ Argument.toNode_injective
  have honeway : (if oneway then "true" else "false") = (if oneway' then "true" else "false") →
      oneway = oneway' := by
    cases oneway <;> cases oneway' <;> simp
  simp_all [toNode]

theorem StructKind.text_injective : Function.Injective text := by
  intro kind kind' h
  cases kind <;> cases kind' <;> first | rfl | exact absurd h (by decide)

theorem Declaration.toNode_injective : Function.Injective toNode := by
  intro declaration declaration' h
  cases declaration with
  | constant decl =>
    cases declaration' with
    | constant decl' =>
      obtain ⟨type, name, value, span⟩ := decl
      have hvalue := @Expr.toNode_injective value decl'.value
      simp_all [toNode]
    | _ => simp [toNode] at h
  | typedef decl =>
    cases declaration' with
    | typedef decl' =>
      obtain ⟨type, name, span⟩ := decl
      simp_all [toNode]
    | _ => simp [toNode] at h
  | enum decl =>
    cases declaration' with
    | enum decl' =>
      obtain ⟨name, entries, span⟩ := decl
      have hentries := @List.map_inj_right _ _ entries decl'.entries _ EnumEntry.toNode_injective
      simp_all [toNode]
    | _ => simp [toNode] at h
  | struct decl =>
    cases declaration' with
    | struct decl' =>
      obtain ⟨kind, name, fields, span⟩ := decl
      have hkind := @StructKind.text_injective kind decl'.kind
      have hfields := @List.map_inj_right _ _ fields decl'.fields _ Field.toNode_injective
      simp_all [toNode]
    | _ => simp [toNode] at h
  | service decl =>
    cases declaration' with
    | service decl' =>
      obtain ⟨name, parent, methods, span⟩ := decl
      have hparent := @Part.optional_map_inj _ _ Name.toNode_injective "extends" parent
        decl'.parent
      have hmethods := @List.map_inj_right _ _ methods decl'.methods _ Method.toNode_injective
      simp_all [toNode]
    | _ => simp [toNode] at h

theorem IncludeDirective.toNode_injective : Function.Injective toNode := by
  rintro ⟨path, span⟩ ⟨path', span'⟩ h
  have hpath := @StringLiteral.toNode_injective path path'
  simp_all [toNode]

end Idl
