import Idl.Proofs.StrictTypes

/-!
# Strict values

A strict version of coercing expressions. An expression is looked up in the tree of the declaration,
what it is coerced to in the tree that the type lies in, a field of a struct by its place among the
fields, and the members of an enum or struct in the symbols of its tree. In closed tables no such
lookup fails.
-/
namespace Idl
namespace Strict

open Coercion (FieldProgress)

section

variable (resolver : Resolver) (here : Nat)

/-- Looks up what a dotted name as an enum entry reads: the enum, what the name is bound to, and for
a single component left over of the name the symbols of the tree that declares it. -/
def enumEntry (wanted : DeclRef) (expr : Expr) : Strict (Option Value) := do
  discard (declaration resolver.program wanted)
  if let .name name := expr then
    if let some binding := resolver.binding? here name then
      if let .enum _ ← declaration resolver.program binding.target then
        binding.tail.forM fun member => openNode resolver.program here member.toNode
        if binding.tail.length = 1 then
          discard (symbols resolver.symbols binding.target.tree)
  Coercion.enumEntry resolver here wanted expr

/-- Looks up the fields of a struct for the ones that an initializer leaves out. -/
def missingFields (struct : DeclRef) (span : Span) (decl : StructDecl) (given : List Nat) :
    Strict Bool := do
  decl.fields.forM fun field => do
    openNode resolver.program struct.tree field.toNode
    openNode resolver.program struct.tree field.name.toNode
  Coercion.missingFields span decl given

/-- The type of the field of a struct at a place. -/
def fieldType (struct : DeclRef) (decl : StructDecl) (index : Nat) : Strict LocatedType :=
  demand (.field struct index) (Coercion.fieldType? struct decl index)

mutual

def coerce (type : LocatedType) (expr : Expr) : Strict (Option Value) := do
  openNode resolver.program here expr.toNode
  match ← unwrap resolver type with
  | .error _ => return none
  | .ok ⟨⟨tree, type⟩, target, _⟩ =>
    match type with
    | .builtin type _ => Coercion.builtin type expr
    | .list element _ =>
      match expr with
      | .list elements _ => do
        return (← coerceElements ⟨tree, element⟩ elements).map .list
      | _ => Coercion.refuse expr.span (.notAList expr.kind)
    | .map key value _ =>
      match expr with
      | .map entries _ => do
        return (← coerceEntries ⟨tree, key⟩ ⟨tree, value⟩ entries).map .map
      | _ => Coercion.refuse expr.span (.notAMap expr.kind)
    | .name name => do
      openAll resolver.program tree name.toNode
      match target with
      | none => Coercion.refuse expr.span (.cannotUseType name.text)
      | some ref =>
        match ← declaration resolver.program ref with
        | .enum _ => enumEntry resolver here ref expr
        | .struct decl =>
          match expr with
          | .map entries span => do
            discard (symbols resolver.symbols ref.tree)
            match resolver.structMembers? ref with
            | none => return none
            | some fields => do
              let progress ← coerceFields ref decl fields ⟨[], some []⟩ entries
              let complete ← missingFields resolver ref span decl progress.given
              return if complete then progress.values.map .struct else none
          | _ => Coercion.refuse expr.span .notStructInitializer
        | _ => Coercion.refuse expr.span (.cannotUseType name.text)

def coerceElements (type : LocatedType) : List Expr → Strict (Option (List Value))
  | [] => return some []
  | expr :: exprs => do
    let first ← coerce type expr
    let rest ← coerceElements type exprs
    return first.bind fun first => rest.map (first :: ·)

def coerceEntries (keyType valueType : LocatedType) :
    List (Expr × Expr) → Strict (Option (List (Value × Value)))
  | [] => return some []
  | (key, value) :: entries => do
    let key ← coerce keyType key
    let value ← coerce valueType value
    let rest ← coerceEntries keyType valueType entries
    return key.bind fun key => value.bind fun value => rest.map ((key, value) :: ·)

def coerceFields (struct : DeclRef) (decl : StructDecl) (fields : Scope)
    (progress : FieldProgress) : List (Expr × Expr) → Strict FieldProgress
  | [] => return progress
  | (key, value) :: entries => do
    openNode resolver.program here key.toNode
    match ← Coercion.fieldKey decl fields progress.given key with
    | none => coerceFields struct decl fields { progress with values := none } entries
    | some (name, index) =>
      let type ← fieldType struct decl index
      let value ← coerce type value
      let progress := { progress with given := index :: progress.given }
      coerceFields struct decl fields (progress.add name value) entries

end

end

section

variable {resolver : Resolver} {here : Nat}

theorem enumEntry_eq (h : resolver.IsClosed) {wanted : DeclRef} {found : Declaration}
    (hwanted : resolver.declaration? wanted = some found) (expr : Expr) :
    enumEntry resolver here wanted expr =
      liftM (Coercion.enumEntry resolver here wanted expr) := by
  have hopen : discard (declaration resolver.program wanted) = (pure () : Strict Unit) := by
    rw [declaration_eq hwanted]
    rfl
  rw [enumEntry, hopen, pure_bind]
  split
  · next name =>
    split
    · next binding hbinding =>
      obtain ⟨target, htarget⟩ := h.declared here name binding hbinding
      rw [declaration_eq htarget, pure_bind]
      cases target with
      | enum decl =>
        obtain ⟨own, hown, -⟩ := Resolver.lookup_symbols h.symbols htarget
        simp only
        rw [forM_eq_pure fun member hmember => openNode_eq (h.spelled here name binding hbinding
          member hmember), pure_bind, symbols_eq hown]
        split <;> rfl
      | _ => rfl
    · rfl
  · rfl

theorem missingFields_eq {struct : DeclRef} {decl : StructDecl}
    (h : resolver.declaration? struct = some (.struct decl)) (span : Span) (given : List Nat) :
    missingFields resolver struct span decl given =
      liftM (Coercion.missingFields span decl given) := by
  rw [missingFields, forM_eq_pure fun field hfield => ?_, pure_bind]
  have hheld := (Program.holds_of_declaration? h).trans (StructDecl.contains_field hfield)
  rw [openNode_eq hheld, pure_bind, openNode_eq (hheld.trans field.contains_name)]

/-- A key that is accepted names one of the fields. -/
theorem lookup_of_fieldKey {decl : StructDecl} {fields : Scope} {given : List Nat} {key : Expr}
    {name : String} {index : Nat}
    (h : (Coercion.fieldKey decl fields given key).value = some (name, index)) :
    fields.lookup name = some index := by
  unfold Coercion.fieldKey at h
  split at h
  · split at h
    · cases h
    · next literal other hother =>
      split at h
      · cases h
      · obtain ⟨rfl, rfl⟩ := Prod.mk.inj (Option.some.inj h)
        exact hother
  · cases h

mutual

theorem coerce_eq (h : resolver.IsClosed) :
    ∀ (expr : Expr) (type : LocatedType), resolver.program.Holds here expr.toNode →
      resolver.program.Holds type.tree type.type.toNode →
        coerce resolver here type expr = liftM (Coercion.coerce resolver here type expr)
  | expr, type, hexpr, htype => by
    rw [coerce, openNode_eq hexpr, pure_bind, unwrap_eq h htype, pure_bind, Coercion.coerce]
    cases hunwrap : resolver.unwrap type with
    | error failure => exact (liftM_pure _).symm
    | ok unwrapped =>
      have hheld := Resolver.holds_of_unwrap htype hunwrap
      obtain ⟨⟨tree, type⟩, target, typedef⟩ := unwrapped
      cases type with
      | builtin type span => rfl
      | list element span =>
        have helement := hheld.trans (TypeRef.contains_element element span)
        cases expr with
        | list elements span =>
          exact bind_eq_liftM (coerceElements_eq h elements ⟨tree, element⟩ hexpr.elements helement)
            (liftM_pure _).symm
        | _ => rfl
      | map key value span =>
        have hkey := hheld.trans (TypeRef.contains_key key value span)
        have hvalue := hheld.trans (TypeRef.contains_value key value span)
        cases expr with
        | map entries span =>
          exact bind_eq_liftM (coerceEntries_eq h entries ⟨tree, key⟩ ⟨tree, value⟩ hexpr.entries
            hkey hvalue) (liftM_pure _).symm
        | _ => rfl
      | name name =>
        have hname : resolver.program.Holds tree name.toNode := hheld
        simp only
        rw [openAll_eq hname, pure_bind]
        cases target with
        | none => rfl
        | some ref =>
          obtain ⟨found, hfound⟩ := Resolver.declaration?_of_unwrap h hunwrap rfl
          simp only [Option.bind_some, hfound, Option.map_some]
          rw [declaration_eq hfound, pure_bind]
          cases found with
          | enum decl => exact enumEntry_eq h hfound expr
          | struct decl =>
            cases expr with
            | map entries span =>
              obtain ⟨own, hown, -⟩ := Resolver.lookup_symbols h.symbols hfound
              simp only
              have hfind : discard (symbols resolver.symbols ref.tree) = pure () := by
                rw [symbols_eq hown]
                rfl
              rw [hfind, pure_bind]
              cases hfields : resolver.structMembers? ref with
              | none => exact (liftM_pure _).symm
              | some fields =>
                refine bind_eq_liftM (coerceFields_eq h entries ref decl fields _ hfound hfields
                  hexpr.entries) ?_
                exact bind_eq_liftM (missingFields_eq hfound _ _) (liftM_pure _).symm
            | _ => rfl
          | _ => rfl

theorem coerceElements_eq (h : resolver.IsClosed) :
    ∀ (exprs : List Expr) (type : LocatedType),
      (∀ expr ∈ exprs, resolver.program.Holds here expr.toNode) →
        resolver.program.Holds type.tree type.type.toNode →
          coerceElements resolver here type exprs =
            liftM (Coercion.coerceElements resolver here type exprs)
  | [], _, _, _ => by
    rw [coerceElements, Coercion.coerceElements]
    exact (liftM_pure _).symm
  | expr :: exprs, type, hexprs, htype => by
    obtain ⟨hexpr, hexprs⟩ := List.forall_mem_cons.1 hexprs
    rw [coerceElements, Coercion.coerceElements]
    refine bind_eq_liftM (coerce_eq h expr type hexpr htype) ?_
    exact bind_eq_liftM (coerceElements_eq h exprs type hexprs htype) (liftM_pure _).symm

theorem coerceEntries_eq (h : resolver.IsClosed) :
    ∀ (entries : List (Expr × Expr)) (keyType valueType : LocatedType),
      (∀ entry ∈ entries, resolver.program.Holds here entry.1.toNode ∧
        resolver.program.Holds here entry.2.toNode) →
        resolver.program.Holds keyType.tree keyType.type.toNode →
          resolver.program.Holds valueType.tree valueType.type.toNode →
            coerceEntries resolver here keyType valueType entries =
              liftM (Coercion.coerceEntries resolver here keyType valueType entries)
  | [], _, _, _, _, _ => by
    rw [coerceEntries, Coercion.coerceEntries]
    exact (liftM_pure _).symm
  | (key, value) :: entries, keyType, valueType, hentries, hkeyType, hvalueType => by
    obtain ⟨⟨hkey, hvalue⟩, hentries⟩ := List.forall_mem_cons.1 hentries
    rw [coerceEntries, Coercion.coerceEntries]
    refine bind_eq_liftM (coerce_eq h key keyType hkey hkeyType) ?_
    refine bind_eq_liftM (coerce_eq h value valueType hvalue hvalueType) ?_
    exact bind_eq_liftM (coerceEntries_eq h entries keyType valueType hentries hkeyType hvalueType)
      (liftM_pure _).symm

theorem coerceFields_eq (h : resolver.IsClosed) :
    ∀ (entries : List (Expr × Expr)) (struct : DeclRef) (decl : StructDecl) (fields : Scope)
      (progress : FieldProgress), resolver.declaration? struct = some (.struct decl) →
        resolver.structMembers? struct = some fields →
          (∀ entry ∈ entries, resolver.program.Holds here entry.1.toNode ∧
            resolver.program.Holds here entry.2.toNode) →
            coerceFields resolver here struct decl fields progress entries =
              liftM (Coercion.coerceFields resolver here struct decl fields progress entries)
  | [], _, _, _, _, _, _, _ => by
    rw [coerceFields, Coercion.coerceFields]
    exact (liftM_pure _).symm
  | (key, value) :: entries, struct, decl, fields, progress, hstruct, hfields, hentries => by
    obtain ⟨⟨hkey, hvalue⟩, hentries⟩ := List.forall_mem_cons.1 hentries
    rw [coerceFields, Coercion.coerceFields, openNode_eq hkey, pure_bind]
    refine bind_eq_liftM rfl ?_
    cases haccepted : (Coercion.fieldKey decl fields progress.given key).value with
    | none => exact coerceFields_eq h entries struct decl fields _ hstruct hfields hentries
    | some accepted =>
      obtain ⟨name, index⟩ := accepted
      obtain ⟨field, hfield⟩ := Resolver.getElem?_of_structMembers? h.symbols hstruct hfields
        (lookup_of_fieldKey haccepted)
      have htype : Coercion.fieldType? struct decl index = some ⟨struct.tree, field.type⟩ := by
        rw [Coercion.fieldType?, hfield, Option.map_some]
      have hheld := ((Program.holds_of_declaration? hstruct).trans
        (StructDecl.contains_field (List.mem_of_getElem? hfield))).trans field.contains_type
      simp only [htype, fieldType]
      rw [demand_eq rfl, pure_bind]
      refine bind_eq_liftM (coerce_eq h value ⟨struct.tree, field.type⟩ hvalue hheld) ?_
      exact coerceFields_eq h entries struct decl fields _ hstruct hfields hentries

end

end

end Strict
end Idl
