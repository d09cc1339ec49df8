import Idl.Proofs.StrictSymbols

/-!
# Strict types

Strict versions of following references and of checking types where they are written. A type is
looked up in the tree that it is said to lie in, on every step of a typedef chain, and whatever a
name is bound to must be declared. In closed tables no such lookup fails.
-/
namespace Idl
namespace Strict

/-! ### Following references -/

section

variable (resolver : Resolver)

def unwrapFrom (unvisited : List DeclRef) (last : Option DeclRef) (type : LocatedType) :
    Strict (Except UnwrapFailure Unwrapped) := do
  openNode resolver.program type.tree type.type.toNode
  match type.type with
  | .name name =>
    match resolver.binding? type.tree name with
    | none => return .error .unbound
    | some binding =>
      match ← declaration resolver.program binding.target with
      | .typedef decl =>
        if binding.tail ≠ [] then return .ok ⟨type, some binding.target, last⟩
        else if binding.target ∈ unvisited then
          unwrapFrom (unvisited.erase binding.target) (some binding.target)
            ⟨binding.target.tree, decl.type⟩
        else return .error (.cyclic binding.target)
      | _ => return .ok ⟨type, some binding.target, last⟩
  | _ => return .ok ⟨type, none, last⟩
termination_by unvisited.length
decreasing_by exact Resolver.length_erase_lt (by assumption)

def unwrap (type : LocatedType) : Strict (Except UnwrapFailure Unwrapped) :=
  unwrapFrom resolver resolver.typedefs none type

def returnsTo (start : DeclRef) (unvisited : List DeclRef) (current : DeclRef) : Strict Bool := do
  match ← declaration resolver.program current with
  | .typedef decl =>
    if current ∈ unvisited then
      openNode resolver.program current.tree decl.type.toNode
      match decl.type with
      | .name name =>
        match resolver.binding? current.tree name with
        | some ⟨target, []⟩ => returnsTo start (unvisited.erase current) target
        | _ => return false
      | _ => return false
    else return current == start
  | _ => return false
termination_by unvisited.length
decreasing_by exact Resolver.length_erase_lt (by assumption)

def typedefIsCyclic (typedef : DeclRef) : Strict Bool :=
  returnsTo resolver typedef resolver.typedefs typedef

def parent? (service : DeclRef) : Strict (Option DeclRef) := do
  if let .service decl ← declaration resolver.program service then
    if let some name := decl.parent then
      openNode resolver.program service.tree name.toNode
      if let some binding := resolver.binding? service.tree name then
        discard (declaration resolver.program binding.target)
  return resolver.parent? service

end

section

variable {resolver : Resolver}

theorem unwrapFrom_eq (h : resolver.IsClosed) (unvisited : List DeclRef) (last : Option DeclRef)
    {type : LocatedType} (htype : resolver.program.Holds type.tree type.type.toNode) :
    unwrapFrom resolver unvisited last type = pure (resolver.unwrapFrom unvisited last type) := by
  induction hlength : unvisited.length using Nat.strong_induction_on
    generalizing unvisited last type with
  | _ length ih =>
    obtain ⟨number, written⟩ := type
    rw [unwrapFrom, Resolver.unwrapFrom, openNode_eq htype, pure_bind]
    cases written with
    | name name =>
      simp only
      cases hbinding : resolver.binding? number name with
      | none => rfl
      | some binding =>
        obtain ⟨target, htarget⟩ := h.declared number name binding hbinding
        simp only
        rw [declaration_eq htarget, pure_bind]
        cases target with
        | typedef decl =>
          have htypedef : resolver.typedef? binding.target =
              some ⟨binding.target.tree, decl.type⟩ :=
            (Resolver.typedef?_eq_some_iff _ _).2 ⟨decl, htarget, rfl⟩
          simp only [htypedef]
          split
          · rfl
          · split
            · next hmem =>
              exact ih _ (hlength ▸ Resolver.length_erase_lt hmem) _ _
                (Resolver.holds_of_typedef? htypedef) rfl
            · rfl
        | _ => simp only [Resolver.typedef?, htarget]
    | _ => rfl

theorem unwrap_eq (h : resolver.IsClosed) {type : LocatedType}
    (htype : resolver.program.Holds type.tree type.type.toNode) :
    unwrap resolver type = pure (resolver.unwrap type) :=
  unwrapFrom_eq h resolver.typedefs none htype

theorem returnsTo_eq (h : resolver.IsClosed) (start : DeclRef) (unvisited : List DeclRef)
    {current : DeclRef} {found : Declaration}
    (hfound : resolver.declaration? current = some found) :
    returnsTo resolver start unvisited current =
      pure (resolver.returnsTo start unvisited current) := by
  induction hlength : unvisited.length using Nat.strong_induction_on
    generalizing unvisited current found with
  | _ length ih =>
    rw [returnsTo, Resolver.returnsTo, declaration_eq hfound, pure_bind]
    cases found with
    | typedef decl =>
      have htypedef : resolver.typedef? current = some ⟨current.tree, decl.type⟩ :=
        (Resolver.typedef?_eq_some_iff _ _).2 ⟨decl, hfound, rfl⟩
      simp only [htypedef]
      split
      · next hmem =>
        rw [openNode_eq (Resolver.holds_of_typedef? htypedef), pure_bind]
        cases decl.type with
        | name name =>
          simp only
          cases hbinding : resolver.binding? current.tree name with
          | none => rfl
          | some binding =>
            obtain ⟨next, hnext⟩ := h.declared current.tree name binding hbinding
            obtain ⟨target, tail⟩ := binding
            cases tail with
            | nil => exact ih _ (hlength ▸ Resolver.length_erase_lt hmem) _ hnext rfl
            | cons _ _ => rfl
        | _ => rfl
      · rfl
    | _ => simp only [Resolver.typedef?, hfound]

theorem typedefIsCyclic_eq (h : resolver.IsClosed) {typedef : DeclRef} {found : Declaration}
    (hfound : resolver.declaration? typedef = some found) :
    typedefIsCyclic resolver typedef = pure (resolver.typedefIsCyclic typedef) :=
  returnsTo_eq h typedef resolver.typedefs hfound

theorem parent?_eq (h : resolver.IsClosed) {service : DeclRef} {found : Declaration}
    (hfound : resolver.declaration? service = some found) :
    parent? resolver service = pure (resolver.parent? service) := by
  rw [parent?, declaration_eq hfound, pure_bind]
  cases found with
  | service decl =>
    simp only
    split
    · next name hname =>
      have hheld := (Program.holds_of_declaration? hfound).trans (ServiceDecl.contains_parent hname)
      rw [openNode_eq hheld, pure_bind]
      split
      · next binding hbinding =>
        obtain ⟨target, htarget⟩ := h.declared _ name binding hbinding
        rw [declaration_eq htarget]
        rfl
      · rfl
    · rfl
  | _ => rfl

end

/-! ### Types where they are written -/

section

variable (resolver : Resolver) (here : Nat)

def affirmType (type : TypeRef) : Strict Bool := do
  openNode resolver.program here type.toNode
  match type with
  | .builtin _ _ => return true
  | .list element _ => affirmType element
  | .map key value _ => do
    let key ← affirmType key
    let value ← affirmType value
    return key && value
  | .name name => do
    openAll resolver.program here name.toNode
    if let some binding := resolver.binding? here name then
      discard (declaration resolver.program binding.target)
    resolver.affirmType here (.name name)

def checkVoid (allowed : Bool) (type : TypeRef) : Strict Unit := do
  openNode resolver.program here type.toNode
  match type with
  | .builtin type span => resolver.checkVoid here allowed (.builtin type span)
  | .list element _ => checkVoid false element
  | .map key value _ => do
    checkVoid false key
    checkVoid false value
  | .name name => do
    unless allowed do
      discard (unwrap resolver ⟨here, .name name⟩)
    resolver.checkVoid here allowed (.name name)

def checkValueType (type : TypeRef) : Strict Bool := do
  let isType ← affirmType resolver here type
  if isType then
    checkVoid resolver here false type
  return isType

def checkException (type : TypeRef) : Strict Unit := do
  if let .ok ⟨_, some target, _⟩ ← unwrap resolver ⟨here, type⟩ then
    discard (declaration resolver.program target)
  resolver.checkException here type

end

section

variable {resolver : Resolver} {here : Nat}

theorem affirmType_eq (h : resolver.IsClosed) {type : TypeRef}
    (htype : resolver.program.Holds here type.toNode) :
    affirmType resolver here type = liftM (resolver.affirmType here type) := by
  induction type with
  | builtin type span =>
    rw [affirmType, openNode_eq htype, pure_bind]
    exact (liftM_pure _).symm
  | list element span ih =>
    rw [affirmType, openNode_eq htype, pure_bind]
    exact ih (htype.trans (TypeRef.contains_element element span))
  | map key value span ihKey ihValue =>
    rw [affirmType, openNode_eq htype, pure_bind]
    refine bind_eq_liftM (ihKey (htype.trans (TypeRef.contains_key key value span))) ?_
    exact bind_eq_liftM (ihValue (htype.trans (TypeRef.contains_value key value span)))
      (liftM_pure _).symm
  | name name =>
    have hname : resolver.program.Holds here name.toNode := htype
    rw [affirmType, openNode_eq htype, pure_bind, openAll_eq hname, pure_bind]
    split
    · next binding hbinding =>
      obtain ⟨target, htarget⟩ := h.declared _ name binding hbinding
      rw [declaration_eq htarget]
      rfl
    · rfl

theorem checkVoid_eq (h : resolver.IsClosed) (allowed : Bool) {type : TypeRef}
    (htype : resolver.program.Holds here type.toNode) :
    checkVoid resolver here allowed type = liftM (resolver.checkVoid here allowed type) := by
  induction type generalizing allowed with
  | builtin type span => rw [checkVoid, openNode_eq htype, pure_bind]
  | list element span ih =>
    rw [checkVoid, openNode_eq htype, pure_bind]
    exact ih false (htype.trans (TypeRef.contains_element element span))
  | map key value span ihKey ihValue =>
    rw [checkVoid, openNode_eq htype, pure_bind]
    exact bind_eq_liftM (ihKey false (htype.trans (TypeRef.contains_key key value span)))
      (ihValue false (htype.trans (TypeRef.contains_value key value span)))
  | name name =>
    rw [checkVoid, openNode_eq htype, pure_bind, unwrap_eq h htype]
    cases allowed <;> rfl

theorem checkValueType_eq (h : resolver.IsClosed) {type : TypeRef}
    (htype : resolver.program.Holds here type.toNode) :
    checkValueType resolver here type = liftM (resolver.checkValueType here type) := by
  refine bind_eq_liftM (affirmType_eq h htype) ?_
  cases (resolver.affirmType here type).value with
  | true => exact bind_eq_liftM (checkVoid_eq h false htype) (liftM_pure _).symm
  | false => exact (liftM_pure _).symm

theorem checkException_eq (h : resolver.IsClosed) {type : TypeRef}
    (htype : resolver.program.Holds here type.toNode) :
    checkException resolver here type = liftM (resolver.checkException here type) := by
  rw [checkException, unwrap_eq h htype, pure_bind]
  split
  · next target _ hunwrap =>
    obtain ⟨found, hfound⟩ := Resolver.declaration?_of_unwrap h hunwrap rfl
    rw [declaration_eq hfound]
    rfl
  · rfl

end

end Strict
end Idl
