import Idl.Resolver

/-!
# Types where they are written

A name in a type must stand for a struct, an enum or a typedef, and `void` is only allowed as the
return type of a method.
-/
namespace Idl.Resolver

/-- A declaration that names a type. -/
def isTypeDeclaration : Declaration → Bool
  | .struct _ => true
  | .enum _ => true
  | .typedef _ => true
  | .constant _ => false
  | .service _ => false

/-- Whether every name in a type stands for a type. Names that do not are reported, except
unbound ones, which were reported when binding. -/
def affirmType (resolver : Resolver) (here : Nat) : TypeRef → Reporting Bool
  | .builtin _ _ => return true
  | .list element _ => resolver.affirmType here element
  | .map key value _ => do
    let key ← resolver.affirmType here key
    let value ← resolver.affirmType here value
    return key && value
  | .name name =>
    match resolver.binding? here name with
    | none => return false
    | some ⟨target, tail⟩ =>
      if (resolver.declaration? target).any isTypeDeclaration ∧ tail = [] then return true
      else do
        Reporting.error name.span (.notAType name.text)
        return false

/-- Reports `void` in a type; `allowed` tells whether the type itself may be `void`. -/
def checkVoid (resolver : Resolver) (here : Nat) (allowed : Bool) : TypeRef → Reporting Unit
  | .builtin type span => do
    if type = .void ∧ allowed = false then
      Reporting.error span .voidNotAllowed
  | .list element _ => resolver.checkVoid here false element
  | .map key value _ => do
    resolver.checkVoid here false key
    resolver.checkVoid here false value
  | .name name => do
    unless allowed do
      match resolver.unwrap ⟨here, .name name⟩ with
      | .ok ⟨⟨_, .builtin .void _⟩, none, _⟩ => Reporting.error name.span .voidNotAllowed
      | _ => pure ()

/-- Checks a type that must not be `void`; tells whether it is a type at all. -/
def checkValueType (resolver : Resolver) (here : Nat) (type : TypeRef) : Reporting Bool := do
  let isType ← resolver.affirmType here type
  if isType then
    resolver.checkVoid here false type
  return isType

/-- What kind of type is written where an exception should be; none if it is an exception. -/
def nonExceptionKind? (resolver : Resolver) (unwrapped : Unwrapped) : Option String :=
  match unwrapped.target.bind resolver.declaration?, unwrapped.type.type with
  | some (.struct decl), _ => if decl.kind = .exception then none else some decl.kind.text
  | some declaration, _ => some declaration.kind
  | none, .list _ _ => some "list"
  | none, .map _ _ _ => some "map"
  | none, _ => some "builtin type"

/-- Reports a type that is not an exception. -/
def checkException (resolver : Resolver) (here : Nat) (type : TypeRef) : Reporting Unit :=
  match resolver.unwrap ⟨here, type⟩ with
  | .error _ => pure ()
  | .ok unwrapped =>
    match resolver.nonExceptionKind? unwrapped with
    | none => pure ()
    | some kind => Reporting.error type.span (.notAnException kind)

end Idl.Resolver
