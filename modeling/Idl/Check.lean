import Idl.Check.Coercion
import Idl.Check.Ordering
import Idl.Check.Types

/-!
# The type check

Checks the types, orders and services of one file and coerces its constants and field defaults.
-/
namespace Idl.Resolver

/-- Coerces an expression to a type that is written in the same tree. -/
def coerceHere (resolver : Resolver) (here : Nat) (type : TypeRef) (expr : Expr) :
    Reporting (Option Value) :=
  Coercion.coerce resolver here ⟨here, type⟩ expr

def checkTypedef (resolver : Resolver) (here index : Nat) (decl : TypedefDecl) :
    Reporting Unit := do
  if resolver.typedefIsCyclic ⟨here, index⟩ then
    Reporting.error decl.name.span (.cyclicTypedef decl.name.text)
  else
    let _ ← resolver.checkValueType here decl.type

def checkConstant (resolver : Resolver) (here : Nat) (decl : ConstantDecl) :
    Reporting (Option Value) := do
  if ← resolver.checkValueType here decl.type then
    resolver.coerceHere here decl.type decl.value
  else
    return none

def checkField (resolver : Resolver) (here : Nat) (field : Field) :
    Reporting (Option Value) := do
  if ← resolver.checkValueType here field.type then
    match field.default with
    | some default => resolver.coerceHere here field.type default
    | none => return none
  else
    return none

/-- The defaults of a struct by the places of their fields. -/
def checkStruct (resolver : Resolver) (here : Nat) (decl : StructDecl) :
    Reporting (List (Nat × Value)) := do
  checkOrdering .field (decl.fields.map Field.ordered)
  decl.fields.zipIdx.foldlM (fun defaults (field, index) => do
    let value ← resolver.checkField here field
    return defaults ++ (value.map (index, ·)).toList) []

/-- The name after `extends` must be the name of a service. -/
def checkParent (resolver : Resolver) (here : Nat) (name : Name) : Reporting Unit :=
  match resolver.binding? here name with
  | none => pure ()
  | some ⟨target, tail⟩ =>
    match resolver.declaration? target, tail with
    | some (.service _), [] => pure ()
    | _, _ => Reporting.error name.span (.notAService name.text)

/-- A oneway method gives nothing back. -/
def checkOneway (method : Method) : Reporting Unit := do
  unless method.returns matches .builtin .void _ do
    Reporting.error method.name.span (.onewayReturn method.name.text)
  unless method.throws.isEmpty do
    Reporting.error method.name.span (.onewayThrows method.name.text)

def checkMethod (resolver : Resolver) (here : Nat) (method : Method) : Reporting Unit := do
  let _ ← resolver.affirmType here method.returns
  resolver.checkVoid here true method.returns
  if method.oneway then
    checkOneway method
  method.arguments.forM fun argument => do
    let _ ← resolver.checkValueType here argument.type
  checkOrdering .argument (method.arguments.map Argument.ordered)
  method.throws.forM fun argument => do
    if ← resolver.affirmType here argument.type then
      resolver.checkException here argument.type
  checkOrdering .exception (method.throws.map Argument.ordered)

def checkService (resolver : Resolver) (here : Nat) (decl : ServiceDecl) : Reporting Unit := do
  if let some parent := decl.parent then
    resolver.checkParent here parent
  decl.methods.forM (resolver.checkMethod here)

/-- Checks the declaration at a place of tree `here` and adds its values. -/
def checkDeclaration (resolver : Resolver) (here index : Nat) (values : Values) :
    Declaration → Reporting Values
  | .enum _ => return values
  | .typedef decl => do
    resolver.checkTypedef here index decl
    return values
  | .constant decl => do
    let value ← resolver.checkConstant here decl
    return { values with constants := values.constants ++ (value.map (index, ·)).toList }
  | .struct decl => do
    let defaults ← resolver.checkStruct here decl
    return { values with
      defaults := values.defaults ++ defaults.map fun (field, value) => ((index, field), value) }
  | .service decl => do
    resolver.checkService here decl
    return values

/-- Checks a whole file and gives its values. -/
def checkTypes (resolver : Resolver) (here : Nat) (document : Document) : Reporting Values :=
  document.declarations.zipIdx.foldlM
    (fun values (declaration, index) => resolver.checkDeclaration here index values declaration)
    .empty

end Idl.Resolver
