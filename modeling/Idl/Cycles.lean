import Idl.Resolver

/-!
# Cycles

A struct must not contain itself, be it through other structs, lists, maps or typedefs, and a
service must not extend itself. The search for a struct goes through fields in source order and
leaves alone the structs that it is already inside of.
-/
namespace Idl

/-- The structs that the values of a type hold directly, in the order in which they are met. The
list is incomplete if a typedef holds itself in a list or map: then it stops there. -/
structure DirectStructs where
  structs : List DeclRef
  complete : Bool
deriving DecidableEq, Repr

namespace DirectStructs

def none : DirectStructs :=
  ⟨[], true⟩

/-- What comes after an incomplete list is never met. -/
def append (first second : DirectStructs) : DirectStructs :=
  if first.complete then ⟨first.structs ++ second.structs, second.complete⟩ else first

end DirectStructs

namespace Resolver

/-- The structs met in a type, expanding only typedefs that are still `unexpanded`. -/
def directStructsFrom (resolver : Resolver) (unexpanded : List DeclRef) (type : LocatedType) :
    DirectStructs :=
  (type.type.references.map fun name =>
    match resolver.unwrap ⟨type.tree, .name name⟩ with
    | .error _ => .none
    | .ok ⟨_, some target, _⟩ =>
      match resolver.declaration? target with
      | some (.struct _) => ⟨[target], true⟩
      | _ => .none
    | .ok ⟨_, Option.none, Option.none⟩ => .none
    | .ok ⟨next, Option.none, some typedef⟩ =>
      if typedef ∈ unexpanded then
        resolver.directStructsFrom (unexpanded.erase typedef) next
      else ⟨[], false⟩).foldr DirectStructs.append .none
termination_by unexpanded.length
decreasing_by exact length_erase_lt (by assumption)

def directStructs (resolver : Resolver) (type : LocatedType) : DirectStructs :=
  resolver.directStructsFrom resolver.typedefs type

end Resolver

/-- The outcome of a search. It is endless if it comes to a typedef that holds itself. -/
inductive Search where
  | found
  | absent
  | endless
deriving DecidableEq, Repr

/-- Searches in one place after the other until there is an outcome. -/
def Search.first {α : Type} (places : List α) (look : α → Search) : Search :=
  match places with
  | [] => .absent
  | place :: places =>
    match look place with
    | .absent => Search.first places look
    | outcome => outcome

namespace Resolver

/-- The types of the fields of a struct. -/
def fieldTypes (resolver : Resolver) (struct : DeclRef) : List LocatedType :=
  match resolver.declaration? struct with
  | some (.struct decl) => decl.fields.map fun field => ⟨struct.tree, field.type⟩
  | _ => []

def isStruct (resolver : Resolver) (ref : DeclRef) : Bool :=
  (resolver.declaration? ref) matches some (.struct _)

def structs (resolver : Resolver) : List DeclRef :=
  resolver.program.declRefs.filter resolver.isStruct

/-- Searches a type for the struct `origin`. Structs that are not `idle` are being searched. -/
def searchFrom (resolver : Resolver) (origin : DeclRef) (idle : List DeclRef)
    (type : LocatedType) : Search :=
  let direct := resolver.directStructs type
  let outcome := Search.first direct.structs fun struct =>
    if struct = origin then .found
    else if struct ∈ idle then
      Search.first (resolver.fieldTypes struct) fun type =>
        resolver.searchFrom origin (idle.erase struct) type
    else .absent
  match outcome with
  | .absent => if direct.complete then .absent else .endless
  | outcome => outcome
termination_by idle.length
decreasing_by exact length_erase_lt (by assumption)

/-- Whether the values of a type can hold a value of the struct `origin`. -/
def search (resolver : Resolver) (origin : DeclRef) (type : LocatedType) : Search :=
  resolver.searchFrom origin resolver.structs type

/-- The first field through which a struct contains itself. -/
def cyclicField? (resolver : Resolver) (struct : DeclRef) : List Field → Option Field
  | [] => none
  | field :: fields =>
    match resolver.search struct ⟨struct.tree, field.type⟩ with
    | .found => some field
    | .absent => resolver.cyclicField? struct fields
    | .endless => none

def checkStructCycle (resolver : Resolver) (struct : DeclRef) (decl : StructDecl) :
    Reporting Unit := do
  if let some field := resolver.cyclicField? struct decl.fields then
    Reporting.error field.name.span (.cyclicStruct field.name.text decl.name.text)

/-- Whether the chain of parents from `current` comes to `service`, by way of services that are
still `unvisited`. -/
def descendsFrom (resolver : Resolver) (service : DeclRef) (unvisited : List DeclRef)
    (current : DeclRef) : Bool :=
  match resolver.parent? current with
  | none => false
  | some parent =>
    if parent = service then true
    else if parent ∈ unvisited then
      resolver.descendsFrom service (unvisited.erase parent) parent
    else false
termination_by unvisited.length
decreasing_by exact length_erase_lt (by assumption)

/-- Whether a service extends itself by one or more steps. -/
def extendsItself (resolver : Resolver) (service : DeclRef) : Bool :=
  resolver.descendsFrom service resolver.program.declRefs service

def checkServiceCycle (resolver : Resolver) (service : DeclRef) (decl : ServiceDecl) :
    Reporting Unit := do
  if let some parent := decl.parent then
    if resolver.extendsItself service then
      Reporting.error parent.span .cyclicService

/-- Reports the structs and services of a file that are part of a cycle. -/
def checkCycles (resolver : Resolver) (here : Nat) (document : Document) : Reporting Unit :=
  document.declarations.zipIdx.forM fun (declaration, index) =>
    match declaration with
    | .struct decl => resolver.checkStructCycle ⟨here, index⟩ decl
    | .service decl => resolver.checkServiceCycle ⟨here, index⟩ decl
    | _ => pure ()

end Resolver
end Idl
