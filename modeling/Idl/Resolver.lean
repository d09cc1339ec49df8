import Idl.Bindings

/-!
# Following references

Questions about a whole program whose names are bound: what a type comes to when typedef names
are replaced by what they stand for, and which service a service extends. Names without a binding
lead nowhere.
-/
namespace Idl

structure Resolver where
  program : Program
  symbols : Table Symbols
  bindings : Table Bindings

/-- Why a type comes to nothing. -/
inductive UnwrapFailure where
  | unbound
  /-- The first typedef that is reached twice. -/
  | cyclic (typedef : DeclRef)
deriving DecidableEq, Repr

/-- What a type comes to. -/
structure Unwrapped where
  /-- The type at the end of the typedef chain. -/
  type : LocatedType
  /-- What the type names, if it is a name. -/
  target : Option DeclRef
  /-- The last typedef on the way. -/
  typedef : Option DeclRef
deriving DecidableEq, Repr

namespace Resolver

def binding? (resolver : Resolver) (tree : Nat) (name : Name) : Option Binding :=
  (resolver.bindings.lookup tree).bind (·.lookup name)

def declaration? (resolver : Resolver) (ref : DeclRef) : Option Declaration :=
  resolver.program.declaration? ref

/-- The name of a declaration. -/
def nameOf (resolver : Resolver) (ref : DeclRef) : String :=
  ((resolver.declaration? ref).map (·.name.text)).getD ""

/-- The type that a typedef stands for. -/
def typedef? (resolver : Resolver) (ref : DeclRef) : Option LocatedType :=
  match resolver.declaration? ref with
  | some (.typedef decl) => some ⟨ref.tree, decl.type⟩
  | _ => none

def isTypedef (resolver : Resolver) (ref : DeclRef) : Bool :=
  (resolver.typedef? ref).isSome

def typedefs (resolver : Resolver) : List DeclRef :=
  resolver.program.declRefs.filter resolver.isTypedef

theorem length_erase_lt {refs : List DeclRef} {ref : DeclRef} (h : ref ∈ refs) :
    (refs.erase ref).length < refs.length := by
  have := List.length_pos_of_mem h
  rw [List.length_erase_of_mem h]
  omega

/-- Follows typedefs that are still `unvisited`; `last` is the one followed last. -/
def unwrapFrom (resolver : Resolver) (unvisited : List DeclRef) (last : Option DeclRef)
    (type : LocatedType) : Except UnwrapFailure Unwrapped :=
  match type.type with
  | .name name =>
    match resolver.binding? type.tree name with
    | none => .error .unbound
    | some binding =>
      match resolver.typedef? binding.target with
      | none => .ok ⟨type, some binding.target, last⟩
      | some next =>
        if binding.tail ≠ [] then .ok ⟨type, some binding.target, last⟩
        else if binding.target ∈ unvisited then
          resolver.unwrapFrom (unvisited.erase binding.target) (some binding.target) next
        else .error (.cyclic binding.target)
  | _ => .ok ⟨type, none, last⟩
termination_by unvisited.length
decreasing_by exact length_erase_lt (by assumption)

/-- Replaces typedef names by what they stand for until the type is not a typedef name. -/
def unwrap (resolver : Resolver) (type : LocatedType) : Except UnwrapFailure Unwrapped :=
  resolver.unwrapFrom resolver.typedefs none type

/-- Whether the chain of typedefs from `current` comes to `start`, by way of typedefs that are
still `unvisited`. -/
def returnsTo (resolver : Resolver) (start : DeclRef) (unvisited : List DeclRef)
    (current : DeclRef) : Bool :=
  match resolver.typedef? current with
  | none => false
  | some type =>
    if current ∈ unvisited then
      match type.type with
      | .name name =>
        match resolver.binding? type.tree name with
        | some ⟨target, []⟩ => resolver.returnsTo start (unvisited.erase current) target
        | _ => false
      | _ => false
    else current == start
termination_by unvisited.length
decreasing_by exact length_erase_lt (by assumption)

/-- Whether a typedef stands for itself. -/
def typedefIsCyclic (resolver : Resolver) (typedef : DeclRef) : Bool :=
  resolver.returnsTo typedef resolver.typedefs typedef

/-- The service that a service extends. -/
def parent? (resolver : Resolver) (service : DeclRef) : Option DeclRef :=
  match resolver.declaration? service with
  | some (.service decl) =>
    match decl.parent.bind (resolver.binding? service.tree) with
    | some ⟨target, []⟩ =>
      match resolver.declaration? target with
      | some (.service _) => some target
      | _ => none
    | _ => none
  | _ => none

end Resolver
end Idl
