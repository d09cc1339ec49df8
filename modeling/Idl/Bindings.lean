import Idl.Symbols
import Idl.Syntax.References

/-!
# Bindings

What the names in a file refer to. The first component of a name is looked up among the
declarations of the file itself, then among its includes; in the second case the next component
is looked up in the included file. Components that are left over are kept for the type check.
-/
namespace Idl

/-- Data about some of the trees of a program, by tree number. -/
abbrev Table (α : Type) := List (Nat × α)

structure Binding where
  target : DeclRef
  /-- The components after the name of the target. -/
  tail : List Identifier
deriving DecidableEq, Repr

/-- The bindings of one file. -/
structure Bindings where
  /-- Bound names by the offset where they start. -/
  names : List (Nat × Binding)
  /-- Packages that at least one name went through. -/
  used : List String
deriving Repr

namespace Bindings

def empty : Bindings :=
  ⟨[], []⟩

def lookup (bindings : Bindings) (name : Name) : Option Binding :=
  bindings.names.lookup name.span.start

def bind (bindings : Bindings) (name : Name) (binding : Binding) : Bindings :=
  { bindings with names := bindings.names ++ [(name.span.start, binding)] }

def use (bindings : Bindings) (package : String) : Bindings :=
  if package ∈ bindings.used then bindings
  else { bindings with used := bindings.used ++ [package] }

end Bindings

/-- What a name turns out to be. -/
inductive Resolution where
  /-- A declaration of the same file. -/
  | here (binding : Binding)
  /-- A declaration of an included file. -/
  | included (package : String) (binding : Binding)
  /-- Neither declared nor included. -/
  | unknown
  /-- An include without a component after it. -/
  | bare
  /-- The included file does not declare the component. -/
  | missing (package : String) (member : Identifier)
deriving Repr

/-- Resolves a name in tree `number`. -/
def resolveName (symbols : Table Symbols) (number : Nat) (tree : SourceTree) (name : Name) :
    Resolution :=
  match (symbols.lookup number).bind (·.lookup name.head.text) with
  | some index => .here ⟨⟨number, index⟩, name.tail⟩
  | none =>
    match tree.include? name.head.text, name.tail with
    | none, _ => .unknown
    | some _, [] => .bare
    | some edge, member :: tail =>
      match (symbols.lookup edge.tree).bind (·.lookup member.text) with
      | some index => .included edge.name ⟨⟨edge.tree, index⟩, tail⟩
      | none => .missing edge.name member

/-- Resolves a name and keeps or reports the outcome. A package counts as used even if the name
is not found in it. -/
def bindName (symbols : Table Symbols) (number : Nat) (tree : SourceTree) (bindings : Bindings)
    (name : Name) : Reporting Bindings :=
  match resolveName symbols number tree name with
  | .here binding => return bindings.bind name binding
  | .included package binding => return (bindings.use package).bind name binding
  | .unknown => do
    Reporting.error name.head.span (.unresolved name.head.text)
    return bindings
  | .bare => do
    Reporting.error name.head.span (.nameIsPackage name.head.text)
    return bindings
  | .missing package member => do
    Reporting.error member.span (.notFoundInPackage member.text package)
    return bindings.use package

/-- The bindings of all names in tree `number`. -/
def bindNames (symbols : Table Symbols) (number : Nat) (tree : SourceTree) : Reporting Bindings :=
  tree.document.references.foldlM (bindName symbols number tree) .empty

end Idl
