import Idl.Syntax

/-!
# Programs

A program is a root file and everything it includes. Each file has one tree, however many files
include it, and refers to the trees of the files it includes by their numbers.
-/
namespace Idl

/-- An include directive and the tree it leads to. -/
structure IncludeEdge where
  /-- The package name that references through the include start with. -/
  name : String
  directive : IncludeDirective
  tree : Nat
deriving Repr

structure SourceTree where
  package : String
  source : Source
  document : Document
  includes : List IncludeEdge
deriving Repr

namespace SourceTree

def include? (tree : SourceTree) (name : String) : Option IncludeEdge :=
  tree.includes.find? (·.name == name)

end SourceTree

structure Program where
  trees : List SourceTree
  root : Nat
deriving Repr

/-- A declaration of a program: the number of its tree and its place in that file. -/
structure DeclRef where
  tree : Nat
  index : Nat
deriving DecidableEq, Repr

/-- A type and the tree that it is written in. -/
structure LocatedType where
  tree : Nat
  type : TypeRef
deriving DecidableEq, Repr

namespace Program

def declaration? (program : Program) (ref : DeclRef) : Option Declaration :=
  program.trees[ref.tree]?.bind fun tree => tree.document.declarations[ref.index]?

/-- Every declaration of the program. -/
def declRefs (program : Program) : List DeclRef :=
  program.trees.zipIdx.flatMap fun (tree, number) =>
    (List.range tree.document.declarations.length).map fun index => ⟨number, index⟩

/-- Adds the trees that a tree includes, and then itself, to those listed before. Included trees
come from lower numbers. -/
def visit (program : Program) (number : Nat) (listed : List Nat) : List Nat :=
  if number ∈ listed then listed
  else match program.trees[number]? with
    | none => listed
    | some tree =>
      tree.includes.foldl
        (fun listed edge => if edge.tree < number then program.visit edge.tree listed else listed)
        listed ++ [number]
termination_by number

/-- The trees that the root reaches, each after the trees it includes. -/
def flatten (program : Program) : List Nat :=
  program.visit program.root []

end Program
end Idl
