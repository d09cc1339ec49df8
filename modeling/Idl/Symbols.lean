import Idl.Program
import Idl.Reporting

/-!
# Symbols

The names that a file declares. In each scope a name stands for its first declaration, and later
declarations of it are reported: top-level names share one scope, and so do the entries of an
enum, the fields of a struct, the methods of a service, and the arguments and exceptions of a
method. Entering symbols also numbers the entries of enums.
-/
namespace Idl

/-- A declared name, what it was declared as, and its place among its siblings. -/
structure Symbol where
  name : Identifier
  kind : String
  index : Nat
deriving DecidableEq, Repr

/-- The names of one scope in the order of their first declarations. -/
abbrev Scope := List Symbol

namespace Scope

def find? (scope : Scope) (name : String) : Option Symbol :=
  List.find? (fun symbol => symbol.name.text == name) scope

/-- The place of the first declaration of a name. -/
def lookup (scope : Scope) (name : String) : Option Nat :=
  (scope.find? name).map (·.index)

/-- A name that was declared before, with a note at the first declaration. -/
def redeclaration (symbol first : Symbol) : Report :=
  { Report.error symbol.name.span (.redeclared symbol.name.text first.kind) with
    also := [.note first.name.span .firstDeclared] }

/-- Adds a name to a scope unless it is there. -/
def declare (scope : Scope) (symbol : Symbol) : Reporting Scope :=
  match scope.find? symbol.name.text with
  | some first => do
    Reporting.report (redeclaration symbol first)
    return scope
  | none => return scope ++ [symbol]

/-- The scope of identifiers that are all declared as the same kind of thing. -/
def ofNames (kind : String) (names : List Identifier) : Reporting Scope :=
  names.zipIdx.foldlM (fun scope (name, index) => scope.declare ⟨name, kind, index⟩) []

end Scope

/-- The names declared inside a top-level declaration. -/
inductive Members where
  | none
  /-- Entries of an enum, and the value of each entry that has a representable one. -/
  | enum (entries : Scope) (values : List (Option Int))
  | struct (fields : Scope)
deriving Repr

/-- The symbols of one file; members are listed by the place of their declaration. -/
structure Symbols where
  names : Scope
  members : List Members
deriving Repr

namespace Symbols

def lookup (symbols : Symbols) (name : String) : Option Nat :=
  symbols.names.lookup name

/-- The entries of the enum declared at a place. -/
def enum? (symbols : Symbols) (index : Nat) : Option (Scope × List (Option Int)) :=
  match symbols.members[index]? with
  | some (.enum entries values) => some (entries, values)
  | _ => .none

/-- The fields of the struct declared at a place. -/
def struct? (symbols : Symbols) (index : Nat) : Option Scope :=
  match symbols.members[index]? with
  | some (.struct fields) => some fields
  | _ => .none

end Symbols

/-- Numbers of 32 bits. -/
def FitsI32 (value : Int) : Prop :=
  -0x80000000 ≤ value ∧ value < 0x80000000

instance (value : Int) : Decidable (FitsI32 value) :=
  inferInstanceAs (Decidable (_ ∧ _))

/-- The value of an enum entry without a literal: one more than the entry before it, as far as 64
bits go. -/
def nextEnumValue (value : Int) : Int :=
  min (value + 1) 0x7FFFFFFFFFFFFFFF

/-- What is known of an enum after some of its entries. -/
structure EnumProgress where
  scope : Scope
  values : List (Option Int)
  next : Int

/-- Numbers and declares one entry. -/
def EnumProgress.enter (progress : EnumProgress) (entry : EnumEntry) (index : Nat) :
    Reporting EnumProgress := do
  let value := (entry.value.map (·.value)).getD progress.next
  let span := (entry.value.map (·.span)).getD entry.name.span
  unless FitsI32 value do
    Reporting.error span (.i32Range value)
  let scope ← progress.scope.declare ⟨entry.name, "enum entry", index⟩
  return {
    scope
    values := progress.values ++ [if FitsI32 value then some value else none]
    next := nextEnumValue value }

def enterEnum (decl : EnumDecl) : Reporting Members := do
  let progress ← decl.entries.zipIdx.foldlM
    (fun progress (entry, index) => EnumProgress.enter progress entry index) ⟨[], [], 0⟩
  return .enum progress.scope progress.values

def enterStruct (decl : StructDecl) : Reporting Members := do
  return .struct (← Scope.ofNames "field" (decl.fields.map (·.name)))

/-- Checks the names in a service; none of them is looked up later. -/
def enterService (decl : ServiceDecl) : Reporting Members := do
  let _ ← decl.methods.zipIdx.foldlM (fun scope (method, index) => do
    let scope ← Scope.declare scope ⟨method.name, "method", index⟩
    let _ ← Scope.ofNames "argument" ((method.arguments ++ method.throws).map (·.name))
    return scope) []
  return .none

def enterMembers : Declaration → Reporting Members
  | .enum decl => enterEnum decl
  | .struct decl => enterStruct decl
  | .service decl => enterService decl
  | .typedef _ => return .none
  | .constant _ => return .none

/-- The symbols of a file. -/
def enterSymbols (document : Document) : Reporting Symbols :=
  document.declarations.zipIdx.foldlM (fun symbols (declaration, index) => do
    let names ← symbols.names.declare ⟨declaration.name, declaration.kind, index⟩
    let members ← enterMembers declaration
    return ⟨names, symbols.members ++ [members]⟩) ⟨[], []⟩

end Idl
