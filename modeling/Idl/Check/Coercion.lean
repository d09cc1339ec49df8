import Idl.Resolver
import Idl.Value

/-!
# Coercion

Constant expressions take the type that they are declared with. Every part of an expression that
does not fit is reported at that part; an expression with a part that does not fit has no value.
-/
namespace Idl

namespace Resolver

/-- The declaration of an enum. -/
def enum? (resolver : Resolver) (ref : DeclRef) : Option EnumDecl :=
  match resolver.declaration? ref with
  | some (.enum decl) => some decl
  | _ => none

def struct? (resolver : Resolver) (ref : DeclRef) : Option StructDecl :=
  match resolver.declaration? ref with
  | some (.struct decl) => some decl
  | _ => none

/-- The entries of an enum and their values. -/
def enumMembers? (resolver : Resolver) (ref : DeclRef) : Option (Scope × List (Option Int)) :=
  (resolver.symbols.lookup ref.tree).bind (·.enum? ref.index)

/-- The fields of a struct. -/
def structMembers? (resolver : Resolver) (ref : DeclRef) : Option Scope :=
  (resolver.symbols.lookup ref.tree).bind (·.struct? ref.index)

end Resolver

namespace Coercion

/-- Reports an expression that does not fit. -/
def refuse {α : Type} (span : Span) (message : Message) : Reporting (Option α) := do
  Reporting.error span message
  return none

def builtin (type : Builtin) (expr : Expr) : Reporting (Option Value) :=
  match type, expr with
  | .bool, .bool value _ => return some (.bool value)
  | .i32, .integer literal =>
    if FitsI32 literal.value then return some (.i32 literal.value)
    else refuse literal.span (.i32Range literal.value)
  | .i64, .integer literal => return some (.i64 literal.value)
  | .string, .string literal => return some (.string literal.text)
  | _, _ => refuse expr.span (.cannotCoerce expr.kind type.text)

/-- A dotted name as an entry of the enum `wanted`, in tree `here`. An entry that the named enum
lacks is reported before an enum that is not the wanted one. -/
def enumEntry (resolver : Resolver) (here : Nat) (wanted : DeclRef) (expr : Expr) :
    Reporting (Option Value) :=
  let notMember := refuse expr.span (.notEnumMember (resolver.nameOf wanted))
  match expr with
  | .name name =>
    match resolver.binding? here name with
    | none => return none
    | some ⟨target, tail⟩ =>
      match resolver.enum? target, tail with
      | none, _ => notMember
      | some decl, [] => refuse expr.span (.enumAsValue decl.name.text)
      | some decl, _ :: _ :: _ =>
        refuse expr.span (.noSuchEnumMember (dotted tail) decl.name.text)
      | some decl, [member] =>
        match (resolver.enumMembers? target).bind fun (entries, values) =>
            (entries.lookup member.text).map fun index => values[index]?.join with
        | none => refuse member.span (.noSuchEnumMember member.text decl.name.text)
        | some value =>
          if target ≠ wanted then
            refuse expr.span (.enumMismatch decl.name.text (resolver.nameOf wanted))
          else return value.map (.enum target member.text ·)
  | _ => notMember

/-- Reports the fields of a struct that an initializer leaves out although they are neither
optional nor have a default. -/
def missingFields (span : Span) (decl : StructDecl) (given : List Nat) : Reporting Bool := do
  let missing := decl.fields.zipIdx.filter fun (field, index) =>
    field.requiredness ≠ some .optional ∧ field.default.isNone ∧ index ∉ given
  missing.forM fun (field, _) =>
    Reporting.error span (.missingRequiredField field.name.text decl.name.text)
  return missing.isEmpty

/-- The key of an entry in a struct initializer: the place of the field that it names, unless the
key is wrong or the field is among those `given` before. -/
def fieldKey (decl : StructDecl) (fields : Scope) (given : List Nat) (key : Expr) :
    Reporting (Option (String × Nat)) :=
  match key with
  | .string literal =>
    match fields.lookup literal.text with
    | none => refuse key.span (.unknownField literal.text decl.name.text)
    | some index =>
      if index ∈ given then refuse key.span (.duplicateInitializer literal.text)
      else return some (literal.text, index)
  | _ => refuse key.span .expectedFieldName

/-- The initialized fields of a struct so far; there are none once an entry was refused. -/
structure FieldProgress where
  given : List Nat
  values : Option (List (String × Value))

/-- Adds an initialized field. -/
def FieldProgress.add (progress : FieldProgress) (name : String) (value : Option Value) :
    FieldProgress :=
  { progress with
    values := progress.values.bind fun values => value.map fun value => values ++ [(name, value)] }

/-- The type of a field of a struct, in the tree of the struct. -/
def fieldType? (struct : DeclRef) (decl : StructDecl) (index : Nat) : Option LocatedType :=
  decl.fields[index]?.map fun field => ⟨struct.tree, field.type⟩

mutual

/-- Coerces an expression in tree `here` to a type. -/
def coerce (resolver : Resolver) (here : Nat) (type : LocatedType) (expr : Expr) :
    Reporting (Option Value) :=
  match resolver.unwrap type with
  | .error _ => return none
  | .ok ⟨⟨tree, type⟩, target, _⟩ =>
    match type with
    | .builtin type _ => builtin type expr
    | .list element _ =>
      match expr with
      | .list elements _ => do
        return (← coerceElements resolver here ⟨tree, element⟩ elements).map .list
      | _ => refuse expr.span (.notAList expr.kind)
    | .map key value _ =>
      match expr with
      | .map entries _ => do
        return (← coerceEntries resolver here ⟨tree, key⟩ ⟨tree, value⟩ entries).map .map
      | _ => refuse expr.span (.notAMap expr.kind)
    | .name name =>
      match target.bind fun ref => (resolver.declaration? ref).map (ref, ·) with
      | some (ref, .enum _) => enumEntry resolver here ref expr
      | some (ref, .struct decl) =>
        match expr with
        | .map entries span =>
          match resolver.structMembers? ref with
          | none => return none
          | some fields => do
            let progress ← coerceFields resolver here ref decl fields ⟨[], some []⟩ entries
            let complete ← missingFields span decl progress.given
            return if complete then progress.values.map .struct else none
        | _ => refuse expr.span .notStructInitializer
      | _ => refuse expr.span (.cannotUseType name.text)

/-- Coerces every element of a list. -/
def coerceElements (resolver : Resolver) (here : Nat) (type : LocatedType) :
    List Expr → Reporting (Option (List Value))
  | [] => return some []
  | expr :: exprs => do
    let first ← coerce resolver here type expr
    let rest ← coerceElements resolver here type exprs
    return first.bind fun first => rest.map (first :: ·)

/-- Coerces every key and value of a map. -/
def coerceEntries (resolver : Resolver) (here : Nat) (keyType valueType : LocatedType) :
    List (Expr × Expr) → Reporting (Option (List (Value × Value)))
  | [] => return some []
  | (key, value) :: entries => do
    let key ← coerce resolver here keyType key
    let value ← coerce resolver here valueType value
    let rest ← coerceEntries resolver here keyType valueType entries
    return key.bind fun key => value.bind fun value => rest.map ((key, value) :: ·)

/-- Coerces the entries of a struct initializer. -/
def coerceFields (resolver : Resolver) (here : Nat) (struct : DeclRef) (decl : StructDecl)
    (fields : Scope) (progress : FieldProgress) :
    List (Expr × Expr) → Reporting FieldProgress
  | [] => return progress
  | (key, value) :: entries => do
    match ← fieldKey decl fields progress.given key with
    | none =>
      coerceFields resolver here struct decl fields { progress with values := none } entries
    | some (name, index) =>
      let value ← match fieldType? struct decl index with
        | some type => coerce resolver here type value
        | none => pure none
      let progress := { progress with given := index :: progress.given }
      coerceFields resolver here struct decl fields (progress.add name value) entries

end

end Coercion
end Idl
