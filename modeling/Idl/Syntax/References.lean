import Idl.Syntax

/-!
# References

The names that a file refers to other declarations by, in source order: those in types, in
constant expressions and after `extends`.
-/
namespace Idl

def TypeRef.references : TypeRef → List Name
  | builtin _ _ => []
  | list element _ => element.references
  | map key value _ => key.references ++ value.references
  | name n => [n]

mutual

def Expr.references : Expr → List Name
  | .integer _ => []
  | .string _ => []
  | .bool _ _ => []
  | .list elements _ => Expr.referencesAll elements
  | .map entries _ => Expr.referencesEntries entries
  | .name n => [n]

def Expr.referencesAll : List Expr → List Name
  | [] => []
  | e :: es => e.references ++ Expr.referencesAll es

def Expr.referencesEntries : List (Expr × Expr) → List Name
  | [] => []
  | (key, value) :: entries =>
    key.references ++ value.references ++ Expr.referencesEntries entries

end

def Field.references (field : Field) : List Name :=
  field.type.references ++ (field.default.map Expr.references).getD []

def Method.references (method : Method) : List Name :=
  method.returns.references ++ (method.arguments ++ method.throws).flatMap (·.type.references)

def Declaration.references : Declaration → List Name
  | constant d => d.type.references ++ d.value.references
  | typedef d => d.type.references
  | enum _ => []
  | struct d => d.fields.flatMap Field.references
  | service d => d.parent.toList ++ d.methods.flatMap Method.references

def Document.references (document : Document) : List Name :=
  document.declarations.flatMap Declaration.references

end Idl
