import Idl.Program

/-!
# Values

Constants and field defaults after coercion to their declared types.
-/
namespace Idl

inductive Value where
  | bool (value : Bool)
  | i32 (value : Int)
  | i64 (value : Int)
  | string (value : String)
  | list (elements : List Value)
  | map (entries : List (Value × Value))
  /-- An entry of an enum, with its number. -/
  | enum (decl : DeclRef) (entry : String) (value : Int)
  /-- The initialized fields of a struct in the order of the initializer. -/
  | struct (fields : List (String × Value))
deriving Repr

/-- The values in one file, as far as they could be coerced. -/
structure Values where
  /-- Constants by the place of their declaration. -/
  constants : List (Nat × Value)
  /-- Field defaults by the places of the struct and of the field in it. -/
  defaults : List ((Nat × Nat) × Value)
deriving Repr

namespace Values

def empty : Values :=
  ⟨[], []⟩

end Values
end Idl
