import Idl.Proofs.Tables
import Idl.Proofs.Typedefs

/-!
# Conformance

The typing rules of initializers: which expressions of a tree conform to a type, and with which
value. Typedef names are replaced by what they stand for at every level, and whether an entry of a
struct initializer fits is asked of the declaration of its field, in whatever file that is.
-/
namespace Idl

/-- A field that a struct initializer must give. -/
def Field.IsRequired (field : Field) : Prop :=
  field.requiredness ≠ some .optional ∧ field.default = none

mutual

/-- The expression, in tree `here`, conforms to the type with the value. -/
inductive Conforms (resolver : Resolver) (here : Nat) : LocatedType → Expr → Value → Prop
  | typedef {type next ref expr value} (step : resolver.Aliases type ref next)
      (conforms : Conforms resolver here next expr value) : Conforms resolver here type expr value
  | bool {tree span value valueSpan} :
      Conforms resolver here ⟨tree, .builtin .bool span⟩ (.bool value valueSpan) (.bool value)
  | i32 {tree span literal} (fits : FitsI32 literal.value) :
      Conforms resolver here ⟨tree, .builtin .i32 span⟩ (.integer literal) (.i32 literal.value)
  | i64 {tree span literal} :
      Conforms resolver here ⟨tree, .builtin .i64 span⟩ (.integer literal) (.i64 literal.value)
  | string {tree span literal} :
      Conforms resolver here ⟨tree, .builtin .string span⟩ (.string literal)
        (.string literal.text)
  | list {tree element span exprs exprsSpan values}
      (elements : ConformsAll resolver here ⟨tree, element⟩ exprs values) :
      Conforms resolver here ⟨tree, .list element span⟩ (.list exprs exprsSpan) (.list values)
  | map {tree keyType valueType span exprs exprsSpan values}
      (entries : ConformsEntries resolver here ⟨tree, keyType⟩ ⟨tree, valueType⟩ exprs values) :
      Conforms resolver here ⟨tree, .map keyType valueType span⟩ (.map exprs exprsSpan)
        (.map values)
  | enum {tree name ref decl path member entry number}
      (type : resolver.binding? tree name = some ⟨ref, []⟩)
      (declared : resolver.enum? ref = some decl)
      (bound : resolver.binding? here path = some ⟨ref, [member]⟩)
      (numbered : (entry, number) ∈ decl.numbered) (named : entry.name.text = member.text) :
      Conforms resolver here ⟨tree, .name name⟩ (.name path) (.enum ref member.text number)
  | struct {tree name ref decl exprs exprsSpan values}
      (type : resolver.binding? tree name = some ⟨ref, []⟩)
      (declared : resolver.struct? ref = some decl)
      (fields : ConformsFields resolver here ref decl exprs values)
      (distinct : (values.map Prod.fst).Nodup)
      (complete : ∀ field ∈ decl.fields, field.IsRequired →
        field.name.text ∈ values.map Prod.fst) :
      Conforms resolver here ⟨tree, .name name⟩ (.map exprs exprsSpan) (.struct values)

/-- The expressions conform to one type with the values, in order. -/
inductive ConformsAll (resolver : Resolver) (here : Nat) :
    LocatedType → List Expr → List Value → Prop
  | nil {type} : ConformsAll resolver here type [] []
  | cons {type expr value exprs values} (head : Conforms resolver here type expr value)
      (tail : ConformsAll resolver here type exprs values) :
      ConformsAll resolver here type (expr :: exprs) (value :: values)

/-- The keys and values of the entries conform to their types, in order. -/
inductive ConformsEntries (resolver : Resolver) (here : Nat) :
    LocatedType → LocatedType → List (Expr × Expr) → List (Value × Value) → Prop
  | nil {keyType valueType} : ConformsEntries resolver here keyType valueType [] []
  | cons {keyType valueType keyExpr valueExpr key value exprs values}
      (keyConforms : Conforms resolver here keyType keyExpr key)
      (valueConforms : Conforms resolver here valueType valueExpr value)
      (tail : ConformsEntries resolver here keyType valueType exprs values) :
      ConformsEntries resolver here keyType valueType ((keyExpr, valueExpr) :: exprs)
        ((key, value) :: values)

/-- Each key is a string literal that names a field of the struct, and each value conforms to the
type of its field. -/
inductive ConformsFields (resolver : Resolver) (here : Nat) :
    DeclRef → StructDecl → List (Expr × Expr) → List (String × Value) → Prop
  | nil {ref decl} : ConformsFields resolver here ref decl [] []
  | cons {ref decl literal field expr value exprs values} (declared : field ∈ decl.fields)
      (named : field.name.text = literal.text)
      (conforms : Conforms resolver here ⟨ref.tree, field.type⟩ expr value)
      (tail : ConformsFields resolver here ref decl exprs values) :
      ConformsFields resolver here ref decl ((.string literal, expr) :: exprs)
        ((literal.text, value) :: values)

end

namespace Conforms

variable {resolver : Resolver} {here : Nat}

theorem not_aliases_of_not_name {tree : Nat} {type : TypeRef} (h : ∀ name, type ≠ .name name)
    {typedef : DeclRef} {next : LocatedType} : ¬ resolver.Aliases ⟨tree, type⟩ typedef next :=
  fun ⟨name, hname, _, _⟩ => h name hname

theorem aliases_unique {type next other : LocatedType} {typedef typedef' : DeclRef}
    (h : resolver.Aliases type typedef next) (h' : resolver.Aliases type typedef' other) :
    next = other := by
  obtain rfl := h.typedef_unique h'
  exact Option.some.inj (h.typedef?_eq.symm.trans h'.typedef?_eq)

theorem typedef?_of_enum? {ref : DeclRef} {decl : EnumDecl}
    (h : resolver.enum? ref = some decl) : resolver.typedef? ref = none := by
  rw [Resolver.typedef?, (Resolver.enum?_eq_some_iff ref decl).1 h]

theorem typedef?_of_struct? {ref : DeclRef} {decl : StructDecl}
    (h : resolver.struct? ref = some decl) : resolver.typedef? ref = none := by
  rw [Resolver.typedef?, (Resolver.struct?_eq_some_iff ref decl).1 h]

theorem not_aliases_of_typedef? {tree : Nat} {name : Name} {ref : DeclRef}
    (hbinding : resolver.binding? tree name = some ⟨ref, []⟩)
    (hnone : resolver.typedef? ref = none) {typedef : DeclRef} {next : LocatedType} :
    ¬ resolver.Aliases ⟨tree, .name name⟩ typedef next := by
  rintro ⟨name', hname, hbinding', htypedef⟩
  obtain rfl := TypeRef.name.inj hname
  obtain rfl := (Binding.mk.inj (Option.some.inj (hbinding.symm.trans hbinding'))).1
  exact Option.some_ne_none _ (htypedef.symm.trans hnone)

/-- Only the rule for typedefs applies to the name of a typedef. -/
theorem of_aliases {type next : LocatedType} {typedef : DeclRef} {expr : Expr} {value : Value}
    (halias : resolver.Aliases type typedef next) (h : Conforms resolver here type expr value) :
    Conforms resolver here next expr value := by
  cases h with
  | typedef step conforms => exact aliases_unique halias step ▸ conforms
  | enum type declared =>
    exact absurd halias (not_aliases_of_typedef? type (typedef?_of_enum? declared))
  | struct type declared =>
    exact absurd halias (not_aliases_of_typedef? type (typedef?_of_struct? declared))
  | bool => exact absurd halias (not_aliases_of_not_name fun _ => TypeRef.noConfusion)
  | i32 => exact absurd halias (not_aliases_of_not_name fun _ => TypeRef.noConfusion)
  | i64 => exact absurd halias (not_aliases_of_not_name fun _ => TypeRef.noConfusion)
  | string => exact absurd halias (not_aliases_of_not_name fun _ => TypeRef.noConfusion)
  | list => exact absurd halias (not_aliases_of_not_name fun _ => TypeRef.noConfusion)
  | map => exact absurd halias (not_aliases_of_not_name fun _ => TypeRef.noConfusion)

/-- A type and what it comes to have the same conforming expressions, with the same values. -/
theorem iff_of_chain {type last : LocatedType}
    (h : Relation.ReflTransGen resolver.AliasStep type last) (expr : Expr) (value : Value) :
    Conforms resolver here type expr value ↔ Conforms resolver here last expr value := by
  induction h with
  | refl => rfl
  | tail _ step ih =>
    obtain ⟨ref, halias⟩ := step
    exact ih.trans ⟨of_aliases halias, .typedef halias⟩

end Conforms
end Idl
