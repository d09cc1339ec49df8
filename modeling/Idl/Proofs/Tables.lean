import Idl.Check.Coercion
import Idl.Proofs.Bindings
import Idl.Proofs.Symbols

/-!
# Tables without problems

A resolver whose tables are those of its trees, made without a report. Then every name of a tree
has a binding, and the members of enums and structs can be looked up by name.
-/
namespace Idl.Resolver

/-- The tables of the resolver are those of its trees, and making them reported nothing. -/
structure IsClean (resolver : Resolver) : Prop where
  symbols : ∀ number, resolver.symbols.lookup number =
    resolver.program.trees[number]?.map fun tree => (enterSymbols tree.document).value
  bindings : ∀ number, resolver.bindings.lookup number =
    resolver.program.trees[number]?.map fun tree => (bindNames resolver.symbols number tree).value
  entered : ∀ tree ∈ resolver.program.trees, (enterSymbols tree.document).reports = []
  bound : ∀ number tree, resolver.program.trees[number]? = some tree →
    (bindNames resolver.symbols number tree).reports = []

/-- The program of one file that includes no other, with its tables. -/
def ofTree (tree : SourceTree) : Resolver :=
  let symbols : Table Symbols := [(0, (enterSymbols tree.document).value)]
  { program := ⟨[tree], 0⟩
    symbols
    bindings := [(0, (bindNames symbols 0 tree).value)] }

theorem forall_tree_ofTree {tree : SourceTree} {p : Nat → SourceTree → Prop} (h : p 0 tree)
    (number : Nat) (other : SourceTree)
    (hother : (ofTree tree).program.trees[number]? = some other) : p number other := by
  match number with
  | 0 => exact Option.some.inj hother ▸ h
  | _ + 1 => cases hother

theorem isClean_ofTree {tree : SourceTree} (hentered : (enterSymbols tree.document).reports = [])
    (hbound : (bindNames (ofTree tree).symbols 0 tree).reports = []) : (ofTree tree).IsClean where
  symbols number := by
    match number with
    | 0 => rfl
    | _ + 1 => rfl
  bindings number := by
    match number with
    | 0 => rfl
    | _ + 1 => rfl
  entered other hother := List.mem_singleton.1 hother ▸ hentered
  bound := forall_tree_ofTree hbound

variable {resolver : Resolver}

theorem isSome_binding? (hclean : resolver.IsClean) {number : Nat} {tree : SourceTree}
    (htree : resolver.program.trees[number]? = some tree) {name : Name}
    (hname : name ∈ tree.document.references) : (resolver.binding? number name).isSome := by
  rw [binding?, hclean.bindings, htree]
  exact isSome_lookup_bindNames (hclean.bound number tree htree) hname

theorem members_of_declaration? (hclean : resolver.IsClean) {ref : DeclRef}
    {declaration : Declaration} (h : resolver.declaration? ref = some declaration) :
    (enterMembers declaration).Silent ∧ (resolver.symbols.lookup ref.tree).bind
      (·.members[ref.index]?) = some (enterMembers declaration).value := by
  obtain ⟨tree, htree, hget⟩ := Option.bind_eq_some_iff.1 h
  constructor
  · exact silent_enterMembers tree.document
      (hclean.entered tree (List.mem_of_getElem? htree)) (List.mem_of_getElem? hget)
  · rw [hclean.symbols, htree]
    change (enterSymbols tree.document).value.members[ref.index]? = _
    rw [members_enterSymbols, hget]
    rfl

theorem enum?_eq_some_iff (ref : DeclRef) (decl : EnumDecl) :
    resolver.enum? ref = some decl ↔ resolver.declaration? ref = some (.enum decl) := by
  unfold enum?
  split
  · next other hother => simp [hother]
  · next h => simpa using h decl

theorem struct?_eq_some_iff (ref : DeclRef) (decl : StructDecl) :
    resolver.struct? ref = some decl ↔ resolver.declaration? ref = some (.struct decl) := by
  unfold struct?
  split
  · next other hother => simp [hother]
  · next h => simpa using h decl

theorem enum?_of_getElem? {symbols : Symbols} {index : Nat} {entries : Scope}
    {values : List (Option Int)} (h : symbols.members[index]? = some (.enum entries values)) :
    symbols.enum? index = some (entries, values) := by
  rw [Symbols.enum?, h]

theorem struct?_of_getElem? {symbols : Symbols} {index : Nat} {fields : Scope}
    (h : symbols.members[index]? = some (.struct fields)) :
    symbols.struct? index = some fields := by
  rw [Symbols.struct?, h]

/-- An entry of a declared enum is found under its name, with its number. -/
theorem enumMembers?_lookup (hclean : resolver.IsClean) {ref : DeclRef} {decl : EnumDecl}
    (h : resolver.enum? ref = some decl) (name : String) :
    ((resolver.enumMembers? ref).bind fun (entries, values) =>
        (entries.lookup name).map fun index => values[index]?.join) =
      (decl.numbered.find? (·.1.name.text == name)).map fun numbered => some numbered.2 := by
  obtain ⟨hsilent, hmembers⟩ :=
    members_of_declaration? hclean ((enum?_eq_some_iff ref decl).1 h)
  obtain ⟨entries, values, hvalue, hlookup⟩ := enterEnum_of_silent decl hsilent
  obtain ⟨symbols, hsymbols, hget⟩ := Option.bind_eq_some_iff.1 hmembers
  have henum : resolver.enumMembers? ref = some (entries, values) := by
    rw [enumMembers?, hsymbols, Option.bind_some]
    exact enum?_of_getElem? (hget.trans (congrArg some hvalue))
  rw [henum]
  exact hlookup name

theorem nodup_entries (hclean : resolver.IsClean) {ref : DeclRef} {decl : EnumDecl}
    (h : resolver.enum? ref = some decl) :
    (decl.numbered.map fun numbered => numbered.1.name.text).Nodup :=
  enterEnum_nodup decl (members_of_declaration? hclean ((enum?_eq_some_iff ref decl).1 h)).1

/-- The fields of a declared struct are found under their names. -/
theorem structMembers?_lookup (hclean : resolver.IsClean) {ref : DeclRef} {decl : StructDecl}
    (h : resolver.struct? ref = some decl) :
    ∃ fields, resolver.structMembers? ref = some fields ∧
      ∀ name, fields.lookup name = decl.fields.findIdx? (·.name.text == name) := by
  obtain ⟨-, hmembers⟩ := members_of_declaration? hclean ((struct?_eq_some_iff ref decl).1 h)
  obtain ⟨symbols, hsymbols, hget⟩ := Option.bind_eq_some_iff.1 hmembers
  obtain ⟨fields, hvalue, hlookup⟩ := lookup_enterStruct decl
  refine ⟨fields, ?_, hlookup⟩
  rw [structMembers?, hsymbols, Option.bind_some]
  exact struct?_of_getElem? (hget.trans (congrArg some hvalue))

theorem nodup_fields (hclean : resolver.IsClean) {ref : DeclRef} {decl : StructDecl}
    (h : resolver.struct? ref = some decl) : (decl.fields.map (·.name.text)).Nodup :=
  (silent_enterStruct_iff decl).1
    (members_of_declaration? hclean ((struct?_eq_some_iff ref decl).1 h)).1

end Idl.Resolver
