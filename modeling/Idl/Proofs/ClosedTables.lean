import Idl.Proofs.LinkedPrograms
import Idl.Proofs.NameResolution
import Idl.Proofs.Typedefs

/-!
# Closed tables

Tables that never lead out of the program: every tree has its symbols, names are bound to
declarations, and the components that are left over of a name are those of a name in the same file.
Whether the phases before have reported something does not matter.
-/
namespace Idl

/-! ### What a program holds -/

/-- The node, with all nodes below it, is one of the tree with the number. -/
def Program.Holds (program : Program) (number : Nat) (node : Node) : Prop :=
  ∃ tree, program.trees[number]? = some tree ∧ Node.Contains tree.document.toNode.nodes node

namespace Program

variable {program : Program} {number : Nat} {node part : Node}

theorem Holds.trans (h : program.Holds number node) (hpart : Node.Contains node.nodes part) :
    program.Holds number part := by
  obtain ⟨tree, htree, hcontains⟩ := h
  exact ⟨tree, htree, hcontains.trans hpart⟩

theorem Holds.elements {elements : List Expr} {span : Span}
    (h : program.Holds number (Expr.list elements span).toNode) :
    ∀ element ∈ elements, program.Holds number element.toNode := by
  obtain ⟨tree, htree, hcontains⟩ := h
  exact fun element helement => ⟨tree, htree, Expr.contains_elements hcontains element helement⟩

theorem Holds.entries {entries : List (Expr × Expr)} {span : Span}
    (h : program.Holds number (Expr.map entries span).toNode) :
    ∀ entry ∈ entries,
      program.Holds number entry.1.toNode ∧ program.Holds number entry.2.toNode := by
  obtain ⟨tree, htree, hcontains⟩ := h
  intro entry hentry
  obtain ⟨hkey, hvalue⟩ := Expr.contains_entries hcontains entry hentry
  exact ⟨⟨tree, htree, hkey⟩, tree, htree, hvalue⟩

theorem holds_of_contains {tree : SourceTree} (htree : program.trees[number]? = some tree)
    (h : Node.Contains tree.document.toNode.inner node) : program.Holds number node :=
  ⟨tree, htree, List.Subset.trans h (Node.inner_subset_nodes _)⟩

theorem holds_of_declaration? {ref : DeclRef} {declaration : Declaration}
    (h : program.declaration? ref = some declaration) :
    program.Holds ref.tree declaration.toNode := by
  obtain ⟨tree, htree, hget⟩ := Option.bind_eq_some_iff.1 h
  exact holds_of_contains htree (Document.contains_declaration (List.mem_of_getElem? hget))

end Program

/-! ### What symbols point at -/

namespace Scope

variable {α : Type} {name : α → Identifier} {kind : α → String} {symbol : Symbol}

theorem mem_declareAll {scope : Scope} {symbols : List Symbol}
    (h : symbol ∈ scope.declareAll symbols) : symbol ∈ scope ∨ symbol ∈ symbols := by
  induction symbols generalizing scope with
  | nil => exact .inl h
  | cons first symbols ih =>
    rcases ih h with h | h
    · rcases mem_value_declare h with h | rfl
      · exact .inl h
      · exact .inr List.mem_cons_self
    · exact .inr (List.mem_cons_of_mem _ h)

theorem exists_item_of_mem_placed {items : List α} (h : symbol ∈ placed name kind 0 items) :
    ∃ item, items[symbol.index]? = some item ∧ name item = symbol.name ∧
      kind item = symbol.kind := by
  obtain ⟨⟨item, index⟩, hitem, rfl⟩ := List.mem_map.1 h
  exact ⟨item, List.mem_zipIdx_iff_getElem?.1 hitem, rfl, rfl⟩

/-- In a scope made of the items of a list, symbols point at the items that they are made of. -/
theorem exists_item_of_mem_declareAll {items : List α}
    (h : symbol ∈ declareAll [] (placed name kind 0 items)) :
    ∃ item, items[symbol.index]? = some item ∧ name item = symbol.name ∧
      kind item = symbol.kind :=
  (mem_declareAll h).elim (fun hmem => absurd hmem List.not_mem_nil) exists_item_of_mem_placed

end Scope

/-- Each symbol points at a part of the file that has its name, and each list of members at a
declaration of their kind. -/
structure Symbols.PointInto (symbols : Symbols) (document : Document) : Prop where
  names : ∀ symbol ∈ symbols.names, ∃ declaration,
    document.declarations[symbol.index]? = some declaration ∧
      declaration.name = symbol.name ∧ declaration.kind = symbol.kind
  entries : ∀ index entries values, symbols.enum? index = some (entries, values) →
    ∃ decl, document.declarations[index]? = some (.enum decl) ∧
      ∀ symbol ∈ entries, ∃ entry, decl.entries[symbol.index]? = some entry ∧
        entry.name = symbol.name
  fields : ∀ index fields, symbols.struct? index = some fields →
    ∃ decl, document.declarations[index]? = some (.struct decl) ∧
      ∀ symbol ∈ fields, ∃ field, decl.fields[symbol.index]? = some field ∧
        field.name = symbol.name

theorem exists_enum_of_enterMembers {declaration : Declaration} {entries : Scope}
    {values : List (Option Int)} (h : (enterMembers declaration).value = .enum entries values) :
    ∃ decl, declaration = .enum decl ∧ ∀ symbol ∈ entries, ∃ entry,
      decl.entries[symbol.index]? = some entry ∧ entry.name = symbol.name := by
  cases declaration with
  | enum decl =>
    refine ⟨decl, rfl, fun symbol hsymbol => ?_⟩
    obtain ⟨rfl, -⟩ := Members.enum.inj h
    rw [(EnumProgress.value_foldlM_enter ⟨[], [], 0⟩ 0 decl.entries).1] at hsymbol
    obtain ⟨entry, hentry, hname, -⟩ := Scope.exists_item_of_mem_declareAll hsymbol
    exact ⟨entry, hentry, hname⟩
  | constant | typedef | struct | service => exact Members.noConfusion h

theorem exists_struct_of_enterMembers {declaration : Declaration} {fields : Scope}
    (h : (enterMembers declaration).value = .struct fields) :
    ∃ decl, declaration = .struct decl ∧ ∀ symbol ∈ fields, ∃ field,
      decl.fields[symbol.index]? = some field ∧ field.name = symbol.name := by
  cases declaration with
  | struct decl =>
    refine ⟨decl, rfl, fun symbol hsymbol => ?_⟩
    obtain rfl := Members.struct.inj h
    rw [Scope.ofNames_eq_placed, Reporting.value_foldlM] at hsymbol
    obtain ⟨name, hname, rfl, -⟩ := Scope.exists_item_of_mem_declareAll hsymbol
    rw [List.getElem?_map] at hname
    exact Option.map_eq_some_iff.1 hname
  | constant | typedef | enum | service => exact Members.noConfusion h

theorem pointInto_enterSymbols (document : Document) :
    (enterSymbols document).value.PointInto document where
  names symbol hsymbol := by
    rw [enterSymbols_value] at hsymbol
    exact Scope.exists_item_of_mem_declareAll hsymbol
  entries index entries values h := by
    unfold Symbols.enum? at h
    split at h
    · next hmembers =>
      obtain ⟨rfl, rfl⟩ := Prod.mk.inj (Option.some.inj h)
      rw [members_enterSymbols] at hmembers
      obtain ⟨declaration, hget, hvalue⟩ := Option.map_eq_some_iff.1 hmembers
      obtain ⟨decl, rfl, hentries⟩ := exists_enum_of_enterMembers hvalue
      exact ⟨decl, hget, hentries⟩
    · cases h
  fields index fields h := by
    unfold Symbols.struct? at h
    split at h
    · next hmembers =>
      obtain rfl := Option.some.inj h
      rw [members_enterSymbols] at hmembers
      obtain ⟨declaration, hget, hvalue⟩ := Option.map_eq_some_iff.1 hmembers
      obtain ⟨decl, rfl, hfields⟩ := exists_struct_of_enterMembers hvalue
      exact ⟨decl, hget, hfields⟩
    · cases h

/-! ### Tables -/

/-- Following the tables leads to nodes and declarations of the program. -/
structure Resolver.IsClosed (resolver : Resolver) : Prop where
  symbols : resolver.program.HasSymbols resolver.symbols
  declared : ∀ number name binding, resolver.binding? number name = some binding →
    ∃ declaration, resolver.declaration? binding.target = some declaration
  spelled : ∀ number name binding, resolver.binding? number name = some binding →
    ∀ identifier ∈ binding.tail, resolver.program.Holds number identifier.toNode

namespace Resolver

variable {resolver : Resolver} {ref : DeclRef}

theorem lookup_symbols (hsymbols : resolver.program.HasSymbols resolver.symbols)
    {declaration : Declaration} (h : resolver.declaration? ref = some declaration) :
    ∃ symbols, resolver.symbols.lookup ref.tree = some symbols ∧
      symbols.members[ref.index]? = some (enterMembers declaration).value := by
  obtain ⟨tree, htree, hget⟩ := Option.bind_eq_some_iff.1 h
  exact ⟨_, hsymbols ref.tree tree htree, by rw [members_enterSymbols, hget, Option.map_some]⟩

/-- The fields that are found for a struct are those that it declares. -/
theorem getElem?_of_structMembers? (hsymbols : resolver.program.HasSymbols resolver.symbols)
    {decl : StructDecl} (h : resolver.declaration? ref = some (.struct decl)) {fields : Scope}
    (hfields : resolver.structMembers? ref = some fields) {name : String} {index : Nat}
    (hindex : fields.lookup name = some index) : ∃ field, decl.fields[index]? = some field := by
  obtain ⟨symbols, hlookup, hmembers⟩ := lookup_symbols hsymbols h
  obtain ⟨own, hown, hplaces⟩ := lookup_enterStruct decl
  have hmembers : symbols.members[ref.index]? = some (.struct own) := hown ▸ hmembers
  rw [structMembers?, hlookup, Option.bind_some, Symbols.struct?, hmembers] at hfields
  obtain rfl := Option.some.inj hfields
  obtain ⟨hlt, -⟩ := List.findIdx?_eq_some_iff_getElem.1 ((hplaces name).symm.trans hindex)
  exact ⟨decl.fields[index], List.getElem?_eq_getElem hlt⟩

theorem holds_of_typedef? {type : LocatedType} (h : resolver.typedef? ref = some type) :
    resolver.program.Holds type.tree type.type.toNode := by
  obtain ⟨decl, hdecl, rfl⟩ := (typedef?_eq_some_iff ref type).1 h
  exact (Program.holds_of_declaration? hdecl).trans decl.contains_type

/-- What a type comes to lies in the tree that it is said to lie in. -/
theorem holds_of_unwrap {type : LocatedType}
    (htype : resolver.program.Holds type.tree type.type.toNode) {unwrapped : Unwrapped}
    (h : resolver.unwrap type = .ok unwrapped) :
    resolver.program.Holds unwrapped.type.tree unwrapped.type.type.toNode := by
  rcases (endsChain_of_unwrapFrom h).chain.cases_tail with heq | ⟨part, -, typedef, halias⟩
  · exact heq ▸ htype
  · exact holds_of_typedef? halias.typedef?_eq

theorem declaration?_of_unwrap (hclosed : resolver.IsClosed) {type : LocatedType}
    {unwrapped : Unwrapped} (h : resolver.unwrap type = .ok unwrapped)
    (href : unwrapped.target = some ref) :
    ∃ declaration, resolver.declaration? ref = some declaration := by
  obtain ⟨name, tail, -, hbinding⟩ := (endsChain_of_unwrapFrom h).target ref href
  exact hclosed.declared _ name ⟨ref, tail⟩ hbinding

end Resolver

/-! ### The tables of a program -/

theorem SourceTree.Declares.declaration? {program : Program} {number : Nat} {tree : SourceTree}
    (htree : program.trees[number]? = some tree) {name : String} {index : Nat}
    (h : tree.Declares name index) :
    ∃ declaration, program.declaration? ⟨number, index⟩ = some declaration := by
  obtain ⟨declaration, hget, -⟩ := h.named
  exact ⟨declaration, Option.bind_eq_some_iff.2 ⟨tree, htree, hget⟩⟩

section

variable {program : Program} {symbols : Table Symbols} {number : Nat} {tree : SourceTree}

/-- A name is bound to a declaration. -/
theorem exists_declaration?_of_resolveName (hread : program.IsRead)
    (hsymbols : program.HasSymbols symbols) (htree : program.trees[number]? = some tree)
    {name : Name} {binding : Binding}
    (h : (resolveName symbols number tree name).binding? = some binding) :
    ∃ declaration, program.declaration? binding.target = some declaration := by
  have hresolves := resolves_resolveName hread hsymbols htree name
  generalize name.path = path at hresolves
  rw [← Resolution.toOption_outcome name] at h
  cases houtcome : (resolveName symbols number tree name).outcome name with
  | error report =>
    rw [houtcome] at h
    cases h
  | ok found =>
    rw [houtcome] at h hresolves
    obtain rfl : found = binding := Option.some.inj h
    cases hresolves with
    | here declared => exact declared.declaration? htree
    | included _ _ leads declared => exact declared.declaration? leads

theorem isClosed_nil (hsymbols : program.HasSymbols symbols) :
    Resolver.IsClosed ⟨program, symbols, []⟩ where
  symbols := hsymbols
  declared _ _ _ h := by cases h
  spelled _ _ _ h := by cases h

/-- Bindings that come from binding the trees are closed. -/
theorem isClosed_of_bindNames (hread : program.IsRead) (hsymbols : program.HasSymbols symbols)
    {bindings : Table Bindings}
    (h : ∀ number found, bindings.lookup number = some found →
      ∃ tree, program.trees[number]? = some tree ∧ found = (bindNames symbols number tree).value) :
    Resolver.IsClosed ⟨program, symbols, bindings⟩ where
  symbols := hsymbols
  declared number name binding hbinding := by
    obtain ⟨found, hfound, hlookup⟩ := Option.bind_eq_some_iff.1 hbinding
    obtain ⟨tree, htree, rfl⟩ := h number found hfound
    obtain ⟨reference, -, hresolve⟩ := exists_reference_of_lookup_bindNames hlookup
    exact exists_declaration?_of_resolveName hread hsymbols htree hresolve
  spelled number name binding hbinding identifier hidentifier := by
    obtain ⟨found, hfound, hlookup⟩ := Option.bind_eq_some_iff.1 hbinding
    obtain ⟨tree, htree, rfl⟩ := h number found hfound
    obtain ⟨reference, hreference, hsubset⟩ := tail_of_lookup_bindNames hlookup
    exact Program.holds_of_contains htree ((Document.contains_reference hreference).trans
      (Name.contains_identifier (hsubset hidentifier)))

end

end Idl
