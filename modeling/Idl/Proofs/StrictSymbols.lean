import Idl.Proofs.StrictLookups

/-!
# Strict entering and binding

Strict versions of the phases that make the tables. Entering symbols looks up every node that it
goes through, and the name of the first declaration whenever a name is declared again. Binding needs
the symbols of the tree, and those of an included tree when a name leads there.
-/
namespace Idl

/-- The node at a place of a list is one of the tree, and the name is among its parts. -/
def Program.HoldsAt (program : Program) (number : Nat) (nodes : List Node) (index : Nat)
    (name : Identifier) : Prop :=
  ∃ node, nodes[index]? = some node ∧ program.Holds number node ∧
    Node.Contains node.nodes name.toNode

theorem Program.HoldsAt.name {program : Program} {number : Nat} {nodes : List Node} {index : Nat}
    {name : Identifier} (h : program.HoldsAt number nodes index name) :
    program.Holds number name.toNode := by
  obtain ⟨node, -, hnode, hname⟩ := h
  exact hnode.trans hname

/-- The names in a scope are those of nodes of a tree, at the places that the scope keeps. -/
def Scope.IsHeld (program : Program) (number : Nat) (nodes : List Node) (scope : Scope) : Prop :=
  ∀ symbol ∈ scope, program.HoldsAt number nodes symbol.index symbol.name

namespace Scope

variable {program : Program} {number : Nat} {nodes : List Node}

theorem IsHeld.declare {scope : Scope} {symbol : Symbol}
    (hscope : scope.IsHeld program number nodes)
    (h : program.HoldsAt number nodes symbol.index symbol.name) :
    (scope.declare symbol).value.IsHeld program number nodes := by
  intro other hother
  rcases mem_value_declare hother with hother | rfl
  · exact hscope other hother
  · exact h

theorem isHeld_nil : IsHeld program number nodes [] :=
  fun _ hmem => absurd hmem List.not_mem_nil

end Scope

namespace Strict

/-! ### Entering symbols -/

section

variable (program : Program) (number : Nat)

/-- Looks up what declaring a name reads: the name, and the first declaration of it among the
nodes of the scope. -/
def openDeclared (nodes : List Node) (scope : Scope) (symbol : Symbol) : Strict Unit := do
  openNode program number symbol.name.toNode
  if let some first := scope.find? symbol.name.text then
    openNode program number (← demand (.place number first.index) nodes[first.index]?)
    openNode program number first.name.toNode

def declare (nodes : List Node) (scope : Scope) (symbol : Symbol) : Strict Scope := do
  openDeclared program number nodes scope symbol
  scope.declare symbol

/-- The scope of the names of nodes that are all declared as the same kind of thing. -/
def ofNames (kind : String) (nodes : List Node) (names : List Identifier) : Strict Scope := do
  nodes.forM (openNode program number)
  names.zipIdx.foldlM
    (fun scope (name, index) => declare program number nodes scope ⟨name, kind, index⟩) []

def enterEntry (nodes : List Node) (progress : EnumProgress) (entry : EnumEntry) (index : Nat) :
    Strict EnumProgress := do
  openNode program number entry.toNode
  if let some literal := entry.value then
    openNode program number literal.toNode
  openDeclared program number nodes progress.scope ⟨entry.name, "enum entry", index⟩
  progress.enter entry index

def enterEnum (decl : EnumDecl) : Strict Members := do
  let nodes := decl.entries.map EnumEntry.toNode
  let progress ← decl.entries.zipIdx.foldlM
    (fun progress (entry, index) => enterEntry program number nodes progress entry index)
    ⟨[], [], 0⟩
  return .enum progress.scope progress.values

def enterStruct (decl : StructDecl) : Strict Members := do
  return .struct (← ofNames program number "field" (decl.fields.map Field.toNode)
    (decl.fields.map (·.name)))

def enterService (decl : ServiceDecl) : Strict Members := do
  let nodes := decl.methods.map Method.toNode
  let _ ← decl.methods.zipIdx.foldlM (fun scope (method, index) => do
    openNode program number method.toNode
    let scope ← declare program number nodes scope ⟨method.name, "method", index⟩
    let arguments := method.arguments ++ method.throws
    let _ ← ofNames program number "argument" (arguments.map Argument.toNode)
      (arguments.map (·.name))
    return scope) []
  return .none

def enterMembers : Declaration → Strict Members
  | .enum decl => enterEnum program number decl
  | .struct decl => enterStruct program number decl
  | .service decl => enterService program number decl
  | .typedef _ => return .none
  | .constant _ => return .none

def enterSymbols (document : Document) : Strict Symbols := do
  let nodes := document.declarations.map Declaration.toNode
  document.declarations.zipIdx.foldlM (fun symbols (declaration, index) => do
    openNode program number declaration.toNode
    let names ← declare program number nodes symbols.names
      ⟨declaration.name, declaration.kind, index⟩
    let members ← enterMembers program number declaration
    return ⟨names, symbols.members ++ [members]⟩) ⟨[], []⟩

end

section

variable {program : Program} {number : Nat} {nodes : List Node} {scope : Scope} {symbol : Symbol}

theorem openDeclared_eq (hscope : scope.IsHeld program number nodes)
    (h : program.HoldsAt number nodes symbol.index symbol.name) :
    openDeclared program number nodes scope symbol = pure () := by
  rw [openDeclared, openNode_eq h.name, pure_bind]
  split
  · next first hfirst =>
    obtain ⟨node, hget, hnode, hname⟩ := hscope first (List.mem_of_find?_eq_some hfirst)
    rw [demand_eq hget, pure_bind, openNode_eq hnode, pure_bind, openNode_eq (hnode.trans hname)]
  · rfl

theorem declare_eq (hscope : scope.IsHeld program number nodes)
    (h : program.HoldsAt number nodes symbol.index symbol.name) :
    declare program number nodes scope symbol = liftM (scope.declare symbol) := by
  rw [declare, openDeclared_eq hscope h, pure_bind]

/-- The nodes of a list of parts hold the names of these parts at their places. -/
theorem holdsAt_of_mem_zipIdx {α : Type} {toNode : α → Node} {name : α → Identifier}
    {items : List α} (hitems : ∀ item ∈ items, program.Holds number (toNode item))
    (hname : ∀ item, Node.Contains (toNode item).nodes (name item).toNode) {item : α × Nat}
    (h : item ∈ items.zipIdx) :
    program.HoldsAt number (items.map toNode) item.2 (name item.1) := by
  have hget := List.mem_zipIdx_iff_getElem?.1 h
  exact ⟨toNode item.1, by rw [List.getElem?_map, hget, Option.map_some],
    hitems item.1 (List.mem_of_getElem? hget), hname item.1⟩

theorem ofNames_eq {α : Type} (kind : String) {toNode : α → Node} {name : α → Identifier}
    {items : List α} (hitems : ∀ item ∈ items, program.Holds number (toNode item))
    (hname : ∀ item, Node.Contains (toNode item).nodes (name item).toNode) :
    ofNames program number kind (items.map toNode) (items.map name) =
      liftM (Scope.ofNames kind (items.map name)) := by
  have hopen : (items.map toNode).forM (openNode program number) = pure () := by
    refine forM_eq_pure fun node hnode => ?_
    obtain ⟨item, hitem, rfl⟩ := List.mem_map.1 hnode
    exact openNode_eq (hitems item hitem)
  rw [ofNames, hopen, pure_bind]
  refine foldlM_eq_liftM_of_invariant (Scope.IsHeld program number (items.map toNode))
    (fun entry hentry scope hscope => ?_) Scope.isHeld_nil
  have hplace : program.HoldsAt number (items.map toNode) entry.2 entry.1 := by
    rw [List.zipIdx_map] at hentry
    obtain ⟨item, hitem, rfl⟩ := List.mem_map.1 hentry
    exact holdsAt_of_mem_zipIdx hitems hname hitem
  exact ⟨declare_eq hscope hplace, hscope.declare hplace⟩

theorem enterEntry_eq {progress : EnumProgress}
    (hscope : progress.scope.IsHeld program number nodes) {entry : EnumEntry} {index : Nat}
    (h : program.Holds number entry.toNode)
    (hplace : program.HoldsAt number nodes index entry.name) :
    enterEntry program number nodes progress entry index = liftM (progress.enter entry index) := by
  rw [enterEntry, openNode_eq h, pure_bind]
  split
  · next literal hliteral =>
    rw [openNode_eq (h.trans (EnumEntry.contains_value hliteral)), pure_bind,
      openDeclared_eq hscope hplace, pure_bind]
  · rw [openDeclared_eq hscope hplace, pure_bind]

theorem isHeld_enter {progress : EnumProgress}
    (hscope : progress.scope.IsHeld program number nodes) {entry : EnumEntry} {index : Nat}
    (hplace : program.HoldsAt number nodes index entry.name) :
    (progress.enter entry index).value.scope.IsHeld program number nodes := by
  rw [EnumProgress.value_enter]
  exact hscope.declare hplace

theorem enterEnum_eq {decl : EnumDecl} (h : program.Holds number (Declaration.enum decl).toNode) :
    enterEnum program number decl = liftM (Idl.enterEnum decl) := by
  have hentries : ∀ entry ∈ decl.entries, program.Holds number entry.toNode :=
    fun entry hentry => h.trans (EnumDecl.contains_entry hentry)
  refine bind_eq_liftM (foldlM_eq_liftM_of_invariant
    (fun progress : EnumProgress =>
      progress.scope.IsHeld program number (decl.entries.map EnumEntry.toNode))
    (fun item hitem progress hscope => ?_) Scope.isHeld_nil) (liftM_pure _).symm
  have hentry := hentries item.1 (List.fst_mem_of_mem_zipIdx hitem)
  have hplace := holdsAt_of_mem_zipIdx hentries EnumEntry.contains_name hitem
  exact ⟨enterEntry_eq hscope hentry hplace, isHeld_enter hscope hplace⟩

theorem enterStruct_eq {decl : StructDecl}
    (h : program.Holds number (Declaration.struct decl).toNode) :
    enterStruct program number decl = liftM (Idl.enterStruct decl) :=
  bind_eq_liftM (ofNames_eq "field"
    (fun _ hfield => h.trans (StructDecl.contains_field hfield)) Field.contains_name)
    (liftM_pure _).symm

theorem enterService_eq {decl : ServiceDecl}
    (h : program.Holds number (Declaration.service decl).toNode) :
    enterService program number decl = liftM (Idl.enterService decl) := by
  have hmethods : ∀ method ∈ decl.methods, program.Holds number method.toNode :=
    fun method hmethod => h.trans (ServiceDecl.contains_method hmethod)
  refine bind_eq_liftM (foldlM_eq_liftM_of_invariant
    (Scope.IsHeld program number (decl.methods.map Method.toNode))
    (fun item hitem scope hscope => ?_) Scope.isHeld_nil) (liftM_pure _).symm
  have hplace := holdsAt_of_mem_zipIdx hmethods Method.contains_name hitem
  obtain ⟨method, index⟩ := item
  have hmethod := hmethods method (List.fst_mem_of_mem_zipIdx hitem)
  refine ⟨?_, hscope.declare hplace⟩
  simp only
  rw [openNode_eq hmethod, pure_bind]
  refine bind_eq_liftM (declare_eq hscope hplace) ?_
  refine bind_eq_liftM (ofNames_eq "argument" (fun argument hargument => ?_)
    Argument.contains_name) (liftM_pure _).symm
  rcases List.mem_append.1 hargument with hargument | hargument
  · exact hmethod.trans (Method.contains_argument hargument)
  · exact hmethod.trans (Method.contains_throws hargument)

theorem enterMembers_eq {declaration : Declaration}
    (h : program.Holds number declaration.toNode) :
    enterMembers program number declaration = liftM (Idl.enterMembers declaration) := by
  cases declaration with
  | enum decl => exact enterEnum_eq h
  | struct decl => exact enterStruct_eq h
  | service decl => exact enterService_eq h
  | typedef decl => exact (liftM_pure _).symm
  | constant decl => exact (liftM_pure _).symm

theorem enterSymbols_eq {tree : SourceTree} (htree : program.trees[number]? = some tree) :
    enterSymbols program number tree.document = liftM (Idl.enterSymbols tree.document) := by
  have hdeclarations : ∀ declaration ∈ tree.document.declarations,
      program.Holds number declaration.toNode := fun declaration hdeclaration =>
    Program.holds_of_contains htree (Document.contains_declaration hdeclaration)
  refine foldlM_eq_liftM_of_invariant
    (fun symbols : Symbols => symbols.names.IsHeld program number
      (tree.document.declarations.map Declaration.toNode))
    (fun item hitem symbols hscope => ?_) Scope.isHeld_nil
  have hplace := holdsAt_of_mem_zipIdx hdeclarations Declaration.contains_name hitem
  obtain ⟨declaration, index⟩ := item
  have hdeclaration := hdeclarations declaration (List.fst_mem_of_mem_zipIdx hitem)
  refine ⟨?_, hscope.declare hplace⟩
  simp only
  rw [openNode_eq hdeclaration, pure_bind]
  refine bind_eq_liftM (declare_eq hscope hplace) ?_
  exact bind_eq_liftM (enterMembers_eq hdeclaration) (liftM_pure _).symm

end

/-! ### Binding names -/

section

variable (program : Program) (symbolTable : Table Symbols) (number : Nat) (tree : SourceTree)

/-- Looks up what resolving a name reads: the symbols of the tree and, if the name is not declared
there, those of the tree that it leads to. -/
def openResolved (name : Name) : Strict Unit := do
  openAll program number name.toNode
  let own ← symbols symbolTable number
  if own.lookup name.head.text = none then
    if let some edge := tree.include? name.head.text then
      if name.tail ≠ [] then
        discard (symbols symbolTable edge.tree)

def bindName (bindings : Bindings) (name : Name) : Strict Bindings := do
  openResolved program symbolTable number tree name
  Idl.bindName symbolTable number tree bindings name

/-- The bindings of a tree. Every node of the file is looked up on the way to the names. -/
def bindNames : Strict Bindings := do
  openAll program number tree.document.toNode
  tree.document.references.foldlM (bindName program symbolTable number tree) .empty

end

section

variable {program : Program} {symbolTable : Table Symbols} {number : Nat} {tree : SourceTree}

theorem openResolved_eq (hread : program.IsRead) (hsymbols : program.HasSymbols symbolTable)
    (htree : program.trees[number]? = some tree) {name : Name}
    (hname : program.Holds number name.toNode) :
    openResolved program symbolTable number tree name = pure () := by
  rw [openResolved, openAll_eq hname, pure_bind, symbols_eq (hsymbols number tree htree),
    pure_bind]
  split
  · split
    · next edge hedge =>
      have hlt := hread.linked tree (List.mem_of_getElem? htree) edge
        (List.mem_of_find?_eq_some hedge)
      split
      · rw [symbols_eq (hsymbols edge.tree _ (List.getElem?_eq_getElem hlt))]
        rfl
      · rfl
    · rfl
  · rfl

theorem bindNames_eq (hread : program.IsRead) (hsymbols : program.HasSymbols symbolTable)
    (htree : program.trees[number]? = some tree) :
    bindNames program symbolTable number tree = liftM (Idl.bindNames symbolTable number tree) := by
  rw [bindNames, openAll_eq ⟨tree, htree, List.Subset.refl _⟩, pure_bind]
  refine foldlM_eq_liftM (fun name hname bindings => ?_) Bindings.empty
  have hheld := Program.holds_of_contains htree (Document.contains_reference hname)
  rw [bindName, openResolved_eq hread hsymbols htree hheld, pure_bind]

end

end Strict
end Idl
