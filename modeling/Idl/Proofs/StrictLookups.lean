import Idl.Proofs.ClosedTables

/-!
# Strict lookups

The phases look things up by keys that come from elsewhere: the trees of a program by their numbers,
declarations by their places, nodes of a file in the nodes of that file, and tables by tree. A
strict lookup that finds nothing breaks off. Strict versions of the phases are made with strict
lookups, and shown to do what the phases do.
-/
namespace Idl

/-! ### Nodes -/

mutual

def Node.decEq : (node other : Node) → Decidable (node = other)
  | .leaf label span text, .leaf label' span' text' =>
    decidable_of_iff (label = label' ∧ span = span' ∧ text = text')
      (Node.leaf.injEq ..).to_iff.symm
  | .branch label span parts, .branch label' span' parts' =>
    have := Node.decEqParts parts parts'
    decidable_of_iff (label = label' ∧ span = span' ∧ parts = parts')
      (Node.branch.injEq ..).to_iff.symm
  | .leaf _ _ _, .branch _ _ _ => isFalse nofun
  | .branch _ _ _, .leaf _ _ _ => isFalse nofun

def Node.decEqPart : (part other : Part) → Decidable (part = other)
  | .word name text, .word name' text' =>
    decidable_of_iff (name = name' ∧ text = text') (Part.word.injEq ..).to_iff.symm
  | .one name node, .one name' node' =>
    have := Node.decEq node node'
    decidable_of_iff (name = name' ∧ node = node') (Part.one.injEq ..).to_iff.symm
  | .absent name, .absent name' =>
    decidable_of_iff (name = name') (Part.absent.injEq ..).to_iff.symm
  | .many name nodes, .many name' nodes' =>
    have := Node.decEqAll nodes nodes'
    decidable_of_iff (name = name' ∧ nodes = nodes') (Part.many.injEq ..).to_iff.symm
  | .word _ _, .one _ _ | .word _ _, .absent _ | .word _ _, .many _ _ => isFalse nofun
  | .one _ _, .word _ _ | .one _ _, .absent _ | .one _ _, .many _ _ => isFalse nofun
  | .absent _, .word _ _ | .absent _, .one _ _ | .absent _, .many _ _ => isFalse nofun
  | .many _ _, .word _ _ | .many _ _, .one _ _ | .many _ _, .absent _ => isFalse nofun

def Node.decEqParts : (parts others : List Part) → Decidable (parts = others)
  | [], [] => isTrue rfl
  | part :: parts, other :: others =>
    have := Node.decEqPart part other
    have := Node.decEqParts parts others
    decidable_of_iff (part = other ∧ parts = others) (List.cons.injEq ..).to_iff.symm
  | [], _ :: _ => isFalse nofun
  | _ :: _, [] => isFalse nofun

def Node.decEqAll : (nodes others : List Node) → Decidable (nodes = others)
  | [], [] => isTrue rfl
  | node :: nodes, other :: others =>
    have := Node.decEq node other
    have := Node.decEqAll nodes others
    decidable_of_iff (node = other ∧ nodes = others) (List.cons.injEq ..).to_iff.symm
  | [], _ :: _ => isFalse nofun
  | _ :: _, [] => isFalse nofun

end

instance : DecidableEq Node :=
  Node.decEq

/-! ### Lookups -/

/-- Why a computation has broken off: a lookup has found nothing, or a search has no end. -/
inductive Panic where
  | tree (number : Nat)
  /-- The tree has no such node. -/
  | node (number : Nat) (node : Node)
  | declaration (ref : DeclRef)
  | field (struct : DeclRef) (index : Nat)
  /-- The scope has no declaration at the place. -/
  | place (number index : Nat)
  /-- No symbols were entered for the tree. -/
  | symbols (number : Nat)
  /-- No bindings were entered for the tree. -/
  | bindings (number : Nat)
  /-- The search for the struct goes on forever. -/
  | endless (struct : DeclRef)

/-- Computations with reports that may break off. -/
abbrev Strict := ExceptT Panic Reporting

namespace Strict

variable {α β γ : Type}

/-- What was looked up must have been found. -/
def demand (panic : Panic) (found : Option α) : Strict α :=
  match found with
  | some a => pure a
  | none => throw panic

theorem demand_eq {panic : Panic} {found : Option α} {a : α} (h : found = some a) :
    demand panic found = pure a := by
  subst h
  rfl

/-- The tree with a number. -/
def tree (program : Program) (number : Nat) : Strict SourceTree :=
  demand (.tree number) program.trees[number]?

/-- Looks up a node in the tree with a number. -/
def openNode (program : Program) (number : Nat) (node : Node) : Strict Unit := do
  let tree ← tree program number
  unless node ∈ tree.document.toNode.nodes do
    throw (.node number node)

/-- Looks up a node and all nodes below it. -/
def openAll (program : Program) (number : Nat) (node : Node) : Strict Unit :=
  node.nodes.forM (openNode program number)

def declaration (program : Program) (ref : DeclRef) : Strict Declaration :=
  demand (.declaration ref) (program.declaration? ref)

/-- The symbols of a tree. -/
def symbols (table : Table Symbols) (number : Nat) : Strict Symbols :=
  demand (.symbols number) (table.lookup number)

/-! ### Steps and loops -/

theorem run_liftM (x : Reporting α) :
    (liftM x : Strict α).run = ⟨.ok x.value, x.reports⟩ := by
  change (⟨.ok x.value, x.reports ++ []⟩ : Reporting (Except Panic α)) = _
  rw [List.append_nil]

/-- A step that finds what it looks up, before steps that do so after its result. -/
theorem bind_eq_liftM {step : Strict α} {next : α → Strict β} {x : Reporting α}
    {f : α → Reporting β} (hstep : step = liftM x) (hnext : next x.value = liftM (f x.value)) :
    step >>= next = liftM (x >>= f) := by
  subst hstep
  apply ExceptT.ext
  rw [run_liftM]
  change (⟨(next x.value).run.value, (x.reports ++ []) ++ (next x.value).run.reports⟩ :
    Reporting (Except Panic β)) = _
  rw [hnext, run_liftM, List.append_nil]
  rfl

/-- A loop whose steps keep an invariant of the state. -/
theorem foldlM_eq_liftM_of_invariant (I : β → Prop) {f : β → α → Strict β}
    {g : β → α → Reporting β} {items : List α}
    (h : ∀ item ∈ items, ∀ b, I b → f b item = liftM (g b item) ∧ I (g b item).value) {b : β}
    (hb : I b) : items.foldlM f b = liftM (items.foldlM g b) := by
  induction items generalizing b with
  | nil => exact (liftM_pure b).symm
  | cons item items ih =>
    obtain ⟨hitem, hitems⟩ := List.forall_mem_cons.1 h
    obtain ⟨hstep, hvalue⟩ := hitem b hb
    rw [List.foldlM_cons, List.foldlM_cons]
    exact bind_eq_liftM hstep (ih hitems hvalue)

theorem foldlM_eq_liftM {f : β → α → Strict β} {g : β → α → Reporting β} {items : List α}
    (h : ∀ item ∈ items, ∀ b, f b item = liftM (g b item)) (b : β) :
    items.foldlM f b = liftM (items.foldlM g b) :=
  foldlM_eq_liftM_of_invariant (fun _ => True) (fun item hitem b _ => ⟨h item hitem b, trivial⟩)
    trivial

theorem foldlM_eq_pure {f : β → α → Strict β} {g : β → α → β} {items : List α}
    (h : ∀ item ∈ items, ∀ b, f b item = pure (g b item)) (b : β) :
    items.foldlM f b = pure (items.foldl g b) := by
  induction items generalizing b with
  | nil => rfl
  | cons item items ih =>
    obtain ⟨hitem, hitems⟩ := List.forall_mem_cons.1 h
    rw [List.foldlM_cons, hitem, pure_bind, ih hitems, List.foldl_cons]

theorem forM_eq_liftM {f : α → Strict Unit} {g : α → Reporting Unit} {items : List α}
    (h : ∀ item ∈ items, f item = liftM (g item)) : items.forM f = liftM (items.forM g) := by
  induction items with
  | nil => exact (liftM_pure ()).symm
  | cons item items ih =>
    obtain ⟨hitem, hitems⟩ := List.forall_mem_cons.1 h
    exact bind_eq_liftM hitem (ih hitems)

theorem forM_eq_pure {f : α → Strict Unit} {items : List α} (h : ∀ item ∈ items, f item = pure ()) :
    items.forM f = pure () := by
  induction items with
  | nil => rfl
  | cons item items ih =>
    obtain ⟨hitem, hitems⟩ := List.forall_mem_cons.1 h
    change f item >>= (fun _ => items.forM f) = pure ()
    rw [hitem, pure_bind, ih hitems]

theorem mapM_eq_pure {f : α → Strict β} {g : α → β} {items : List α}
    (h : ∀ item ∈ items, f item = pure (g item)) : items.mapM f = pure (items.map g) := by
  induction items with
  | nil => rfl
  | cons item items ih =>
    obtain ⟨hitem, hitems⟩ := List.forall_mem_cons.1 h
    rw [List.mapM_cons, hitem, pure_bind, ih hitems, pure_bind, List.map_cons]

/-! ### Lookups that find something -/

section

variable {program : Program} {number : Nat}

theorem openNode_eq {node : Node} (h : program.Holds number node) :
    openNode program number node = pure () := by
  obtain ⟨tree, htree, hcontains⟩ := h
  have hmem : node ∈ tree.document.toNode.nodes := hcontains (node.nodes_eq ▸ List.mem_cons_self)
  rw [openNode, Strict.tree, demand_eq htree, pure_bind, if_pos hmem]

theorem openAll_eq {node : Node} (h : program.Holds number node) :
    openAll program number node = pure () :=
  forM_eq_pure fun _ hpart => openNode_eq (h.trans (Node.nodes_subset_of_mem _ hpart))

theorem declaration_eq {ref : DeclRef} {found : Declaration}
    (h : program.declaration? ref = some found) : declaration program ref = pure found :=
  demand_eq h

theorem symbols_eq {table : Table Symbols} {found : Symbols}
    (h : table.lookup number = some found) : symbols table number = pure found :=
  demand_eq h

end

/-! ### Listing the trees -/

/-- Like `Program.visit`, but every tree must be there, and be listed behind those it includes. -/
def visit (program : Program) (number : Nat) (listed : List Nat) : Strict (List Nat) :=
  if number ∈ listed then pure listed
  else do
    let tree ← tree program number
    let listed ← tree.includes.foldlM
      (fun listed edge =>
        if edge.tree < number then visit program edge.tree listed else throw (.tree edge.tree))
      listed
    return listed ++ [number]
termination_by number

def flatten (program : Program) : Strict (List Nat) :=
  visit program program.root []

theorem visit_eq {program : Program} (hlinked : program.IsLinked) {number : Nat}
    (hnumber : number < program.trees.length) (listed : List Nat) :
    visit program number listed = pure (program.visit number listed) := by
  induction number using Nat.strong_induction_on generalizing listed with
  | h number ih =>
    rw [visit, Program.visit]
    split
    · rfl
    · have htree : program.trees[number]? = some program.trees[number] :=
        List.getElem?_eq_getElem hnumber
      have hbelow := hlinked.ordered number _ htree
      simp only [Strict.tree, htree, demand_eq rfl, pure_bind]
      rw [foldlM_eq_pure (g := fun listed edge =>
        if edge.tree < number then program.visit edge.tree listed else listed) ?_, pure_bind]
      intro edge hedge listed
      have hlt := hbelow edge hedge
      rw [if_pos hlt, if_pos hlt, ih edge.tree hlt (hlt.trans hnumber)]

theorem flatten_eq {program : Program} (hlinked : program.IsLinked) :
    flatten program = pure program.flatten :=
  visit_eq hlinked hlinked.rooted []

end Strict

end Idl
