import Idl.Bindings
import Idl.Proofs.Silence

/-!
# What binding gives

Each name of a file is resolved on its own, whatever was bound before it: the bindings of a file
are the bindings of its names in source order, and the file is bound silently exactly if every
name in it has one.
-/
namespace Idl

/-- The binding that a name resolves to. -/
def Resolution.binding? : Resolution → Option Binding
  | here binding => some binding
  | included _ binding => some binding
  | unknown => none
  | bare => none
  | missing _ _ => none

/-- The package that a name goes through. -/
def Resolution.package? : Resolution → Option String
  | here _ => none
  | included package _ => some package
  | unknown => none
  | bare => none
  | missing package _ => some package

@[simp] theorem Bindings.names_use (bindings : Bindings) (package : String) :
    (bindings.use package).names = bindings.names := by
  unfold use
  split <;> rfl

theorem names_bindName (symbols : Table Symbols) (number : Nat) (tree : SourceTree)
    (bindings : Bindings) (name : Name) :
    (bindName symbols number tree bindings name).value.names =
      bindings.names ++
        ((resolveName symbols number tree name).binding?.map (name.span.start, ·)).toList := by
  unfold bindName
  cases resolveName symbols number tree name with
  | here binding => rfl
  | included package binding => simp [Bindings.bind, Resolution.binding?]
  | unknown => simp [Resolution.binding?]
  | bare => simp [Resolution.binding?]
  | missing package member => simp [Resolution.binding?]

theorem Bindings.mem_used_use (bindings : Bindings) (package other : String) :
    other ∈ (bindings.use package).used ↔ other ∈ bindings.used ∨ package = other := by
  unfold use
  split
  · next hmem => exact (or_iff_left_of_imp fun h => h ▸ hmem).symm
  · simp [eq_comm]

theorem mem_used_bindName (symbols : Table Symbols) (number : Nat) (tree : SourceTree)
    (bindings : Bindings) (name : Name) (package : String) :
    package ∈ (bindName symbols number tree bindings name).value.used ↔
      package ∈ bindings.used ∨
        (resolveName symbols number tree name).package? = some package := by
  unfold bindName
  cases resolveName symbols number tree name with
  | here binding => simp [Bindings.bind, Resolution.package?]
  | included other binding =>
    simpa [Bindings.bind, Resolution.package?] using bindings.mem_used_use other package
  | unknown => simp [Resolution.package?]
  | bare => simp [Resolution.package?]
  | missing other member => simpa [Resolution.package?] using bindings.mem_used_use other package

/-- The packages that are used are those that the names of the file go through. -/
theorem mem_used_bindNames (symbols : Table Symbols) (number : Nat) (tree : SourceTree)
    (package : String) :
    package ∈ (bindNames symbols number tree).value.used ↔ ∃ name ∈ tree.document.references,
      (resolveName symbols number tree name).package? = some package := by
  suffices h : ∀ (names : List Name) (bindings : Bindings),
      package ∈ (names.foldlM (bindName symbols number tree) bindings).value.used ↔
        package ∈ bindings.used ∨ ∃ name ∈ names,
          (resolveName symbols number tree name).package? = some package from
    (h tree.document.references .empty).trans (or_iff_right List.not_mem_nil)
  intro names
  induction names with
  | nil => simp
  | cons name names ih =>
    intro bindings
    rw [List.foldlM_cons, Reporting.value_bind, ih, mem_used_bindName, List.exists_mem_cons_iff,
      or_assoc]

theorem silent_bindName_iff (symbols : Table Symbols) (number : Nat) (tree : SourceTree)
    (bindings : Bindings) (name : Name) :
    (bindName symbols number tree bindings name).Silent ↔
      (resolveName symbols number tree name).binding?.isSome := by
  unfold bindName
  cases resolveName symbols number tree name <;>
    simp [Reporting.Silent, Resolution.binding?]

/-- The components left over are taken from the end of the path. -/
theorem tail_subset_of_resolveName {symbols : Table Symbols} {number : Nat} {tree : SourceTree}
    {name : Name} {binding : Binding}
    (h : (resolveName symbols number tree name).binding? = some binding) :
    binding.tail ⊆ name.path := by
  unfold resolveName at h
  split at h
  · cases h
    exact List.subset_cons_self _ _
  · split at h
    · cases h
    · cases h
    · next edge member tail _ htail =>
      split at h
      · cases h
        intro component hcomponent
        simp [Name.path, htail, hcomponent]
      · cases h

/-- A component that the included file lacks is one of the name's. -/
theorem mem_path_of_resolveName {symbols : Table Symbols} {number : Nat} {tree : SourceTree}
    {name : Name} {package : String} {member : Identifier}
    (h : resolveName symbols number tree name = .missing package member) :
    member ∈ name.path := by
  unfold resolveName at h
  split at h
  · cases h
  · split at h
    · cases h
    · cases h
    · next edge other tail _ htail =>
      split at h
      · cases h
      · cases h
        simp [Name.path, htail]

theorem names_bindNames (symbols : Table Symbols) (number : Nat) (tree : SourceTree) :
    (bindNames symbols number tree).value.names =
      tree.document.references.filterMap fun name =>
        (resolveName symbols number tree name).binding?.map (name.span.start, ·) := by
  suffices h : ∀ (names : List Name) (bindings : Bindings),
      (names.foldlM (bindName symbols number tree) bindings).value.names =
        bindings.names ++ names.filterMap fun name =>
          (resolveName symbols number tree name).binding?.map (name.span.start, ·) from
    h tree.document.references .empty
  intro names
  induction names with
  | nil => simp
  | cons name names ih =>
    intro bindings
    rw [List.foldlM_cons, Reporting.value_bind, ih, names_bindName, List.filterMap_cons,
      List.append_assoc]
    cases (resolveName symbols number tree name).binding? <;> rfl

/-- A file that is bound silently has a binding for every name in it. -/
theorem isSome_lookup_bindNames {symbols : Table Symbols} {number : Nat} {tree : SourceTree}
    (h : (bindNames symbols number tree).Silent) {name : Name}
    (hname : name ∈ tree.document.references) :
    ((bindNames symbols number tree).value.lookup name).isSome := by
  obtain ⟨bindings, hstep⟩ := Reporting.silent_step_of_foldlM h hname
  obtain ⟨binding, hbinding⟩ :=
    Option.isSome_iff_exists.1 ((silent_bindName_iff symbols number tree bindings name).1 hstep)
  have hmem : (name.span.start, binding) ∈ (bindNames symbols number tree).value.names := by
    rw [names_bindNames, List.mem_filterMap]
    exact ⟨name, hname, by simp [hbinding]⟩
  rw [Bindings.lookup, Option.isSome_iff_ne_none, Ne, List.lookup_eq_none_iff]
  intro hnone
  simpa using hnone _ hmem

/-- A binding in the table is that of a name of the file. -/
theorem exists_reference_of_lookup_bindNames {symbols : Table Symbols} {number : Nat}
    {tree : SourceTree} {name : Name} {binding : Binding}
    (h : (bindNames symbols number tree).value.lookup name = some binding) :
    ∃ reference ∈ tree.document.references,
      (resolveName symbols number tree reference).binding? = some binding := by
  obtain ⟨before, after, hnames, -⟩ := List.lookup_eq_some_iff.1 h
  have hmem : (name.span.start, binding) ∈ (bindNames symbols number tree).value.names := by
    simp [hnames]
  rw [names_bindNames, List.mem_filterMap] at hmem
  obtain ⟨reference, href, hbinding⟩ := hmem
  obtain ⟨found, hfound, heq⟩ := Option.map_eq_some_iff.1 hbinding
  obtain rfl := (Prod.mk.inj heq).2
  exact ⟨reference, href, hfound⟩

/-- Components left over by a binding belong to a name of the file. -/
theorem tail_of_lookup_bindNames {symbols : Table Symbols} {number : Nat} {tree : SourceTree}
    {name : Name} {binding : Binding}
    (h : (bindNames symbols number tree).value.lookup name = some binding) :
    ∃ reference ∈ tree.document.references, binding.tail ⊆ reference.path := by
  obtain ⟨reference, href, hresolve⟩ := exists_reference_of_lookup_bindNames h
  exact ⟨reference, href, tail_subset_of_resolveName hresolve⟩

end Idl
