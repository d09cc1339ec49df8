import Idl.Proofs.Severity

/-!
# Phases over all trees

The trees of a program are listed with everything that they include, and a phase makes one table
entry for each listed tree. The tables of an analysis that came past the type check are those of
phases that reported nothing.
-/
namespace Idl.Program

variable {program : Program}

/-! ### Listing trees -/

/-- Every include edge leads to an earlier tree. -/
def IsOrdered (program : Program) : Prop :=
  ∀ (number : Nat) (tree : SourceTree), program.trees[number]? = some tree →
    ∀ edge ∈ tree.includes, edge.tree < number

/-- With a tree, the trees that it includes are listed. -/
def IsClosed (program : Program) (listed : List Nat) : Prop :=
  ∀ number ∈ listed, ∀ tree : SourceTree, program.trees[number]? = some tree →
    ∀ edge ∈ tree.includes, edge.tree ∈ listed

/-- What holds when trees have been added to those listed before. -/
structure Lists (program : Program) (listed : List Nat) (numbers : List Nat) (after : List Nat) :
    Prop where
  kept : listed ⊆ after
  added : numbers ⊆ after
  closed : program.IsClosed listed → program.IsClosed after

theorem lists_foldl {add : List Nat → IncludeEdge → List Nat} {edges : List IncludeEdge}
    (h : ∀ edge ∈ edges, ∀ listed, program.Lists listed [edge.tree] (add listed edge))
    (listed : List Nat) :
    program.Lists listed (edges.map IncludeEdge.tree) (edges.foldl add listed) := by
  induction edges generalizing listed with
  | nil => exact ⟨List.Subset.refl _, List.nil_subset _, id⟩
  | cons edge edges ih =>
    have hfirst := h edge List.mem_cons_self listed
    have hrest := ih (fun other hother => h other (List.mem_cons_of_mem _ hother)) (add listed edge)
    rw [List.foldl_cons, List.map_cons]
    refine ⟨fun _ hother => hrest.kept (hfirst.kept hother), ?_, hrest.closed ∘ hfirst.closed⟩
    intro other hother
    rcases List.mem_cons.1 hother with rfl | hother
    · exact hrest.kept (hfirst.added List.mem_cons_self)
    · exact hrest.added hother

theorem lists_visit (hordered : program.IsOrdered) {number : Nat}
    (hnumber : number < program.trees.length) (listed : List Nat) :
    program.Lists listed [number] (program.visit number listed) := by
  induction number using Nat.strong_induction_on generalizing listed with
  | _ number ih =>
    have htree := List.getElem?_eq_getElem hnumber
    generalize program.trees[number] = tree at htree
    rw [visit]
    by_cases hlisted : number ∈ listed
    · rw [if_pos hlisted]
      refine ⟨List.Subset.refl _, ?_, id⟩
      intro other hother
      rwa [List.mem_singleton.1 hother]
    · rw [if_neg hlisted, htree]
      simp only
      have hstep : ∀ edge ∈ tree.includes, ∀ listed, program.Lists listed [edge.tree]
          (if edge.tree < number then program.visit edge.tree listed else listed) := by
        intro edge hedge listed
        -- the bound on what is visited leaves no edge out
        have hlt := hordered number tree htree edge hedge
        rw [if_pos hlt]
        exact ih edge.tree hlt (hlt.trans hnumber) listed
      have hedges := lists_foldl hstep listed
      refine ⟨?_, ?_, ?_⟩
      · intro other hother
        exact List.mem_append_left _ (hedges.kept hother)
      · intro other hother
        exact List.mem_append_right _ hother
      · intro hclosed other hother found hfound edge hedge
        apply List.mem_append_left
        rcases List.mem_append.1 hother with hother | hother
        · exact hedges.closed hclosed other hother found hfound edge hedge
        · obtain rfl := List.mem_singleton.1 hother
          obtain rfl := Option.some.inj (htree.symm.trans hfound)
          exact hedges.added (List.mem_map_of_mem hedge)

/-- The trees are listed from the root, each with those that it includes. -/
theorem lists_flatten (hordered : program.IsOrdered) (hroot : program.root < program.trees.length) :
    program.root ∈ program.flatten ∧ program.IsClosed program.flatten := by
  have hlists := lists_visit hordered hroot []
  have hempty : program.IsClosed [] := fun other hother => absurd hother List.not_mem_nil
  exact ⟨hlists.added List.mem_cons_self, hlists.closed hempty⟩

/-! ### Doing something with all listed trees -/

section

variable {α : Type} {numbers : List Nat} {f : Nat → SourceTree → Reporting α}

/-- A listed tree has one entry, which is made from it alone. -/
theorem lookup_forTrees (program : Program) (numbers : List Nat)
    (f : Nat → SourceTree → Reporting α) (number : Nat) :
    (program.forTrees numbers f).1.lookup number =
      if number ∈ numbers then program.trees[number]?.map fun tree => (f number tree).value
      else none := by
  simp only [forTrees, List.map_filterMap, Option.map_map]
  induction numbers with
  | nil => rfl
  | cons first numbers ih =>
    rw [List.filterMap_cons]
    by_cases hfirst : number = first
    · subst hfirst
      cases htree : program.trees[number]? with
      | none => simp [ih, htree]
      | some tree => simp
    · cases htree : program.trees[first]? with
      | none => simp [ih, hfirst]
      | some tree => simp [ih, hfirst, List.lookup_cons, beq_false_of_ne hfirst]

theorem diagnose_of_forTrees (h : (program.forTrees numbers f).2 = []) {number : Nat}
    (hnumber : number ∈ numbers) {tree : SourceTree} (htree : program.trees[number]? = some tree) :
    tree.source.diagnose (f number tree).reports = [] := by
  have hmem : (number, f number tree) ∈ numbers.filterMap fun number =>
      program.trees[number]?.map fun tree => (number, f number tree) :=
    List.mem_filterMap.2 ⟨number, hnumber, by rw [htree, Option.map_some]⟩
  have hnil := List.flatMap_eq_nil_iff.1 h _ hmem
  simpa [Program.diagnose, htree] using hnil

end

/-! ### One phase after the other -/

theorem runPhases_cons (program : Program) (analysis : Analysis) (phase : Phase)
    (phases : List Phase) :
    program.runPhases analysis (phase :: phases) =
      if (phase.run program analysis).2 = [] then
        program.runPhases { (phase.run program analysis).1 with completed := some phase } phases
      else phase.run program analysis := by
  rw [runPhases]
  have hcount := phase.errorCount_run_eq_zero_iff program analysis
  generalize phase.run program analysis = result at hcount ⊢
  obtain ⟨after, found⟩ := result
  simp only at hcount ⊢
  by_cases hnil : found = []
  · rw [if_pos hnil, if_pos (hcount.2 hnil), hnil]
    rfl
  · rw [if_neg hnil, if_neg (mt hcount.1 hnil)]

/-- The last two phases make no tables. -/
theorem runPhases_checks (program : Program) (analysis : Analysis) :
    ∃ completed, (program.runPhases analysis [.checkCycles, .checkUnused]).1 =
      { analysis with completed } := by
  rw [runPhases_cons]
  split
  · rw [runPhases_cons]
    split
    · exact ⟨_, rfl⟩
    · exact ⟨_, rfl⟩
  · exact ⟨analysis.completed, rfl⟩

/-- The tables of an analysis that came past the type check, made without a diagnostic. -/
structure IsAnalyzed (program : Program) (analysis : Analysis) : Prop where
  symbols : (program.forTrees program.flatten fun _ tree => enterSymbols tree.document) =
    (analysis.symbols, [])
  bindings : program.forTrees program.flatten (bindNames analysis.symbols) =
    (analysis.bindings, [])
  values : (program.forTrees program.flatten fun number tree =>
    (analysis.resolver program).checkTypes number tree.document) = (analysis.values, [])

theorem isAnalyzed_analyze (program : Program)
    (h : program.analyze.1.completed ∈
      [some .checkTypes, some .checkCycles, some .checkUnused]) :
    program.IsAnalyzed program.analyze.1 := by
  revert h
  unfold analyze Phase.all
  rw [runPhases_cons]
  split
  next hsymbols =>
    rw [runPhases_cons]
    split
    next hbindings =>
      rw [runPhases_cons]
      split
      next hvalues =>
        intro _
        obtain ⟨completed, hchecks⟩ := program.runPhases_checks _
        rw [hchecks]
        exact ⟨Prod.ext rfl hsymbols, Prod.ext rfl hbindings, Prod.ext rfl hvalues⟩
      next =>
        intro h
        change some Phase.bindNames ∈ _ at h
        simp at h
    next =>
      intro h
      change some Phase.enterSymbols ∈ _ at h
      simp at h
  next =>
    intro h
    change none ∈ _ at h
    simp at h

end Idl.Program
