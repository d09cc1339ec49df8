import Idl.Proofs.RearrangedPhases

/-!
# Analyses of rearranged programs

The phases that programs with rearranged declarations go through have corresponding outcomes: the
same phase is the last one to find nothing, and if all of them find nothing, the values are the
same.
-/
namespace Idl

open Reporting

namespace Loading.IsComplete

variable {files : MemoryFiles} {includePaths : List String} {root : String} {state : Loading}
  {number : Nat} {α : Type} {f : Nat → SourceTree → Reporting α}

/-- A phase has no diagnostics exactly if it reports nothing about any tree. -/
theorem forTrees_eq_nil_iff (h : state.IsComplete files includePaths root number)
    (hwithin : ∀ other tree, state.trees[other]? = some tree →
      (f other tree).Within (Node.Marks tree.document.toNode.inner)) :
    (Program.forTrees ⟨state.trees, number⟩ (Program.flatten ⟨state.trees, number⟩) f).2 = [] ↔
      ∀ other tree, state.trees[other]? = some tree → (f other tree).Silent := by
  constructor
  · intro hnil other tree htree
    exact h.silent_of_forTrees (Prod.ext rfl hnil) htree (hwithin other tree htree)
  · intro hsilent
    refine List.flatMap_eq_nil_iff.2 fun result hresult => ?_
    obtain ⟨other, -, hother⟩ := List.mem_filterMap.1 hresult
    obtain ⟨tree, htree, rfl⟩ := Option.map_eq_some_iff.1 hother
    simp only [Program.diagnose, htree]
    rw [hsilent other tree htree]
    rfl

/-- The gists of a phase are those of its reports about the listed trees. -/
theorem gists_forTrees (h : state.IsComplete files includePaths root number)
    (hwithin : ∀ other tree, state.trees[other]? = some tree →
      (f other tree).Within (Node.Marks tree.document.toNode.inner)) (numbers : List Nat) :
    (Program.forTrees ⟨state.trees, number⟩ numbers f).2.map Diagnostic.gist =
      numbers.flatMap fun other => state.trees[other]?.toList.flatMap fun tree =>
        (f other tree).reports.map fun report => (tree.source.path, report.gist) := by
  unfold Program.forTrees
  induction numbers with
  | nil => rfl
  | cons other numbers ih =>
    rw [List.filterMap_cons, List.flatMap_cons, ← ih]
    cases htree : state.trees[other]? with
    | none => rfl
    | some tree =>
      obtain ⟨nodes, hparsed⟩ := (h.sound.fits htree).parsed
      have hgists := Source.gists_diagnose fun report hreport span hspan =>
        .inr ⟨_, hparsed, hwithin other tree htree report hreport span hspan⟩
      simp only [Option.map_some, List.flatMap_cons, List.map_append, Program.diagnose, htree,
        Option.toList_some, List.flatMap_nil, List.append_nil, hgists]

end Loading.IsComplete

namespace Program.Abbreviates

variable {names : List String} {typedefs : Nat → List TypedefDecl} {place : Nat → Nat → Nat}
  {program program' : Program}

theorem visit_eq (h : program.Abbreviates names typedefs place program') (number : Nat)
    (listed : List Nat) : program.visit number listed = program'.visit number listed := by
  induction number using Nat.strong_induction_on generalizing listed with
  | _ number ih =>
    rw [visit, visit]
    refine if_congr Iff.rfl rfl ?_
    have hpair := h.trees number
    generalize program.trees[number]? = tree at hpair ⊢
    generalize program'.trees[number]? = tree' at hpair ⊢
    cases hpair with
    | none => rfl
    | @some tree tree' hpair =>
      have hincludes := hpair.includes
      simp only
      congr 1
      generalize tree.includes = edges at hincludes ⊢
      generalize tree'.includes = edges' at hincludes ⊢
      induction hincludes generalizing listed with
      | nil => rfl
      | @cons edge edge' _ _ hedge _ ihRest =>
        rw [List.foldl_cons, List.foldl_cons, ← hedge.tree, ihRest]
        by_cases hlt : edge.tree < number
        · rw [if_pos hlt, if_pos hlt, ih edge.tree hlt]
        · rw [if_neg hlt, if_neg hlt]

/-- The trees are listed in the same order. -/
theorem flatten_eq (h : program.Abbreviates names typedefs place program') :
    program.flatten = program'.flatten := by
  rw [flatten, flatten, ← h.root]
  exact h.visit_eq program.root []

/-- What holds of a tree of the first program exactly if it does so of the tree of the second holds
of all trees of both or of neither. -/
theorem forall_tree_iff (h : program.Abbreviates names typedefs place program')
    {p q : Nat → SourceTree → Prop}
    (hiff : ∀ number tree tree', program.trees[number]? = some tree →
      program'.trees[number]? = some tree' → (p number tree ↔ q number tree')) :
    (∀ (number : Nat) tree, program.trees[number]? = some tree → p number tree) ↔
      ∀ (number : Nat) tree', program'.trees[number]? = some tree' → q number tree' := by
  constructor
  · intro hall number tree' htree'
    obtain ⟨tree, htree, -⟩ := h.exists_tree_back htree'
    exact (hiff number tree tree' htree htree').1 (hall number tree htree)
  · intro hall number tree htree
    obtain ⟨tree', htree', -⟩ := h.exists_tree htree
    exact (hiff number tree tree' htree htree').2 (hall number tree' htree')

end Program.Abbreviates

/-! ### One phase over two programs -/

/-- Steps over the trees of two programs that report within the trees, something in both programs
or in neither, and the same in any order if `same` holds. -/
structure StepsAlike (program program' : Program) (same : Prop) {α α' : Type}
    (f : Nat → SourceTree → Reporting α) (f' : Nat → SourceTree → Reporting α') : Prop where
  within : ∀ (number : Nat) tree, program.trees[number]? = some tree →
    (f number tree).Within (Node.Marks tree.document.toNode.inner)
  within' : ∀ (number : Nat) tree, program'.trees[number]? = some tree →
    (f' number tree).Within (Node.Marks tree.document.toNode.inner)
  silent_iff :
    (∀ (number : Nat) tree, program.trees[number]? = some tree → (f number tree).Silent) ↔
    ∀ (number : Nat) tree, program'.trees[number]? = some tree → (f' number tree).Silent
  sameGists : same → ∀ (number : Nat) tree tree', program.trees[number]? = some tree →
    program'.trees[number]? = some tree' →
      SameGists (f number tree).reports (f' number tree').reports

section

variable {files files' : MemoryFiles} {includePaths includePaths' : List String}
  {root root' : String} {state state' : Loading} {number number' : Nat} {names : List String}
  {typedefs : Nat → List TypedefDecl} {place : Nat → Nat → Nat} {same : Prop} {α α' : Type}
  {f : Nat → SourceTree → Reporting α} {f' : Nat → SourceTree → Reporting α'}
  (hstate : state.IsComplete files includePaths root number)
  (hstate' : state'.IsComplete files' includePaths' root' number')

include hstate hstate'

theorem StepsAlike.forTrees_eq_nil_iff
    (hsteps : StepsAlike ⟨state.trees, number⟩ ⟨state'.trees, number'⟩ same f f') :
    (Program.forTrees ⟨state.trees, number⟩ (Program.flatten ⟨state.trees, number⟩) f).2 = [] ↔
      (Program.forTrees ⟨state'.trees, number'⟩ (Program.flatten ⟨state'.trees, number'⟩) f').2 =
        [] := by
  rw [hstate.forTrees_eq_nil_iff hsteps.within, hstate'.forTrees_eq_nil_iff hsteps.within']
  exact hsteps.silent_iff

theorem StepsAlike.perm_gists
    (hsteps : StepsAlike ⟨state.trees, number⟩ ⟨state'.trees, number'⟩ same f f')
    (h : Program.Abbreviates names typedefs place ⟨state.trees, number⟩ ⟨state'.trees, number'⟩)
    (hsame : same) :
    ((Program.forTrees ⟨state.trees, number⟩ (Program.flatten ⟨state.trees, number⟩) f).2.map
        Diagnostic.gist).Perm
      ((Program.forTrees ⟨state'.trees, number'⟩ (Program.flatten ⟨state'.trees, number'⟩) f').2.map
        Diagnostic.gist) := by
  rw [hstate.gists_forTrees hsteps.within, hstate'.gists_forTrees hsteps.within', h.flatten_eq]
  refine List.Perm.flatMap_left _ fun other _ => ?_
  have hpair := h.trees other
  have hgists := hsteps.sameGists hsame other
  simp only at hpair hgists
  generalize state.trees[other]? = tree at hpair hgists ⊢
  generalize state'.trees[other]? = tree' at hpair hgists ⊢
  cases hpair with
  | none => exact .refl _
  | @some tree tree' hpair =>
    have hperm := (hgists tree tree' rfl rfl).map (tree.source.path, ·)
    simpa [Function.comp_def, hpair.path] using hperm

end

/-! ### The phases one after the other -/

/-- The values that two analyses have found are the same, tree by tree. -/
def ValuesCorrespond (place : Nat → Nat → Nat) (program : Program) (analysis analysis' : Analysis) :
    Prop :=
  ∀ (number : Nat) tree, program.trees[number]? = some tree →
    ∃ values values', analysis.values.lookup number = some values ∧
      analysis'.values.lookup number = some values' ∧
        values.Corresponds (DeclRef.placed place) (place number) values'

/-- Outcomes of phases in which the same phase is the last one to find nothing. If no phase finds
anything, the values are the same, and if `same` holds, the same is found in any order. -/
structure OutcomesCorrespond (place : Nat → Nat → Nat) (program : Program) (same : Prop)
    (outcome outcome' : Analysis × List Diagnostic) : Prop where
  completed : outcome.1.completed = outcome'.1.completed
  values : outcome.1.completed = some .checkUnused →
    ValuesCorrespond place program outcome.1 outcome'.1
  gists : same → (outcome.2.map Diagnostic.gist).Perm (outcome'.2.map Diagnostic.gist)

theorem Phase.completed_run (phase : Phase) (program : Program) (analysis : Analysis) :
    (phase.run program analysis).1.completed = analysis.completed := by
  cases phase <;> rfl

theorem OutcomesCorrespond.cons {place : Nat → Nat → Nat} {program program' : Program} {same : Prop}
    {analysis analysis' : Analysis} {phase : Phase} {phases : List Phase}
    (hcompleted : analysis.completed = analysis'.completed)
    (hunfinished : analysis.completed ≠ some .checkUnused)
    (hiff : (phase.run program analysis).2 = [] ↔ (phase.run program' analysis').2 = [])
    (hgists : same → ((phase.run program analysis).2.map Diagnostic.gist).Perm
      ((phase.run program' analysis').2.map Diagnostic.gist))
    (hrest : (phase.run program analysis).2 = [] → (phase.run program' analysis').2 = [] →
      OutcomesCorrespond place program same
        (program.runPhases { (phase.run program analysis).1 with completed := some phase } phases)
        (program'.runPhases { (phase.run program' analysis').1 with completed := some phase }
          phases)) :
    OutcomesCorrespond place program same (program.runPhases analysis (phase :: phases))
      (program'.runPhases analysis' (phase :: phases)) := by
  rw [Program.runPhases_cons, Program.runPhases_cons]
  by_cases hnil : (phase.run program analysis).2 = []
  · rw [if_pos hnil, if_pos (hiff.1 hnil)]
    exact hrest hnil (hiff.1 hnil)
  · rw [if_neg hnil, if_neg (mt hiff.2 hnil)]
    refine ⟨?_, fun h => absurd ?_ hunfinished, hgists⟩
    · rw [phase.completed_run, phase.completed_run, hcompleted]
    · rwa [phase.completed_run] at h

/-! ### Steps that are alike -/

section

variable {names : List String} {typedefs : Nat → List TypedefDecl} {place : Nat → Nat → Nat}
  {same : Prop} (hsame : same → ∀ number, typedefs number = [])

include hsame

namespace Program.Abbreviates

variable {program program' : Program} (h : program.Abbreviates names typedefs place program')

include h

theorem stepsAlike_enterSymbols (hdistinct : same → program.NamesDistinct) :
    StepsAlike program program' same (fun _ tree => enterSymbols tree.document)
      fun _ tree => enterSymbols tree.document where
  within _ tree _ := within_enterSymbols tree.document
  within' _ tree _ := within_enterSymbols tree.document
  silent_iff := h.forall_tree_iff fun _ _ _ htree htree' => h.silent_enterSymbols_iff htree htree'
  sameGists holds number tree _ htree htree' :=
    h.sameGists_enterSymbols htree htree' (hsame holds number)
      (hdistinct holds tree (List.mem_of_getElem? htree))

theorem stepsAlike_bindNames {symbols symbols' : Table Symbols}
    (hsymbols : program.SymbolsOf symbols) (hsymbols' : program'.SymbolsOf symbols')
    (hdistinct : program.NamesDistinct) :
    StepsAlike program program' same (bindNames symbols) (bindNames symbols') where
  within number tree _ := within_bindNames symbols number tree
  within' number tree _ := within_bindNames symbols' number tree
  silent_iff := h.forall_tree_iff fun _ _ _ htree htree' =>
    h.silent_bindNames_iff htree htree' hsymbols hsymbols' hdistinct
  sameGists holds number _ _ htree htree' :=
    h.sameGists_bindNames htree htree' hsymbols hsymbols' hdistinct (hsame holds number)

end Program.Abbreviates

namespace Resolver

variable {old new : Resolver} (hold : old.IsClean) (hnew : new.IsClean)
  (hread : old.program.IsRead) (hread' : new.program.IsRead)
  (h : old.program.Abbreviates names typedefs place new.program)

include hold hnew hread hread' h

theorem stepsAlike_checkTypes :
    StepsAlike old.program new.program same
      (fun number tree => old.checkTypes number tree.document)
      fun number tree => new.checkTypes number tree.document where
  within _ _ htree := within_checkTypes (hold.tailsMark htree)
  within' _ _ htree := within_checkTypes (hnew.tailsMark htree)
  silent_iff := isChecked_iff hold hnew hread hread' h
  sameGists holds number _ _ htree htree' :=
    sameGists_checkTypes hold hnew hread hread' h htree htree' (hsame holds number)

theorem stepsAlike_checkCycles (hchecked : old.IsChecked) :
    StepsAlike old.program new.program same
      (fun number tree => old.checkCycles number tree.document)
      fun number tree => new.checkCycles number tree.document where
  within number tree _ := within_checkCycles old number tree.document
  within' number tree _ := within_checkCycles new number tree.document
  silent_iff := h.forall_tree_iff fun _ _ _ htree htree' =>
    silent_checkCycles_iff_of_isChecked hold hnew hread hread' h htree htree' hchecked
  sameGists holds number _ _ htree htree' :=
    sameGists_checkCycles hold hnew hread hread' h htree htree' hchecked (hsame holds number)

omit hsame hread hread'

theorem stepsAlike_checkUnused
    (hdirectives : ∀ tree ∈ old.program.trees, ∀ edge ∈ tree.includes,
      edge.directive ∈ tree.document.includes)
    (hdirectives' : ∀ tree ∈ new.program.trees, ∀ edge ∈ tree.includes,
      edge.directive ∈ tree.document.includes) :
    StepsAlike old.program new.program same
      (fun number tree => checkUnused tree ((old.bindings.lookup number).getD .empty))
      fun number tree => checkUnused tree ((new.bindings.lookup number).getD .empty) := by
  have hagree (number : Nat) (tree tree' : SourceTree)
      (htree : old.program.trees[number]? = some tree)
      (htree' : new.program.trees[number]? = some tree') :
      Agree (fun _ _ => True) (checkUnused tree ((old.bindings.lookup number).getD .empty))
        (checkUnused tree' ((new.bindings.lookup number).getD .empty)) := by
    have hpair := optionRel_of_some (h.trees number) htree htree'
    refine agree_checkUnused (hpair.includes.imp fun _ _ hedge => ⟨hedge.name, hedge.path⟩)
      fun package => ?_
    rw [hold.bindings, hnew.bindings, htree, htree']
    exact h.mem_used_iff htree htree' hold.symbols hnew.symbols hold.namesDistinct package
  exact {
    within := fun _ tree htree =>
      within_checkUnused _ (hdirectives tree (List.mem_of_getElem? htree))
    within' := fun _ tree htree =>
      within_checkUnused _ (hdirectives' tree (List.mem_of_getElem? htree))
    silent_iff := h.forall_tree_iff fun number tree tree' htree htree' =>
      (hagree number tree tree' htree htree').silent_iff
    sameGists := fun _ number tree tree' htree htree' =>
      List.Perm.of_eq (hagree number tree tree' htree htree').reports }

end Resolver

end

/-! ### All phases -/

theorem Loading.IsComplete.directive_mem {files : MemoryFiles} {includePaths : List String}
    {root : String} {state : Loading} {number : Nat}
    (h : state.IsComplete files includePaths root number) :
    ∀ tree ∈ state.trees, ∀ edge ∈ tree.includes, edge.directive ∈ tree.document.includes := by
  intro tree htree edge hedge
  obtain ⟨other, hother⟩ := List.getElem?_of_mem htree
  obtain ⟨directive, hdirective, hfits⟩ := forall₂_mem_right (h.sound.fits hother).edges hedge
  exact hfits.origin ▸ hdirective

namespace OutcomesCorrespond

variable {files files' : MemoryFiles} {includePaths includePaths' : List String}
  {root root' : String} {state state' : Loading} {number number' : Nat} {names : List String}
  {typedefs : Nat → List TypedefDecl} {place : Nat → Nat → Nat} {same : Prop}
  {analysis analysis' : Analysis}
  (hstate : state.IsComplete files includePaths root number)
  (hstate' : state'.IsComplete files' includePaths' root' number')
  (h : Program.Abbreviates names typedefs place ⟨state.trees, number⟩ ⟨state'.trees, number'⟩)

include hstate hstate' h

section

variable (hold : (analysis.resolver ⟨state.trees, number⟩).IsClean)
  (hnew : (analysis'.resolver ⟨state'.trees, number'⟩).IsClean)

include hold hnew

theorem checkUnused (hcompleted : analysis.completed = some .checkCycles)
    (hcompleted' : analysis'.completed = some .checkCycles)
    (hvalues : ValuesCorrespond place ⟨state.trees, number⟩ analysis analysis') :
    OutcomesCorrespond place ⟨state.trees, number⟩ same
      (Program.runPhases ⟨state.trees, number⟩ analysis [.checkUnused])
      (Program.runPhases ⟨state'.trees, number'⟩ analysis' [.checkUnused]) := by
  have hsteps : StepsAlike _ _ same _ _ :=
    Resolver.stepsAlike_checkUnused hold hnew h hstate.directive_mem hstate'.directive_mem
  refine cons (hcompleted.trans hcompleted'.symm) (by rw [hcompleted]; decide)
    (hsteps.forTrees_eq_nil_iff hstate hstate') (hsteps.perm_gists hstate hstate' h) fun _ _ => ?_
  exact ⟨rfl, fun _ => hvalues, fun _ => .refl _⟩

variable (hsame : same → ∀ number, typedefs number = [])

include hsame

theorem checkCycles (hcompleted : analysis.completed = some .checkTypes)
    (hcompleted' : analysis'.completed = some .checkTypes)
    (hchecked : (analysis.resolver ⟨state.trees, number⟩).IsChecked)
    (hvalues : ValuesCorrespond place ⟨state.trees, number⟩ analysis analysis') :
    OutcomesCorrespond place ⟨state.trees, number⟩ same
      (Program.runPhases ⟨state.trees, number⟩ analysis [.checkCycles, .checkUnused])
      (Program.runPhases ⟨state'.trees, number'⟩ analysis' [.checkCycles, .checkUnused]) := by
  have hsteps : StepsAlike _ _ same _ _ :=
    Resolver.stepsAlike_checkCycles hsame hold hnew hstate.isRead hstate'.isRead h hchecked
  refine cons (hcompleted.trans hcompleted'.symm) (by rw [hcompleted]; decide)
    (hsteps.forTrees_eq_nil_iff hstate hstate') (hsteps.perm_gists hstate hstate' h) fun _ _ => ?_
  exact checkUnused hstate hstate' h hold hnew rfl rfl hvalues

theorem checkTypes (hcompleted : analysis.completed = some .bindNames)
    (hcompleted' : analysis'.completed = some .bindNames) :
    OutcomesCorrespond place ⟨state.trees, number⟩ same
      (Program.runPhases ⟨state.trees, number⟩ analysis [.checkTypes, .checkCycles, .checkUnused])
      (Program.runPhases ⟨state'.trees, number'⟩ analysis'
        [.checkTypes, .checkCycles, .checkUnused]) := by
  have hsteps : StepsAlike _ _ same _ _ :=
    Resolver.stepsAlike_checkTypes hsame hold hnew hstate.isRead hstate'.isRead h
  refine cons (hcompleted.trans hcompleted'.symm) (by rw [hcompleted]; decide)
    (hsteps.forTrees_eq_nil_iff hstate hstate') (hsteps.perm_gists hstate hstate' h)
    fun hnil hnil' => ?_
  have hchecked : (analysis.resolver ⟨state.trees, number⟩).IsChecked :=
    (hstate.forTrees_eq_nil_iff hsteps.within).1 hnil
  have hchecked' : (analysis'.resolver ⟨state'.trees, number'⟩).IsChecked :=
    (hstate'.forTrees_eq_nil_iff hsteps.within').1 hnil'
  have hvalues : Program.forTrees ⟨state.trees, number⟩ (Program.flatten ⟨state.trees, number⟩)
      (fun other tree => (analysis.resolver ⟨state.trees, number⟩).checkTypes other tree.document) =
        ((Phase.checkTypes.run ⟨state.trees, number⟩ analysis).1.values, []) := Prod.ext rfl hnil
  have hvalues' : Program.forTrees ⟨state'.trees, number'⟩
      (Program.flatten ⟨state'.trees, number'⟩)
      (fun other tree => (analysis'.resolver ⟨state'.trees, number'⟩).checkTypes other
        tree.document) =
        ((Phase.checkTypes.run ⟨state'.trees, number'⟩ analysis').1.values, []) :=
    Prod.ext rfl hnil'
  refine checkCycles hstate hstate' h hold hnew hsame rfl rfl hchecked fun other tree htree => ?_
  obtain ⟨tree', htree', -⟩ := h.exists_tree htree
  refine ⟨_, _, (hstate.lookup_forTrees hvalues other).trans ?_,
    (hstate'.lookup_forTrees hvalues' other).trans ?_,
    Resolver.values_correspond_of_typesFit hold hnew hstate.isRead hstate'.isRead h
      (Resolver.typesFit_of_isChecked hold hchecked)
      (Resolver.typesFit_of_isChecked hnew hchecked') htree htree'⟩
  · exact congrArg (Option.map _) htree
  · exact congrArg (Option.map _) htree'

end

variable (hsame : same → ∀ number, typedefs number = [])

include hsame

theorem bindNames (hcompleted : analysis.completed = some .enterSymbols)
    (hcompleted' : analysis'.completed = some .enterSymbols)
    (hsymbols : (Program.forTrees ⟨state.trees, number⟩ (Program.flatten ⟨state.trees, number⟩)
      fun _ tree => enterSymbols tree.document) = (analysis.symbols, []))
    (hsymbols' : (Program.forTrees ⟨state'.trees, number'⟩
      (Program.flatten ⟨state'.trees, number'⟩) fun _ tree => enterSymbols tree.document) =
        (analysis'.symbols, [])) :
    OutcomesCorrespond place ⟨state.trees, number⟩ same
      (Program.runPhases ⟨state.trees, number⟩ analysis
        [.bindNames, .checkTypes, .checkCycles, .checkUnused])
      (Program.runPhases ⟨state'.trees, number'⟩ analysis'
        [.bindNames, .checkTypes, .checkCycles, .checkUnused]) := by
  have hdistinct : Program.NamesDistinct ⟨state.trees, number⟩ := by
    intro tree htree
    obtain ⟨other, hother⟩ := List.getElem?_of_mem htree
    exact ((silent_enterSymbols_iff _).1
      (hstate.silent_of_forTrees hsymbols hother (within_enterSymbols _))).1
  have hsteps : StepsAlike _ _ same _ _ := h.stepsAlike_bindNames hsame
    (hstate.lookup_forTrees hsymbols) (hstate'.lookup_forTrees hsymbols') hdistinct
  refine cons (hcompleted.trans hcompleted'.symm) (by rw [hcompleted]; decide)
    (hsteps.forTrees_eq_nil_iff hstate hstate') (hsteps.perm_gists hstate hstate' h)
    fun hnil hnil' => ?_
  exact checkTypes hstate hstate' h (hstate.isClean_of_forTrees hsymbols (Prod.ext rfl hnil))
    (hstate'.isClean_of_forTrees hsymbols' (Prod.ext rfl hnil')) hsame rfl rfl

/-- Analyses of programs with rearranged declarations have corresponding outcomes. -/
theorem analyze (hdistinct : same → Program.NamesDistinct ⟨state.trees, number⟩) :
    OutcomesCorrespond place ⟨state.trees, number⟩ same
      (Program.analyze ⟨state.trees, number⟩) (Program.analyze ⟨state'.trees, number'⟩) := by
  have hsteps : StepsAlike _ _ same _ _ := h.stepsAlike_enterSymbols hsame hdistinct
  refine cons rfl nofun (hsteps.forTrees_eq_nil_iff hstate hstate')
    (hsteps.perm_gists hstate hstate' h) fun hnil hnil' => ?_
  exact bindNames hstate hstate' h hsame rfl rfl (Prod.ext rfl hnil) (Prod.ext rfl hnil')

end OutcomesCorrespond

end Idl
