import Idl.Proofs.IncludeClosure
import Mathlib.Data.List.Induction

/-!
# Steps of the loading

Loading reports problems and ends files, with a tree or without. What each of these steps keeps is
kept by a whole run, whatever the loader.
-/
namespace Idl

section

variable {loader : Loader} {includePaths active : List String} {source : Source}
variable {finished : List (String × Option Nat)} {directive : IncludeDirective}

/-! ### Edges -/

/-- The edges of the tree are those of the include directives, in order. -/
def SourceTree.FollowsDirectives (tree : SourceTree) : Prop :=
  tree.includes.map (fun edge => (edge.name, edge.directive)) =
    tree.document.includes.map fun directive => (directive.package, directive)

/-- A file stays complete only if each directive leads to a tree. -/
theorem IncludeProgress.edges_settle {progress : IncludeProgress} {name : String}
    {outcome : Option Nat × Loading}
    (h : (progress.settle name directive outcome).complete = true) :
    progress.complete = true ∧ ∃ tree, outcome.1 = some tree ∧
      (progress.settle name directive outcome).edges =
        progress.edges ++ [⟨name, directive, tree⟩] := by
  obtain ⟨tree | tree, state⟩ := outcome
  · cases h
  · exact ⟨h, tree, rfl, rfl⟩

theorem IncludeProgress.edges_followIncludes (state : Loading)
    (directives : List IncludeDirective)
    (h : (followIncludes loader includePaths active source state directives).complete = true) :
    (followIncludes loader includePaths active source state directives).edges.map
        (fun edge => (edge.name, edge.directive)) =
      directives.map fun directive => (directive.package, directive) := by
  induction directives using List.reverseRecOn with
  | nil => rfl
  | append_singleton done directive ih =>
    rw [followIncludes_concat, followInclude] at h ⊢
    obtain ⟨hbefore, tree, -, hedges⟩ := IncludeProgress.edges_settle h
    rw [hedges, List.map_append, List.map_append, ih hbefore]
    rfl

/-! ### Empty files -/

def emptyDocument : ParsedDocument :=
  ⟨⟨[], [], [], ⟨0, 0⟩⟩, 1⟩

theorem parse_empty (path : String) : Source.parse ⟨path, ""⟩ = .ok emptyDocument := by
  have htokens : Source.tokens ⟨path, ""⟩ = [⟨.finish, ⟨0, 0⟩⟩] := by
    simp only [Source.tokens, Source.chars]
    decide +kernel
  rw [Source.parse, htokens]
  rfl

/-! ### Runs -/

/-- The tree of a file has the file's path and the edges of its include directives. -/
structure SourceTree.IsOf (loader : Loader) (canonical : String) (tree : SourceTree) : Prop where
  found : loader.canonicalize tree.source.path = .ok canonical
  follows : tree.FollowsDirectives

/-- What every step of the loading keeps. -/
structure Loading.IsKept (loader : Loader) (holds : Loading → Prop) : Prop where
  report : ∀ state source reports, holds state → holds (state.report source reports)
  fail : ∀ state canonical, holds state → holds (state.fail canonical)
  finish : ∀ state canonical (tree : SourceTree), tree.IsOf loader canonical → holds state →
    holds (state.finish canonical tree).2

namespace Loading.IsKept

variable {holds : Loading → Prop} (hkept : IsKept loader holds)

include hkept

theorem followInclude {progress : IncludeProgress} (h : holds progress.state)
    {load : (file : FoundFile) → file.canonical ∈ loader.paths → file.canonical ∉ active →
      Loading → Option Nat × Loading}
    (hload : ∀ next is_file is_new, next.IsIn loader →
      holds (load next is_file is_new progress.state).2) (directive : IncludeDirective) :
    holds (Idl.followInclude loader includePaths active source load progress directive).state := by
  rw [Idl.followInclude, state_settle]
  split
  · exact hkept.report _ _ _ h
  · split
    · exact hkept.report _ _ _ h
    · exact h
    · next hfresh => exact hload _ _ _ (isIn_of_resolveInclude hfresh)

theorem followIncludes (source : Source) {state : Loading} (h : holds state)
    (hload : ∀ (next : FoundFile) is_file is_new state, next.IsIn loader → holds state →
      holds (loadFile loader includePaths active next is_file is_new state).2)
    (directives : List IncludeDirective) :
    holds (Idl.followIncludes loader includePaths active source state directives).state := by
  induction directives using List.reverseRecOn with
  | nil => exact h
  | append_singleton done directive ih =>
    rw [followIncludes_concat]
    exact hkept.followInclude ih (fun next is_file is_new hnext => hload next is_file is_new _ hnext
      ih) directive

theorem loadFile {file : FoundFile} (hfile : file.IsIn loader)
    (is_file : file.canonical ∈ loader.paths) (is_new : file.canonical ∉ active) {state : Loading}
    (h : holds state) :
    holds (Idl.loadFile loader includePaths active file is_file is_new state).2 := by
  induction hsize : idleFiles loader active using Nat.strong_induction_on
    generalizing active file state with
  | h size ih =>
    cases hparsed : Source.parse ⟨file.path, file.text⟩ with
    | error failure =>
      rw [Idl.loadFile]
      simp only [hparsed]
      exact hkept.fail _ _ (hkept.report _ _ _ h)
    | ok parsed =>
      rw [loadFile_of_parse_eq_ok is_file is_new state hparsed]
      have hincludes := hkept.followIncludes ⟨file.path, file.text⟩ h
        (fun next next_is_file next_is_new state hnext hstate =>
          ih _ (hsize ▸ idleFiles_cons_lt is_file is_new) hnext next_is_file next_is_new hstate rfl)
        parsed.document.includes
      simp only
      split
      · next hcomplete =>
        exact hkept.finish _ _ _
          ⟨hfile.found, IncludeProgress.edges_followIncludes _ _ hcomplete⟩ hincludes
      · exact hkept.fail _ _ hincludes

theorem loadRoot (hempty : holds .empty) {root : String} {number? : Option Nat} {state : Loading}
    (h : Idl.loadRoot loader includePaths root = .ok (number?, state)) : holds state := by
  obtain ⟨file, hfile, -, heq⟩ := exists_loadFile_of_loadRoot h
  rw [show state = _ from congrArg Prod.snd heq]
  exact hkept.loadFile hfile _ _ hempty

end Loading.IsKept

/-- The trees of a loaded program have the edges of their include directives. -/
theorem followsDirectives_of_loadProgram {root : String} {program : Program}
    {diagnostics : List Diagnostic}
    (h : loadProgram loader includePaths root = .ok (some program, diagnostics)) :
    ∀ tree ∈ program.trees, tree.FollowsDirectives := by
  obtain ⟨number, state, hroot, -, rfl⟩ := exists_loadRoot_of_loadProgram h
  have hkept : Loading.IsKept loader fun state => ∀ tree ∈ state.trees, tree.FollowsDirectives :=
    ⟨fun _ _ _ h => h, fun _ _ h => h, fun _ _ _ htree h =>
      List.forall_mem_append.2 ⟨h, List.forall_mem_singleton.2 htree.follows⟩⟩
  exact hkept.loadRoot (fun _ hmem => absurd hmem List.not_mem_nil) hroot

end

end Idl
