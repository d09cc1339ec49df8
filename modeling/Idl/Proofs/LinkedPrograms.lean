import Idl.Proofs.DiagnosticPlaces
import Idl.Proofs.Loading

/-!
# How the trees of a program hang together

Wherever files are read from, the trees of a loaded program are what their files are parsed to,
every include edge leads to a tree with a lower number, and every tree is reached from the root.
The trees are listed once each, behind those that they include.
-/
namespace Idl

/-- One tree has an include edge to the other. -/
def Links (trees : List SourceTree) (number other : Nat) : Prop :=
  ∃ tree, trees[number]? = some tree ∧ ∃ edge ∈ tree.includes, edge.tree = other

theorem Links.mono {trees more : List SourceTree} (h : trees <+: more) {number other : Nat}
    (hlinks : Links trees number other) : Links more number other := by
  obtain ⟨tree, htree, hedge⟩ := hlinks
  exact ⟨tree, getElem?_of_isPrefix h htree, hedge⟩

theorem Links.reaches_mono {trees more : List SourceTree} (h : trees <+: more) {number other : Nat}
    (hreached : Relation.ReflTransGen (Links trees) number other) :
    Relation.ReflTransGen (Links more) number other :=
  Relation.ReflTransGen.mono (fun _ _ => Links.mono h) _ _ hreached

structure Program.IsLinked (program : Program) : Prop where
  parsed : ∀ tree ∈ program.trees, ∃ nodes, tree.source.parse = .ok ⟨tree.document, nodes⟩
  directives : ∀ tree ∈ program.trees, ∀ edge ∈ tree.includes,
    edge.directive ∈ tree.document.includes
  ordered : program.IsOrdered
  rooted : program.root < program.trees.length
  reached : ∀ number < program.trees.length,
    Relation.ReflTransGen (Links program.trees) program.root number

/-! ### Loading -/

namespace Loading

/-- The numbers that have been given out are those of trees. -/
structure IsLinked (state : Loading) : Prop where
  below : ∀ (number : Nat) (tree : SourceTree), state.trees[number]? = some tree →
    ∀ edge ∈ tree.includes, edge.tree < number
  numbered : ∀ canonical number, state.finished.lookup canonical = some (some number) →
    number < state.trees.length

/-- Loading has gone on, and unless it has failed the trees that it has added are reached from the
given ones. -/
structure Adds (start : Loading) (numbers : List Nat) (state : Loading) : Prop where
  linked : state.IsLinked
  kept : start.trees <+: state.trees
  failed : start.failed = true → state.failed = true
  numbered : ∀ number ∈ numbers, number < state.trees.length
  reached : state.failed = false → ∀ number, start.trees.length ≤ number →
    number < state.trees.length →
      ∃ first ∈ numbers, Relation.ReflTransGen (Links state.trees) first number

variable {start middle state : Loading} {numbers more : List Nat}

theorem isLinked_empty : empty.IsLinked where
  below _ _ htree := by cases htree
  numbered _ _ hlookup := by cases hlookup

theorem Adds.refl (h : state.IsLinked)
    (hnumbers : ∀ number ∈ numbers, number < state.trees.length) :
    Adds state numbers state :=
  ⟨h, List.prefix_rfl, id, hnumbers, fun _ _ hle hlt => absurd hle (Nat.not_le.2 hlt)⟩

theorem Adds.trans (h : Adds start numbers middle) (h' : Adds middle more state) :
    Adds start (numbers ++ more) state where
  linked := h'.linked
  kept := h.kept.trans h'.kept
  failed := h'.failed ∘ h.failed
  numbered := List.forall_mem_append.2
    ⟨fun number hnumber => (h.numbered number hnumber).trans_le h'.kept.length_le, h'.numbered⟩
  reached hfailed number hle hlt := by
    rcases Nat.lt_or_ge number middle.trees.length with hmiddle | hmiddle
    · have hmiddleFailed : middle.failed = false :=
        Bool.eq_false_iff.2 fun h => by simp [h'.failed h] at hfailed
      obtain ⟨first, hfirst, hreached⟩ := h.reached hmiddleFailed number hle hmiddle
      exact ⟨first, List.mem_append_left _ hfirst, Links.reaches_mono h'.kept hreached⟩
    · obtain ⟨first, hfirst, hreached⟩ := h'.reached hfailed number hmiddle hlt
      exact ⟨first, List.mem_append_right _ hfirst, hreached⟩

theorem Adds.report (h : Adds start numbers state) (source : Source) (reports : List Report) :
    Adds start numbers (state.report source reports) :=
  ⟨⟨h.linked.below, h.linked.numbered⟩, h.kept, h.failed, h.numbered, h.reached⟩

theorem Adds.fail (h : Adds start numbers state) (canonical : String) :
    Adds start [] (state.fail canonical) where
  linked := by
    refine ⟨h.linked.below, fun other number hlookup => ?_⟩
    rw [Loading.fail, List.lookup_cons] at hlookup
    split at hlookup
    · cases hlookup
    · exact h.linked.numbered other number hlookup
  kept := h.kept
  failed _ := rfl
  numbered := fun _ hmem => absurd hmem List.not_mem_nil
  reached hfailed := absurd hfailed (by simp [Loading.fail])

theorem Adds.finish {tree : SourceTree} (h : Adds start (tree.includes.map IncludeEdge.tree) state)
    (canonical : String) :
    Adds start (state.finish canonical tree).1.toList (state.finish canonical tree).2 where
  linked := by
    refine ⟨fun number other hother edge hedge => ?_, fun other number hlookup => ?_⟩
    · rcases getElem?_concat_eq_some hother with hother | ⟨rfl, rfl⟩
      · exact h.linked.below number other hother edge hedge
      · exact h.numbered _ (List.mem_map_of_mem hedge)
    · simp only [Loading.finish, List.length_append, List.length_singleton]
      simp only [Loading.finish, List.lookup_cons] at hlookup
      split at hlookup
      · obtain rfl := Option.some.inj (Option.some.inj hlookup)
        omega
      · exact (h.linked.numbered other number hlookup).trans (Nat.lt_succ_self _)
  kept := h.kept.trans (List.prefix_append _ _)
  failed := h.failed
  numbered number hnumber := by
    simp only [Loading.finish, Option.toList, List.mem_singleton] at hnumber
    simp [Loading.finish, hnumber]
  reached hfailed number hle hlt := by
    refine ⟨state.trees.length, by simp [Loading.finish], ?_⟩
    simp only [Loading.finish, List.length_append, List.length_singleton] at hfailed hlt
    rcases Nat.lt_or_ge number state.trees.length with hold | hnew
    · obtain ⟨first, hfirst, hreached⟩ := h.reached hfailed number hle hold
      obtain ⟨edge, hedge, rfl⟩ := List.mem_map.1 hfirst
      refine .head ⟨tree, List.getElem?_concat_length, edge, hedge, rfl⟩
        (Links.reaches_mono (List.prefix_append _ _) hreached)
    · obtain rfl : number = state.trees.length := by omega
      exact .refl

end Loading

theorem IncludeProgress.adds_settle {start : Loading} {progress : IncludeProgress}
    (h : start.Adds (progress.edges.map IncludeEdge.tree) progress.state) (name : String)
    (directive : IncludeDirective) {outcome : Option Nat × Loading}
    (houtcome : progress.state.Adds outcome.1.toList outcome.2) :
    start.Adds ((progress.settle name directive outcome).edges.map IncludeEdge.tree)
      (progress.settle name directive outcome).state := by
  have htrans := h.trans houtcome
  obtain ⟨tree | tree, state⟩ := outcome
  · exact (List.append_nil (progress.edges.map IncludeEdge.tree)) ▸ htrans
  · simpa [IncludeProgress.settle] using htrans

section

variable {loader : Loader} {includePaths active : List String}

theorem IncludeProgress.adds_followIncludes (source : Source) {start : Loading}
    (hstart : start.IsLinked)
    (hload : ∀ (next : FoundFile) (is_file : next.canonical ∈ loader.paths)
      (is_new : next.canonical ∉ active) (state : Loading), state.IsLinked →
        state.Adds (loadFile loader includePaths active next is_file is_new state).1.toList
          (loadFile loader includePaths active next is_file is_new state).2)
    (directives : List IncludeDirective) :
    start.Adds ((followIncludes loader includePaths active source start directives).edges.map
        IncludeEdge.tree)
      (followIncludes loader includePaths active source start directives).state := by
  induction directives using List.reverseRecOn with
  | nil => exact .refl hstart fun _ hmem => absurd hmem List.not_mem_nil
  | append_singleton done directive ih =>
    rw [followIncludes_concat]
    have hrefl : Loading.Adds _ [] (followIncludes loader includePaths active source start
        done).state := .refl ih.linked fun _ hmem => absurd hmem List.not_mem_nil
    unfold followInclude
    apply adds_settle ih
    split
    · exact hrefl.report _ _
    · split
      · exact hrefl.report _ _
      · next hfinished =>
        cases hfinished ▸ resolves_resolveInclude loader includePaths active _ source directive with
        | @finished _ canonical _ _ _ hlookup =>
          refine .refl ih.linked fun number hnumber => ih.linked.numbered canonical number ?_
          exact hlookup.trans (congrArg some (Option.mem_toList.1 hnumber))
      · exact hload _ _ _ _ ih.linked

/-- Loading a file adds trees that are reached from its own. -/
theorem Loading.adds_loadFile {file : FoundFile} (is_file : file.canonical ∈ loader.paths)
    (is_new : file.canonical ∉ active) {state : Loading} (h : state.IsLinked) :
    state.Adds (loadFile loader includePaths active file is_file is_new state).1.toList
      (loadFile loader includePaths active file is_file is_new state).2 := by
  induction hsize : idleFiles loader active using Nat.strong_induction_on
    generalizing active file state with
  | h size ih =>
    have hrefl : state.Adds [] state := .refl h fun _ hmem => absurd hmem List.not_mem_nil
    cases hparsed : Source.parse ⟨file.path, file.text⟩ with
    | error failure =>
      rw [loadFile_of_parse_eq_error is_file is_new state hparsed]
      exact (hrefl.report _ _).fail _
    | ok parsed =>
      rw [loadFile_of_parse_eq_ok is_file is_new state hparsed]
      have hprogress := IncludeProgress.adds_followIncludes ⟨file.path, file.text⟩ h
        (fun next next_is_file next_is_new state hstate =>
          ih _ (hsize ▸ idleFiles_cons_lt is_file is_new) next_is_file next_is_new hstate rfl)
        parsed.document.includes
      simp only
      split
      · exact Loading.Adds.finish hprogress _
      · exact hprogress.fail _

theorem Loading.adds_loadRoot {root : String} {number? : Option Nat} {state : Loading}
    (h : loadRoot loader includePaths root = .ok (number?, state)) :
    Loading.empty.Adds number?.toList state := by
  obtain ⟨file, hfile, -, heq⟩ := exists_loadFile_of_loadRoot h
  obtain ⟨hnumber, hstate⟩ := Prod.mk.inj heq
  rw [hnumber, hstate]
  exact Loading.adds_loadFile _ _ isLinked_empty

end

theorem isLinked_of_loadProgram {loader : Loader} {includePaths : List String} {root : String}
    {program : Program} {diagnostics : List Diagnostic}
    (h : loadProgram loader includePaths root = .ok (some program, diagnostics)) :
    program.IsLinked := by
  obtain ⟨number, state, hroot, hfailed, rfl⟩ := exists_loadRoot_of_loadProgram h
  have hstate := Loading.comesFrom_loadRoot hroot
  have hadds := Loading.adds_loadRoot hroot
  refine ⟨fun tree htree => (hstate.trees tree htree).parsed,
    fun tree htree => (hstate.trees tree htree).directives, hadds.linked.below,
    hadds.numbered number List.mem_cons_self, fun other hother => ?_⟩
  obtain ⟨first, hfirst, hreached⟩ := hadds.reached hfailed other (Nat.zero_le other) hother
  obtain rfl := List.mem_singleton.1 hfirst
  exact hreached

/-! ### Listing the trees -/

namespace Program

variable {program : Program}

/-- Each tree is listed once, behind the trees that it includes. -/
inductive InOrder (program : Program) : List Nat → Prop
  | nil : InOrder program []
  | concat {listed number} (h : InOrder program listed) (new : number ∉ listed)
      (behind : ∀ other, Links program.trees number other → other ∈ listed) :
      InOrder program (listed ++ [number])

theorem InOrder.nodup {listed : List Nat} (h : program.InOrder listed) : listed.Nodup := by
  induction h with
  | nil => exact .nil
  | concat _ new _ ih =>
    rw [← List.concat_eq_append]
    exact ih.concat new

/-- A list has been added to, by numbers below the bound. -/
structure AddsBelow (program : Program) (bound : Nat) (listed after : List Nat) : Prop where
  inOrder : program.InOrder listed → program.InOrder after
  below : ∀ number ∈ after, number ∈ listed ∨ number < bound

theorem addsBelow_foldl {bound : Nat} {add : List Nat → IncludeEdge → List Nat}
    {edges : List IncludeEdge}
    (h : ∀ edge ∈ edges, ∀ listed, program.AddsBelow bound listed (add listed edge))
    (listed : List Nat) : program.AddsBelow bound listed (edges.foldl add listed) := by
  induction edges generalizing listed with
  | nil => exact ⟨id, fun _ hnumber => .inl hnumber⟩
  | cons edge edges ih =>
    have hfirst := h edge List.mem_cons_self listed
    have hrest := ih (fun other hother => h other (List.mem_cons_of_mem _ hother)) (add listed edge)
    refine ⟨hrest.inOrder ∘ hfirst.inOrder, fun number hnumber => ?_⟩
    rcases hrest.below number hnumber with hnumber | hlt
    · exact hfirst.below number hnumber
    · exact .inr hlt

theorem addsBelow_visit (hordered : program.IsOrdered) {number : Nat}
    (hnumber : number < program.trees.length) (listed : List Nat) :
    program.AddsBelow (number + 1) listed (program.visit number listed) := by
  induction number using Nat.strong_induction_on generalizing listed with
  | _ number ih =>
    have htree := List.getElem?_eq_getElem hnumber
    generalize program.trees[number] = tree at htree
    rw [visit]
    by_cases hlisted : number ∈ listed
    · rw [if_pos hlisted]
      exact ⟨id, fun _ hnumber => .inl hnumber⟩
    · rw [if_neg hlisted, htree]
      simp only
      have hvisits : ∀ edge ∈ tree.includes, ∀ listed,
          program.Lists listed [edge.tree]
            (if edge.tree < number then program.visit edge.tree listed else listed) ∧
          program.AddsBelow number listed
            (if edge.tree < number then program.visit edge.tree listed else listed) := by
        intro edge hedge listed
        have hlt := hordered number tree htree edge hedge
        have hadds := ih edge.tree hlt (hlt.trans hnumber) listed
        rw [if_pos hlt]
        refine ⟨lists_visit hordered (hlt.trans hnumber) listed, hadds.inOrder, ?_⟩
        intro other hother
        exact (hadds.below other hother).imp_right fun h => by omega
      have hlists := lists_foldl (fun edge hedge listed => (hvisits edge hedge listed).1) listed
      have hadds := addsBelow_foldl (fun edge hedge listed => (hvisits edge hedge listed).2) listed
      -- only lower numbers were added since the number was found to be new
      refine ⟨fun h => .concat (hadds.inOrder h) ?_ ?_, ?_⟩
      · intro hmem
        exact (hadds.below number hmem).elim hlisted (lt_irrefl number)
      · rintro other ⟨found, hfound, edge, hedge, rfl⟩
        obtain rfl := Option.some.inj (htree.symm.trans hfound)
        exact hlists.added (List.mem_map_of_mem hedge)
      · intro other hother
        rcases List.mem_append.1 hother with hother | hother
        · exact (hadds.below other hother).imp_right fun h => by omega
        · exact .inr (by rw [List.mem_singleton.1 hother]; omega)

theorem inOrder_flatten (h : program.IsLinked) : program.InOrder program.flatten :=
  (addsBelow_visit h.ordered h.rooted []).inOrder .nil

/-- Exactly the trees of the program are listed. -/
theorem mem_flatten_iff (h : program.IsLinked) (number : Nat) :
    number ∈ program.flatten ↔ number < program.trees.length := by
  obtain ⟨hroot, hclosed⟩ := lists_flatten h.ordered h.rooted
  refine ⟨fun hnumber => ?_, fun hnumber => ?_⟩
  · have hbelow := (addsBelow_visit h.ordered h.rooted []).below number hnumber
    have hrooted := h.rooted
    rcases hbelow with hbelow | hbelow
    · cases hbelow
    · omega
  · induction h.reached number hnumber with
    | refl => exact hroot
    | tail _ hlinks ih =>
      obtain ⟨tree, htree, edge, hedge, rfl⟩ := hlinks
      exact hclosed _ (ih (List.getElem?_eq_some_iff.1 htree).1) tree htree edge hedge

end Program
end Idl
