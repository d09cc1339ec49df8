import Idl.Proofs.LinkedPrograms
import Idl.Proofs.LoadedProgram

/-!
# The order of the trees of a program

The trees of a loaded program are listed as a search in depth from the root leaves them: all of
them, once each, behind everything that they include, however often it is included, and the root
last. The search may take note of a tree when it enters it or when it leaves it, since no tree is
met while it is being searched.
-/
namespace Idl.Program

open Relation

variable {program : Program} {number other : Nat} {listed before after : List Nat}

/-! ### Order -/

theorem InOrder.mem_of_links (h : program.InOrder listed)
    (hlisted : listed = before ++ number :: after) (hlinks : Links program.trees number other) :
    other ∈ before := by
  induction h generalizing after with
  | nil => exact absurd hlisted.symm (by simp)
  | @concat listed last _ _ behind ih =>
    rcases List.eq_nil_or_concat after with rfl | ⟨rest, final, rfl⟩
    · obtain ⟨rfl, hlast⟩ := List.append_inj' hlisted rfl
      obtain rfl := List.head_eq_of_cons_eq hlast
      exact behind other hlinks
    · rw [List.concat_eq_append, ← List.cons_append, ← List.append_assoc] at hlisted
      exact ih (List.append_inj' hlisted rfl).1

/-- What a tree includes by some steps comes before it. -/
theorem InOrder.mem_of_transGen (h : program.InOrder listed)
    (hlisted : listed = before ++ number :: after)
    (hincludes : TransGen (Links program.trees) number other) : other ∈ before := by
  induction hincludes with
  | single hlinks => exact h.mem_of_links hlisted hlinks
  | tail _ hlinks ih =>
    obtain ⟨first, rest, rfl⟩ := List.append_of_mem ih
    rw [List.append_assoc, List.cons_append] at hlisted
    exact List.mem_append_left _ (h.mem_of_links hlisted hlinks)

theorem exists_visit_eq_concat (hnumber : number < program.trees.length)
    (hlisted : number ∉ listed) : ∃ before, program.visit number listed = before ++ [number] := by
  rw [visit, if_neg hlisted, List.getElem?_eq_getElem hnumber]
  exact ⟨_, rfl⟩

/-! ### Noting trees on entry -/

/-- Searches a tree in depth unless it has been entered. The search notes the trees that it enters
and those that it leaves; the depth bounds it. -/
def enter (program : Program) : Nat → Nat → List Nat × List Nat → List Nat × List Nat
  | 0, _, run => run
  | depth + 1, number, (entered, left) =>
    if number ∈ entered then (entered, left)
    else match program.trees[number]? with
      | none => (number :: entered, left)
      | some tree =>
        let run := tree.includes.foldl (fun run edge => program.enter depth edge.tree run)
          (number :: entered, left)
        (run.1, run.2 ++ [number])

/-- The trees that have been left are the listed ones. Those that have been entered are these and
the given ones. -/
structure Tracks (entered listed : List Nat) (run : List Nat × List Nat) : Prop where
  left_eq : run.2 = listed
  mem_iff : ∀ number, number ∈ run.1 ↔ number ∈ entered ∨ number ∈ listed

theorem Tracks.leave {entered : List Nat} {run : List Nat × List Nat}
    (h : Tracks (number :: entered) listed run) :
    Tracks entered (listed ++ [number]) (run.1, run.2 ++ [number]) where
  left_eq := by rw [h.left_eq]
  mem_iff other := by
    rw [h.mem_iff, List.mem_cons, List.mem_append, List.mem_singleton]
    tauto

theorem tracks_foldl (bound : Nat) {entered : List Nat} {search : List Nat × List Nat →
      IncludeEdge → List Nat × List Nat} {add : List Nat → IncludeEdge → List Nat}
    {edges : List IncludeEdge}
    (h : ∀ edge ∈ edges, ∀ run listed, Tracks entered listed run →
      (∀ other < bound, other ∈ entered → other ∈ listed) →
        Tracks entered (add listed edge) (search run edge) ∧ listed ⊆ add listed edge)
    {run : List Nat × List Nat} (hrun : Tracks entered listed run)
    (hleft : ∀ other < bound, other ∈ entered → other ∈ listed) :
    Tracks entered (edges.foldl add listed) (edges.foldl search run) := by
  induction edges generalizing run listed with
  | nil => exact hrun
  | cons edge edges ih =>
    obtain ⟨hfirst, hkept⟩ := h edge List.mem_cons_self run listed hrun hleft
    exact ih (fun other hother => h other (List.mem_cons_of_mem _ hother)) hfirst
      fun other hlt hentered => hkept (hleft other hlt hentered)

/-- A search from a tree leaves the trees that are listed from it, if no tree below is being
searched. -/
theorem tracks_enter (hordered : program.IsOrdered) {depth : Nat}
    (hnumber : number < program.trees.length) (hdepth : number < depth) {entered : List Nat}
    {run : List Nat × List Nat} (hrun : Tracks entered listed run)
    (hleft : ∀ other ≤ number, other ∈ entered → other ∈ listed) :
    Tracks entered (program.visit number listed) (program.enter depth number run) := by
  induction depth generalizing number run entered listed with
  | zero => omega
  | succ depth ih =>
    have hmem : number ∈ run.1 ↔ number ∈ listed :=
      (hrun.mem_iff number).trans ⟨fun h => h.elim (hleft number (le_refl _)) id, .inr⟩
    have htree := List.getElem?_eq_getElem hnumber
    generalize program.trees[number] = tree at htree
    rw [enter, visit]
    by_cases hlisted : number ∈ listed
    · rw [if_pos (hmem.2 hlisted), if_pos hlisted]
      exact hrun
    · -- the number itself is entered but not left, which does not matter to lower numbers
      rw [if_neg (mt hmem.1 hlisted), if_neg hlisted, htree]
      refine Tracks.leave (tracks_foldl number ?_ ?_ ?_)
      · intro edge hedge run listed hrun hleft
        have hlt := hordered number tree htree edge hedge
        rw [if_pos hlt]
        refine ⟨ih (hlt.trans hnumber) (by omega) hrun fun other hle => hleft other (by omega), ?_⟩
        exact (lists_visit hordered (hlt.trans hnumber) listed).kept
      · refine ⟨hrun.left_eq, fun other => ?_⟩
        rw [List.mem_cons, List.mem_cons, hrun.mem_iff, or_assoc]
      · intro other hlt hentered
        refine hleft other hlt.le ((List.mem_cons.1 hentered).resolve_left ?_)
        omega

/-- The trees are listed as a search that notes them on entry leaves them. -/
theorem flatten_eq_enter (h : program.IsLinked) {depth : Nat} (hdepth : program.root < depth) :
    program.flatten = (program.enter depth program.root ([], [])).2 := by
  have hempty : Tracks [] [] ([], []) := ⟨rfl, fun _ => by simp⟩
  exact (tracks_enter h.ordered h.rooted hdepth hempty fun _ _ hmem =>
    absurd hmem List.not_mem_nil).left_eq.symm

/-! ### Loaded programs -/

/-- The trees of a loaded program are in topological order. Each is listed once, behind all that it
includes, and the root last, from which all trees are reached. -/
theorem flatten_of_loadProgram {loader : Loader} {includePaths : List String} {root : String}
    {diagnostics : List Diagnostic}
    (h : loadProgram loader includePaths root = .ok (some program, diagnostics)) :
    program.flatten.Perm (List.range program.trees.length) ∧
      (∀ before number after, program.flatten = before ++ number :: after →
        ∀ other, TransGen (Links program.trees) number other → other ∈ before) ∧
      (∃ before, program.flatten = before ++ [program.root]) ∧
      ∀ number < program.trees.length,
        ReflTransGen (Links program.trees) program.root number := by
  have hlinked := isLinked_of_loadProgram h
  have hordered := inOrder_flatten hlinked
  refine ⟨?_, fun before number after hlisted other => hordered.mem_of_transGen hlisted,
    exists_visit_eq_concat hlinked.rooted List.not_mem_nil, hlinked.reached⟩
  refine (List.perm_ext_iff_of_nodup hordered.nodup List.nodup_range).2 fun number => ?_
  rw [mem_flatten_iff hlinked, List.mem_range]

/-- The trees of a file that includes two others, both of which include one file. -/
def diamondTrees : List SourceTree :=
  [⟨"d", ⟨"d.thrift", "struct D \x7b\x7d"⟩,
      ⟨[], [], [.struct ⟨.struct, ⟨"D", ⟨7, 8⟩⟩, [], ⟨0, 11⟩⟩], ⟨0, 11⟩⟩, []⟩,
    ⟨"b", ⟨"b.thrift", "include \"d\""⟩, ⟨[], [⟨⟨"d", ⟨8, 11⟩⟩, ⟨0, 11⟩⟩], [], ⟨0, 11⟩⟩,
      [⟨"d", ⟨⟨"d", ⟨8, 11⟩⟩, ⟨0, 11⟩⟩, 0⟩]⟩,
    ⟨"c", ⟨"c.thrift", "include \"./d\""⟩, ⟨[], [⟨⟨"./d", ⟨8, 13⟩⟩, ⟨0, 13⟩⟩], [], ⟨0, 13⟩⟩,
      [⟨"d", ⟨⟨"./d", ⟨8, 13⟩⟩, ⟨0, 13⟩⟩, 0⟩]⟩,
    ⟨"a", ⟨"a.thrift", "include \"b\" include \"c\""⟩,
      ⟨[], [⟨⟨"b", ⟨8, 11⟩⟩, ⟨0, 11⟩⟩, ⟨⟨"c", ⟨20, 23⟩⟩, ⟨12, 23⟩⟩], [], ⟨0, 23⟩⟩,
      [⟨"b", ⟨⟨"b", ⟨8, 11⟩⟩, ⟨0, 11⟩⟩, 1⟩, ⟨"c", ⟨⟨"c", ⟨20, 23⟩⟩, ⟨12, 23⟩⟩, 2⟩]⟩]

theorem parse_diamondTrees : ∀ tree ∈ diamondTrees,
    ∃ nodes, tree.source.parse = .ok ⟨tree.document, nodes⟩ := by
  simp only [diamondTrees, List.forall_mem_cons]
  refine ⟨⟨3, ?_⟩, ⟨3, ?_⟩, ⟨3, ?_⟩, ⟨5, ?_⟩, fun _ hmem => absurd hmem List.not_mem_nil⟩
  all_goals decide +kernel

theorem loadProgram_eq_diamondTrees :
    loadProgram diamondFiles.loader [] "a.thrift" = .ok (some ⟨diamondTrees, 3⟩, []) := by
  have hparse := parse_diamondTrees
  simp only [diamondTrees, List.forall_mem_cons] at hparse
  obtain ⟨⟨_, hshared⟩, ⟨_, hleft⟩, ⟨_, hright⟩, ⟨_, hroot⟩, -⟩ := hparse
  -- the file that both include is loaded for the first of them, and done for the second
  have hfresh := followIncludes_concat_of_fresh
    (@followIncludes_nil diamondFiles.loader [] ["b.thrift", "a.thrift"]
      ⟨"b.thrift", "include \"d\""⟩ .empty)
    ⟨⟨"d", ⟨8, 11⟩⟩, ⟨0, 11⟩⟩ ⟨"d.thrift", "d.thrift", "struct D \x7b\x7d"⟩ (by decide) (by decide)
    rfl rfl (loadFile_of_includes_eq_nil _ _ _ hshared rfl)
  have hfirst := followIncludes_concat_of_fresh
    (@followIncludes_nil diamondFiles.loader [] ["a.thrift"]
      ⟨"a.thrift", "include \"b\" include \"c\""⟩ .empty)
    ⟨⟨"b", ⟨8, 11⟩⟩, ⟨0, 11⟩⟩ ⟨"b.thrift", "b.thrift", "include \"d\""⟩ (by decide) (by decide) rfl
    rfl (loadFile_of_followIncludes _ _ hleft hfresh)
  have hsecond := followIncludes_concat_of_fresh hfirst ⟨⟨"c", ⟨20, 23⟩⟩, ⟨12, 23⟩⟩
    ⟨"c.thrift", "c.thrift", "include \"./d\""⟩ (by decide) (by decide) rfl rfl
    (loadFile_of_followIncludes _ _ hright rfl)
  exact loadProgram_of_followIncludes rfl rfl hroot hsecond rfl

/-- A file that two others include is listed once, in front of both. -/
theorem flatten_diamondFiles :
    loadProgram diamondFiles.loader [] "a.thrift" = .ok (some ⟨diamondTrees, 3⟩, []) ∧
      flatten ⟨diamondTrees, 3⟩ = [0, 1, 2, 3] ∧
      Links diamondTrees 1 0 ∧ Links diamondTrees 2 0 ∧
      (∀ other, TransGen (Links diamondTrees) 2 other → other ∈ [0, 1]) ∧
      ∀ number < 4, ReflTransGen (Links diamondTrees) 3 number := by
  obtain ⟨-, hbehind, -, hreached⟩ := flatten_of_loadProgram loadProgram_eq_diamondTrees
  have hflatten : flatten ⟨diamondTrees, 3⟩ = [0, 1, 2, 3] := by decide +kernel
  refine ⟨loadProgram_eq_diamondTrees, hflatten, ?_, ?_, hbehind [0, 1] 2 [3] hflatten, hreached⟩
  · exact ⟨_, rfl, _, List.mem_cons_self, rfl⟩
  · exact ⟨_, rfl, _, List.mem_cons_self, rfl⟩

end Idl.Program
