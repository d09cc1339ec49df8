import Idl.Proofs.Loading

/-!
# The program of a root file

If nothing failed, the trees are exactly the files in the include closure of the root, and they
bear out that the root can be loaded: every include leads to an earlier tree, so no file includes
itself.
-/
namespace Idl

section

variable (files : MemoryFiles) (includePaths : List String) (root : String)

/-- The root file has been loaded, and nothing failed. Its tree is the last. -/
structure Loading.IsComplete (number : Nat) (state : Loading) : Prop where
  sound : state.Sound files includePaths root
  succeeded : state.failed = false
  last : ∃ before tree, state.trees = before ++ [tree] ∧ number = before.length ∧
    tree.source.path = root

/-- The program has one tree for each file in the include closure of the root, and each tree has
one edge for each include directive, to the tree of the file that the directive leads to. -/
structure Program.Represents (program : Program) : Prop where
  rooted : ∃ tree, program.trees[program.root]? = some tree ∧ tree.source.path = root
  reached : ∀ tree ∈ program.trees, files.Reaches includePaths root tree.source.path
  covers : ∀ path, files.Reaches includePaths root path → ∃ tree ∈ program.trees,
    FilePath.normalize tree.source.path = FilePath.normalize path
  distinct : (program.trees.map fun tree => FilePath.normalize tree.source.path).Nodup
  contents : ∀ tree ∈ program.trees, files.read tree.source.path = .ok tree.source.text ∧
    (∃ nodes, tree.source.parse = .ok ⟨tree.document, nodes⟩) ∧
      tree.package = packageName tree.source.path
  edges : ∀ tree ∈ program.trees, ∀ path, files.Reaches includePaths root path →
    FilePath.normalize tree.source.path = FilePath.normalize path →
      List.Forall₂ (IncludeEdge.Fits files includePaths program.trees path)
        tree.document.includes tree.includes

end

variable {files : MemoryFiles} {includePaths : List String} {root : String}

theorem SourceTree.Fits.document? {trees : List SourceTree} {number : Nat} {tree : SourceTree}
    (h : tree.Fits files includePaths root trees number) :
    files.document? tree.source.path = some tree.document := by
  obtain ⟨nodes, hparsed⟩ := h.parsed
  rw [MemoryFiles.document?, h.read]
  change (tree.source.parse.toOption.map _) = _
  rw [hparsed]
  rfl

namespace Loading.IsComplete

variable {number : Nat} {state : Loading}

theorem eq_of_normalize_eq (h : state.IsComplete files includePaths root number)
    {first second : Nat} {tree other : SourceTree} (htree : state.trees[first]? = some tree)
    (hother : state.trees[second]? = some other)
    (hsame : FilePath.normalize tree.source.path = FilePath.normalize other.source.path) :
    first = second := by
  have hfirst := h.sound.listed htree
  rw [hsame, h.sound.listed hother] at hfirst
  exact (Option.some.inj (Option.some.inj hfirst)).symm

/-- The root comes last and nothing leads back to it. -/
theorem le_of_getElem? (h : state.IsComplete files includePaths root number) {other : Nat}
    {tree : SourceTree} (htree : state.trees[other]? = some tree) : other ≤ number := by
  obtain ⟨before, last, htrees, rfl, -⟩ := h.last
  have hlt := (List.getElem?_eq_some_iff.1 htree).1
  rw [htrees, List.length_append, List.length_singleton] at hlt
  omega

theorem root_getElem? (h : state.IsComplete files includePaths root number) :
    ∃ tree, state.trees[number]? = some tree ∧ tree.source.path = root := by
  obtain ⟨before, tree, htrees, rfl, hpath⟩ := h.last
  exact ⟨tree, by rw [htrees, List.getElem?_concat_length], hpath⟩

/-- Every include of a file is an edge of its tree. -/
theorem exists_edge (h : state.IsComplete files includePaths root number) {parent : Nat}
    {tree : SourceTree} (htree : state.trees[parent]? = some tree) {path next : String}
    (hpath : FilePath.Respells tree.source.path path)
    (hnext : files.Includes includePaths path next) :
    ∃ edge ∈ tree.includes, edge.tree < parent ∧ ∃ target, state.trees[edge.tree]? = some target ∧
      FilePath.Respells target.source.path next := by
  have hfits := h.sound.fits htree
  obtain ⟨document, hdocument, directive, hdirective, htarget⟩ := hnext
  obtain rfl : tree.document = document := by
    rw [← MemoryFiles.document?_congr hpath.normalize_eq, hfits.document?] at hdocument
    exact Option.some.inj hdocument
  obtain ⟨edge, hedge, hedgeFits⟩ := IncludeEdge.exists_edge hfits.edges hdirective
  obtain ⟨other, target, hother, htargetTree, hsame⟩ := hedgeFits.target
  have hbelow := hfits.below edge hedge
  refine ⟨edge, hedge, hbelow, target, htargetTree, ?_⟩
  obtain ⟨found, hfound, heq⟩ := MemoryFiles.exists_target?_of_respells hpath hother
  obtain rfl := Option.some.inj (hfound.symm.trans htarget)
  obtain ⟨second, hsecond⟩ := MemoryFiles.exists_fileName?_of_target? htarget
  rcases MemoryFiles.exists_fileName?_of_reaches (h.sound.fits htargetTree).reached with
    hroot | ⟨first, hfirst⟩
  · obtain ⟨last, hlast, hlastPath⟩ := h.root_getElem?
    have heq := h.eq_of_normalize_eq htargetTree hlast (by rw [hroot, hlastPath])
    have hle := h.le_of_getElem? htree
    omega
  · exact .inr ⟨first, second, hfirst, hsecond, hsame.trans heq.symm⟩

/-- What holds of the root's tree, and with a tree of all trees that its edges lead to, holds of a
tree of every file in the include closure. -/
theorem exists_tree (h : state.IsComplete files includePaths root number) (P : Nat → Prop)
    (hroot : P number)
    (hedge : ∀ parent tree, state.trees[parent]? = some tree → P parent →
      ∀ edge ∈ tree.includes, P edge.tree)
    {path : String} (hpath : files.Reaches includePaths root path) :
    ∃ other tree, P other ∧ state.trees[other]? = some tree ∧
      FilePath.Respells tree.source.path path := by
  induction hpath with
  | refl =>
    obtain ⟨tree, htree, hpath⟩ := h.root_getElem?
    exact ⟨number, tree, hroot, htree, .inl hpath⟩
  | tail _ hstep ih =>
    obtain ⟨parent, tree, hparent, htree, hsame⟩ := ih
    obtain ⟨edge, hmem, -, target, htarget, hsame⟩ := h.exists_edge htree hsame hstep
    exact ⟨edge.tree, target, hedge parent tree htree hparent edge hmem, htarget, hsame⟩

/-- Along includes the trees' numbers go down. -/
theorem exists_lt (h : state.IsComplete files includePaths root number) {parent : Nat}
    {tree : SourceTree} (htree : state.trees[parent]? = some tree) {path next : String}
    (hpath : FilePath.Respells tree.source.path path)
    (hnext : Relation.TransGen (files.Includes includePaths) path next) :
    ∃ other target, other < parent ∧ state.trees[other]? = some target ∧
      FilePath.Respells target.source.path next := by
  induction hnext with
  | single hstep =>
    obtain ⟨edge, -, hlt, target, htarget, hsame⟩ := h.exists_edge htree hpath hstep
    exact ⟨edge.tree, target, hlt, htarget, hsame⟩
  | tail _ hstep ih =>
    obtain ⟨middle, other, hmiddle, hother, hsame⟩ := ih
    obtain ⟨edge, -, hlt, target, htarget, hsame⟩ := h.exists_edge hother hsame hstep
    exact ⟨edge.tree, target, hlt.trans hmiddle, htarget, hsame⟩

theorem exists_respelled (h : state.IsComplete files includePaths root number) {path : String}
    (hpath : files.Reaches includePaths root path) :
    ∃ (other : Nat) (tree : SourceTree), state.trees[other]? = some tree ∧
      FilePath.Respells tree.source.path path ∧ files.document? path = some tree.document := by
  obtain ⟨other, tree, -, htree, hsame⟩ :=
    h.exists_tree (fun _ => True) True.intro (fun _ _ _ _ _ _ => True.intro) hpath
  refine ⟨other, tree, htree, hsame, ?_⟩
  rw [← MemoryFiles.document?_congr hsame.normalize_eq]
  exact (h.sound.fits htree).document?

theorem isLoadable (h : state.IsComplete files includePaths root number) :
    files.IsLoadable includePaths root where
  parses path hpath := by
    obtain ⟨other, tree, htree, -, hdocument⟩ := h.exists_respelled hpath
    exact ⟨tree.document, hdocument⟩
  resolves path document hpath hdocument directive hdirective := by
    obtain ⟨other, tree, htree, hsame, htreeDocument⟩ := h.exists_respelled hpath
    obtain rfl := Option.some.inj (htreeDocument.symm.trans hdocument)
    obtain ⟨edge, -, hedge⟩ := IncludeEdge.exists_edge (h.sound.fits htree).edges hdirective
    obtain ⟨next, -, htarget, -⟩ := hedge.target
    obtain ⟨found, hfound, -⟩ := MemoryFiles.exists_target?_of_respells hsame htarget
    exact ⟨found, hfound⟩
  distinct path document hpath hdocument := by
    obtain ⟨other, tree, htree, -, htreeDocument⟩ := h.exists_respelled hpath
    obtain rfl := Option.some.inj (htreeDocument.symm.trans hdocument)
    exact (h.sound.fits htree).distinct
  acyclic path next hpath hnext heq := by
    obtain ⟨parent, tree, htree, hsame, -⟩ := h.exists_respelled hpath
    obtain ⟨other, target, hlt, htarget, hsame'⟩ := h.exists_lt htree hsame hnext
    have hnumbers := h.eq_of_normalize_eq htree htarget
      (hsame.normalize_eq.trans (heq.trans hsame'.normalize_eq.symm))
    omega

theorem represents (h : state.IsComplete files includePaths root number) :
    Program.Represents files includePaths root ⟨state.trees, number⟩ where
  rooted := h.root_getElem?
  reached tree htree := by
    obtain ⟨other, hother⟩ := List.getElem?_of_mem htree
    exact (h.sound.fits hother).reached
  covers path hpath := by
    obtain ⟨other, tree, htree, hsame, -⟩ := h.exists_respelled hpath
    exact ⟨tree, List.mem_of_getElem? htree, hsame.normalize_eq⟩
  distinct := by
    rw [List.nodup_iff_pairwise_ne, List.pairwise_iff_getElem]
    intro first second hfirst hsecond hlt hsame
    rw [List.length_map] at hfirst hsecond
    rw [List.getElem_map, List.getElem_map] at hsame
    have heq := h.eq_of_normalize_eq (List.getElem?_eq_getElem hfirst)
      (List.getElem?_eq_getElem hsecond) hsame
    omega
  contents tree htree := by
    obtain ⟨other, hother⟩ := List.getElem?_of_mem htree
    have hfits := h.sound.fits hother
    exact ⟨hfits.read, hfits.parsed, hfits.package⟩
  edges tree htree path hpath hsame := by
    obtain ⟨first, hfirst⟩ := List.getElem?_of_mem htree
    obtain ⟨second, other, hsecond, hrespells, -⟩ := h.exists_respelled hpath
    obtain rfl := h.eq_of_normalize_eq hfirst hsecond (hsame.trans hrespells.normalize_eq.symm)
    obtain rfl := Option.some.inj (hfirst.symm.trans hsecond)
    exact (h.sound.fits hfirst).edges.imp fun _ _ hedge => hedge.respell hrespells

end Loading.IsComplete

/-- Loading a readable root either is complete or has failed. -/
theorem loadRoot_spec {text : String} (hread : files.read root = .ok text) :
    ∃ number? state, loadRoot files.loader includePaths root = .ok (number?, state) ∧
      state.Sound files includePaths root ∧
        (state.failed = false → ∃ number, number? = some number ∧ state.diagnostics = [] ∧
          state.IsComplete files includePaths root number) := by
  have hcanonical : files.loader.canonicalize root = .ok (FilePath.normalize root) :=
    MemoryFiles.canonicalize_eq_ok_iff.2 ⟨rfl, text, hread⟩
  have hready : Loading.Ready files includePaths root []
      ⟨root, FilePath.normalize root, text⟩ .empty :=
    ⟨Loading.sound_empty, fun _ _ => rfl, rfl, hread, .refl,
      fun _ hmem => absurd hmem List.not_mem_nil⟩
  have hlookup : files.loader.read (FilePath.normalize root) = .ok text := hread
  have hleads := hready.loadFile (files.loader.mem_paths hlookup) List.not_mem_nil
  refine ⟨_, _, loadRoot_eq hcanonical hlookup, hleads.sound, fun hfailed => ?_⟩
  cases hnumber : (loadFile files.loader includePaths [] ⟨root, FilePath.normalize root, text⟩
      (files.loader.mem_paths hlookup) List.not_mem_nil .empty).1 with
  | none => exact absurd (Loading.failed_of_loadFile hnumber) (by simp [hfailed])
  | some number =>
    exact ⟨number, rfl, (hleads.found hnumber).2 hfailed, hleads.sound, hfailed,
      Loading.last_of_loadFile hnumber⟩

/-- A readable root file gives a program exactly if it can be loaded. Then nothing is reported and
the program represents the include closure; otherwise something is reported. -/
theorem loadProgram_iff_isLoadable (files : MemoryFiles) (includePaths : List String)
    {root text : String} (hread : files.read root = .ok text) :
    ∃ program? diagnostics,
      loadProgram files.loader includePaths root = .ok (program?, diagnostics) ∧
        (program?.isSome ↔ files.IsLoadable includePaths root) ∧
        (∀ program, program? = some program →
          diagnostics = [] ∧ program.Represents files includePaths root) ∧
        (program? = none → diagnostics ≠ []) := by
  obtain ⟨number?, state, hload, hsound, hcomplete⟩ :=
    @loadRoot_spec files includePaths root text hread
  refine ⟨_, _, by rw [loadProgram, hload]; rfl, ?_⟩
  cases hfailed : state.failed with
  | false =>
    obtain ⟨number, rfl, hdiagnostics, hstate⟩ := hcomplete hfailed
    rw [if_neg Bool.false_ne_true]
    refine ⟨⟨fun _ => hstate.isLoadable, fun _ => rfl⟩, ?_, ?_⟩
    · intro program hprogram
      obtain rfl := Option.some.inj hprogram
      exact ⟨hdiagnostics, hstate.represents⟩
    · intro hnone
      cases hnone
  | true =>
    obtain ⟨hdiagnostics, hnot⟩ := hsound.failed hfailed
    refine ⟨⟨fun hsome => ?_, fun hloadable => absurd hloadable hnot⟩, ?_, fun _ => hdiagnostics⟩
    · cases hsome
    · intro program hprogram
      cases hprogram

/-- Two files that include one file by different spellings of its path. -/
def diamondFiles : MemoryFiles :=
  .ofList [("a.thrift", "include \"b\" include \"c\""), ("b.thrift", "include \"d\""),
    ("c.thrift", "include \"./d\""), ("d.thrift", "struct D \x7b\x7d")]

theorem loadProgram_diamondFiles :
    diamondFiles.read "a.thrift" = .ok "include \"b\" include \"c\"" ∧
      ∃ program? diagnostics,
        loadProgram diamondFiles.loader [] "a.thrift" = .ok (program?, diagnostics) ∧
          (program?.isSome ↔ diamondFiles.IsLoadable [] "a.thrift") ∧
          (∀ program, program? = some program →
            diagnostics = [] ∧ program.Represents diamondFiles [] "a.thrift") ∧
          (program? = none → diagnostics ≠ []) := by
  have hread : diamondFiles.read "a.thrift" = .ok "include \"b\" include \"c\"" := by rfl
  exact ⟨hread, loadProgram_iff_isLoadable diamondFiles [] hread⟩

end Idl
