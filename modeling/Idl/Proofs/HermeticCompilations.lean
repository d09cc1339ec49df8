import Idl.Compilation
import Idl.Loader.Memory
import Idl.Proofs.LoadingSteps

/-!
# What a compilation observes

Of files that are not in a program, loading observes only that they exist. Of include paths after
those that were searched, it observes nothing: every directive was met before. So a program is
loaded again when such texts are replaced and such paths are added, and everything that is made of
it is the same.
-/
namespace Idl

section

variable {loader other : Loader} {includePaths active : List String} {source : Source}

/-- What is found, is found also with further candidates behind. -/
theorem Loader.find_append (hpaths : other.canonicalize = loader.canonicalize)
    {candidates : List String} {found : String × String}
    (h : loader.find candidates = .ok found) (more : List String) :
    other.find (candidates ++ more) = .ok found := by
  induction candidates with
  | nil => cases h
  | cons candidate candidates ih =>
    rw [find] at h
    rw [List.cons_append, find, hpaths]
    cases hcandidate : loader.canonicalize candidate with
    | ok canonical =>
      rw [hcandidate] at h
      exact h
    | error error =>
      rw [hcandidate] at h
      simp only at h ⊢
      split at h
      · next hfound => rw [ih (hfound.trans h)]
      · cases h

theorem includeCandidates_append (includePaths more : List String) (path : String)
    (directive : IncludeDirective) :
    includeCandidates (includePaths ++ more) path directive =
      includeCandidates includePaths path directive ++
        more.map (FilePath.join · (includedFile directive.path.text)) := by
  rw [includeCandidates, ← List.cons_append, List.map_append, includeCandidates]

/-- The loaders have the same texts of all files that have a tree. -/
def Loading.SharesTexts (loader other : Loader) (state : Loading) : Prop :=
  ∀ canonical number, (canonical, some number) ∈ state.finished →
    other.read canonical = loader.read canonical

/-- A file that is done stays done. -/
theorem Loading.isKept_mem_finished (loader : Loader) (entry : String × Option Nat) :
    Loading.IsKept loader fun state => entry ∈ state.finished :=
  ⟨fun _ _ _ h => h, fun _ _ h => List.mem_cons_of_mem _ h,
    fun _ _ _ _ h => List.mem_cons_of_mem _ h⟩

theorem Loading.mem_finished_of_loadFile {file : FoundFile}
    {is_file : file.canonical ∈ loader.paths} {is_new : file.canonical ∉ active} {state : Loading}
    {number : Nat}
    (h : (loadFile loader includePaths active file is_file is_new state).1 = some number) :
    (file.canonical, some number) ∈
      (loadFile loader includePaths active file is_file is_new state).2.finished := by
  rw [loadFile] at h ⊢
  split at h
  · cases h
  · simp only at h ⊢
    split at h
    · next hcomplete =>
      rw [if_pos hcomplete]
      obtain rfl := Option.some.inj h
      exact List.mem_cons_self
    · cases h

/-- A directive that leads to a tree leads there also with the other loader and further include
paths, if a file that is met for the first time is loaded to the same. -/
theorem followInclude_append (hpaths : other.canonicalize = loader.canonicalize)
    (more : List String)
    {load : (file : FoundFile) → file.canonical ∈ loader.paths → file.canonical ∉ active →
      Loading → Option Nat × Loading}
    {load' : (file : FoundFile) → file.canonical ∈ other.paths → file.canonical ∉ active →
      Loading → Option Nat × Loading}
    {progress : IncludeProgress} {directive : IncludeDirective}
    (hload : ∀ (file : FoundFile) is_file is_new number, file.IsIn loader →
      (load file is_file is_new progress.state).1 = some number →
      (followInclude loader includePaths active source load progress directive).state =
        (load file is_file is_new progress.state).2 →
      other.read file.canonical = loader.read file.canonical ∧ ∀ is_file',
        load' file is_file' is_new progress.state = load file is_file is_new progress.state)
    (hcomplete : (followInclude loader includePaths active source load progress
      directive).complete = true) :
    followInclude other (includePaths ++ more) active source load' progress directive =
      followInclude loader includePaths active source load progress directive := by
  obtain ⟨-, number, hnumber, -⟩ := IncludeProgress.edges_settle hcomplete
  have hresolves :=
    resolves_resolveInclude loader includePaths active progress.state.finished source directive
  have hfind : ∀ path canonical,
      loader.find (includeCandidates includePaths source.path directive) = .ok (path, canonical) →
        other.find (includeCandidates (includePaths ++ more) source.path directive) =
          .ok (path, canonical) := fun path canonical hfound => by
    rw [includeCandidates_append]
    exact Loader.find_append hpaths hfound _
  unfold followInclude at hload ⊢
  rw [state_settle] at hload
  simp only at hnumber hload ⊢
  cases hname : progress.edges.find?
      (·.name == packageName (includedFile directive.path.text)) with
  | some first => rfl
  | none =>
    simp only [hname] at hnumber hload ⊢
    generalize resolveInclude loader includePaths active progress.state.finished source directive =
      outcome at hresolves hnumber hload ⊢
    -- the directive leads to a tree, so it was not refused
    cases hresolves with
    | missing => cases hnumber
    | cycle => cases hnumber
    | unreadable => cases hnumber
    | finished hfound hactive hlookup =>
      rw [resolveInclude_eq_finished (hfind _ _ hfound) hactive hlookup]
    | @fresh file is_file is_new hfound hlookup hread =>
      obtain ⟨hsame, heq⟩ := hload file is_file is_new number
        ⟨Loader.canonicalize_of_find hfound, hread⟩ hnumber rfl
      rw [resolveInclude_eq_fresh (hfind _ _ hfound) is_new hlookup (hsame.trans hread)]
      simp only [heq]

/-- Directives that all lead to trees lead to the same with the other loader and further include
paths, if files are loaded to the same. -/
theorem followIncludes_append (hpaths : other.canonicalize = loader.canonicalize)
    (more : List String)
    (hload : ∀ (file : FoundFile) is_file is_file' is_new state number, file.IsIn loader →
      (loadFile loader includePaths active file is_file is_new state).1 = some number →
      (loadFile loader includePaths active file is_file is_new state).2.SharesTexts loader other →
      loadFile other (includePaths ++ more) active file is_file' is_new state =
        loadFile loader includePaths active file is_file is_new state)
    {state : Loading} {directives : List IncludeDirective}
    (hcomplete :
      (followIncludes loader includePaths active source state directives).complete = true)
    (hshares : (followIncludes loader includePaths active source state directives).state.SharesTexts
      loader other) :
    followIncludes other (includePaths ++ more) active source state directives =
      followIncludes loader includePaths active source state directives := by
  induction directives using List.reverseRecOn with
  | nil => rfl
  | append_singleton done directive ih =>
    rw [followIncludes_concat] at hcomplete hshares
    -- What was done before the directive is still done after it.
    have hbefore : (followIncludes loader includePaths active source state done).state.SharesTexts
        loader other := fun canonical number hmem =>
      hshares canonical number <| (Loading.isKept_mem_finished loader _).followInclude hmem
        (fun _ _ _ hnext => (Loading.isKept_mem_finished loader _).loadFile hnext _ _ hmem)
        directive
    rw [followIncludes_concat, followIncludes_concat,
      ih (IncludeProgress.edges_settle hcomplete).1 hbefore]
    refine followInclude_append hpaths more
      (fun file is_file is_new number hfile hnumber hstate => ?_) hcomplete
    rw [hstate] at hshares
    exact ⟨hshares _ _ (Loading.mem_finished_of_loadFile hnumber),
      fun is_file' => hload file is_file is_file' is_new _ number hfile hnumber hshares⟩

/-- A file that has a tree is loaded to the same with the other loader and further include
paths. -/
theorem loadFile_append (hpaths : other.canonicalize = loader.canonicalize) (more : List String)
    {file : FoundFile} (is_file : file.canonical ∈ loader.paths)
    (is_file' : file.canonical ∈ other.paths) (is_new : file.canonical ∉ active) {state : Loading}
    {number : Nat}
    (hnumber : (loadFile loader includePaths active file is_file is_new state).1 = some number)
    (hshares : (loadFile loader includePaths active file is_file is_new state).2.SharesTexts
      loader other) :
    loadFile other (includePaths ++ more) active file is_file' is_new state =
      loadFile loader includePaths active file is_file is_new state := by
  induction hsize : idleFiles loader active using Nat.strong_induction_on
    generalizing active file state number with
  | h size ih =>
    cases hparsed : Source.parse ⟨file.path, file.text⟩ with
    | error failure =>
      rw [loadFile_of_parse_eq_error is_file is_new state hparsed] at hnumber
      cases hnumber
    | ok parsed =>
      rw [loadFile_of_parse_eq_ok is_file is_new state hparsed] at hnumber hshares ⊢
      rw [loadFile_of_parse_eq_ok is_file' is_new state hparsed]
      simp only at hnumber hshares ⊢
      split at hnumber
      · next hcomplete =>
        rw [if_pos hcomplete] at hshares
        rw [followIncludes_append hpaths more
          (fun next next_is_file next_is_file' next_is_new state number _ hfound hshared =>
            ih _ (hsize ▸ idleFiles_cons_lt is_file is_new) next_is_file next_is_file' next_is_new
              hfound hshared rfl)
          hcomplete fun canonical number hmem =>
            hshares canonical number (List.mem_cons_of_mem _ hmem)]
      · cases hnumber

/-- Each file that has a tree is where the tree's path leads. -/
theorem exists_tree_of_loadRoot {root : String} {number? : Option Nat} {state : Loading}
    (h : loadRoot loader includePaths root = .ok (number?, state)) {canonical : String}
    {number : Nat} (hmem : (canonical, some number) ∈ state.finished) :
    ∃ tree ∈ state.trees, loader.canonicalize tree.source.path = .ok canonical := by
  have hkept : Loading.IsKept loader fun state => ∀ canonical number,
      (canonical, some number) ∈ state.finished →
        ∃ tree ∈ state.trees, loader.canonicalize tree.source.path = .ok canonical := by
    refine ⟨fun _ _ _ h => h, fun state failed h canonical number hmem => ?_,
      fun state canonical tree htree h other number hmem => ?_⟩
    · rcases List.mem_cons.1 hmem with heq | hmem
      · cases heq
      · exact h canonical number hmem
    · rcases List.mem_cons.1 hmem with heq | hmem
      · cases heq
        exact ⟨tree, List.mem_append_right _ List.mem_cons_self, htree.found⟩
      · obtain ⟨before, hbefore, hfound⟩ := h other number hmem
        exact ⟨before, List.mem_append_left _ hbefore, hfound⟩
  exact hkept.loadRoot (fun _ _ hmem => absurd hmem List.not_mem_nil) h canonical number hmem

/-- A program is loaded again from every loader that has the same paths and the same texts of the
program's files, whatever include paths are added behind. -/
theorem loadProgram_append (hpaths : other.canonicalize = loader.canonicalize)
    {root : String} {program : Program} {diagnostics : List Diagnostic}
    (hload : loadProgram loader includePaths root = .ok (some program, diagnostics))
    (hshares : ∀ tree ∈ program.trees, ∀ canonical,
      loader.canonicalize tree.source.path = .ok canonical →
        other.read canonical = loader.read canonical) (more : List String) :
    loadProgram other (includePaths ++ more) root = .ok (some program, diagnostics) := by
  obtain ⟨number, state, hroot, -, rfl⟩ := exists_loadRoot_of_loadProgram hload
  have hstate : state.SharesTexts loader other := fun canonical number hmem => by
    obtain ⟨tree, htree, hfound⟩ := exists_tree_of_loadRoot hroot hmem
    exact hshares tree htree canonical hfound
  rw [← hload, loadProgram, loadProgram, hroot]
  obtain ⟨file, hfile, rfl, heq⟩ := exists_loadFile_of_loadRoot hroot
  rw [show state = _ from congrArg Prod.snd heq] at hstate
  have hnumber := (congrArg Prod.fst heq).symm
  have hread := (hstate _ _ (Loading.mem_finished_of_loadFile hnumber)).trans hfile.read
  rw [loadRoot_eq ((congrFun hpaths _).trans hfile.found) hread, heq]
  exact congrArg _ <| congrArg _ <|
    loadFile_append hpaths more _ (other.mem_paths hread) _ hnumber hstate

end

/-! ### Other texts -/

/-- The files with other texts, except at the kept paths. -/
def MemoryFiles.retext (files : MemoryFiles) (kept : List String) (texts : String → String) :
    MemoryFiles :=
  ⟨files.entries.map fun (path, text) => (path, if path ∈ kept then text else texts path)⟩

theorem MemoryFiles.lookup_retext (files : MemoryFiles) (kept : List String)
    (texts : String → String) (path : String) :
    (files.retext kept texts).lookup path =
      (files.lookup path).map fun text => if path ∈ kept then text else texts path := by
  obtain ⟨entries⟩ := files
  simp only [retext, lookup]
  induction entries with
  | nil => rfl
  | cons entry entries ih =>
    obtain ⟨first, text⟩ := entry
    rw [List.map_cons, List.lookup_cons, List.lookup_cons]
    by_cases hfirst : path = first
    · subst hfirst
      simp [Except.map]
    · rw [beq_false_of_ne hfirst]
      exact ih

theorem MemoryFiles.lookup_retext_of_mem (files : MemoryFiles) {kept : List String}
    (texts : String → String) {path : String} (h : path ∈ kept) :
    (files.retext kept texts).lookup path = files.lookup path := by
  rw [lookup_retext]
  simp only [if_pos h]
  cases files.lookup path <;> rfl

theorem MemoryFiles.canonicalize_retext (files : MemoryFiles) (kept : List String)
    (texts : String → String) : (files.retext kept texts).canonicalize = files.canonicalize := by
  funext path
  rw [canonicalize, canonicalize, read, read, lookup_retext]
  cases files.lookup (FilePath.normalize path) <;> rfl

/-- The canonical paths of the program's files. -/
def Program.files (program : Program) : List String :=
  program.trees.map fun tree => FilePath.normalize tree.source.path

/-- Compilation is hermetic. Whatever texts the files have that are not in the program, and
whatever include paths are added behind, the compilation is the same. -/
theorem compile_retext {files : MemoryFiles} {includePaths : List String} {root : String}
    {program : Program} {diagnostics : List Diagnostic}
    (hload : loadProgram files.loader includePaths root = .ok (some program, diagnostics))
    (texts : String → String) (more : List String) :
    ∃ compilation, compile files.loader includePaths root = .ok compilation ∧
      compilation.program = some program ∧
      compile (files.retext program.files texts).loader (includePaths ++ more) root =
        .ok compilation := by
  have hshares : ∀ tree ∈ program.trees, ∀ canonical,
      files.loader.canonicalize tree.source.path = .ok canonical →
        (files.retext program.files texts).loader.read canonical = files.loader.read canonical := by
    intro tree htree canonical hcanonical
    obtain ⟨rfl, text, -⟩ := MemoryFiles.canonicalize_eq_ok_iff.1 hcanonical
    exact files.lookup_retext_of_mem texts (List.mem_map_of_mem htree)
  have hagain := loadProgram_append (files.canonicalize_retext program.files texts) hload hshares
    more
  exact ⟨_, compile_of_loadProgram hload, rfl, compile_of_loadProgram hagain⟩

/-- A file that includes another, and one that has no part in it. -/
def shelf : Source :=
  ⟨"a.thrift", "include \"b\""⟩

def shelfFiles : MemoryFiles :=
  .ofList [(shelf.path, shelf.text), ("b.thrift", ""), ("c.thrift", "struct")]

def shelfDocument : ParsedDocument :=
  ⟨⟨[], [⟨⟨"b", ⟨8, 11⟩⟩, ⟨0, 11⟩⟩], [], ⟨0, 11⟩⟩, 3⟩

theorem parse_shelf : shelf.parse = .ok shelfDocument := by
  decide +kernel

def shelfTrees : List SourceTree :=
  [⟨"b", ⟨"b.thrift", ""⟩, emptyDocument.document, []⟩,
    ⟨"a", shelf, shelfDocument.document, [⟨"b", ⟨⟨"b", ⟨8, 11⟩⟩, ⟨0, 11⟩⟩, 0⟩]⟩]

theorem loadProgram_shelfFiles :
    loadProgram shelfFiles.loader [] "a.thrift" = .ok (some ⟨shelfTrees, 1⟩, []) := by
  have hinclude := followIncludes_concat_of_fresh
    (@followIncludes_nil shelfFiles.loader [] ["a.thrift"] shelf .empty)
    ⟨⟨"b", ⟨8, 11⟩⟩, ⟨0, 11⟩⟩ ⟨"b.thrift", "b.thrift", ""⟩ (by decide) (by decide) rfl rfl
    (loadFile_of_includes_eq_nil _ _ _ (parse_empty _) rfl)
  exact loadProgram_of_followIncludes rfl rfl parse_shelf hinclude rfl

theorem compile_retext_shelfFiles :
    loadProgram shelfFiles.loader [] "a.thrift" = .ok (some ⟨shelfTrees, 1⟩, []) ∧
      ∃ compilation, compile shelfFiles.loader [] "a.thrift" = .ok compilation ∧
        compilation.program = some ⟨shelfTrees, 1⟩ ∧
        compile (shelfFiles.retext ["b.thrift", "a.thrift"] fun _ => "\x7b").loader ["lib"]
            "a.thrift" =
          .ok compilation :=
  ⟨loadProgram_shelfFiles,
    compile_retext loadProgram_shelfFiles (fun _ => "\x7b") ["lib"]⟩

end Idl
