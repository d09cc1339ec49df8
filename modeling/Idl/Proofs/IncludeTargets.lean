import Idl.Proofs.LoadTrace
import Idl.Proofs.Ways

/-!
# Targets of include directives

An include directive is followed from the directory of the path by which its file was reached. All
files but the root are reached by paths that end in a name, and from such a path a directive leads
where it leads from the normal form of the path. So a file in memory, whose canonical path is the
normal form, includes the same files by whatever path it was reached.
-/
namespace Idl
open FilePath LoadEvent

/-! ### Paths and their normal forms -/

namespace FilePath

theorem fileName?_eq_some_iff_steps {path name : String} :
    fileName? path = some name ↔ (steps path).getLast? = some (.name name) :=
  fileName?_eq_some_iff

theorem exists_reversed_of_getLast?_steps {path name : String}
    (h : (steps path).getLast? = some (.name name)) :
    ∃ before, (wayOf path).reversed = name :: before := by
  obtain ⟨before, hsteps⟩ := List.getLast?_eq_some_iff.1 h
  rw [wayOf, hsteps, List.foldl_append]
  exact ⟨_, rfl⟩

/-- A path and its normal form end in the same name. -/
theorem fileName?_normalize {path name : String} (h : fileName? path = some name) :
    fileName? (normalize path) = some name := by
  rw [fileName?_eq_some_iff_steps] at h ⊢
  obtain ⟨before, hreversed⟩ := exists_reversed_of_getLast?_steps h
  rw [steps_normalize, hreversed]
  simp

theorem respells_normalize {path name : String} (h : fileName? path = some name) :
    Respells path (normalize path) :=
  .inr ⟨name, name, h, fileName?_normalize h, (normalize_normalize path).symm⟩

end FilePath

/-! ### Included files -/

/-- An include directive leads to the file. -/
def FoundFile.IsIncluded (loader : Loader) (includePaths : List String) (file : FoundFile) : Prop :=
  ∃ (source : Source) (directive : IncludeDirective),
    loader.find (includeCandidates includePaths source.path directive) =
      .ok (file.path, file.canonical)

section

variable {loader : Loader} {includePaths active : List String} {source : Source}

theorem Loader.mem_of_find {candidates : List String} {path canonical : String}
    (h : loader.find candidates = .ok (path, canonical)) : path ∈ candidates := by
  have hspec := loader.find_spec candidates
  rw [h] at hspec
  exact List.mem_of_find?_eq_some hspec.1

theorem FoundFile.IsIncluded.exists_fileName? {file : FoundFile}
    (h : file.IsIncluded loader includePaths) : ∃ name, fileName? file.path = some name := by
  obtain ⟨source, directive, hfind⟩ := h
  exact exists_fileName?_of_mem_includeCandidates (Loader.mem_of_find hfind)

theorem FoundFile.IsIncluded.canonical_eq {files : MemoryFiles} {file : FoundFile}
    (h : file.IsIncluded files.loader includePaths) : file.canonical = normalize file.path := by
  obtain ⟨source, directive, hfind⟩ := h
  exact (MemoryFiles.canonicalize_eq_ok_iff.1 (Loader.canonicalize_of_find hfind)).1

theorem parsedFiles_meetings (source : Source) (directive : IncludeDirective) :
    parsedFiles (meetings loader includePaths source directive) = [] := by
  unfold meetings
  split <;> rfl

/-- The files that are parsed at an include directive are included. -/
theorem isIncluded_of_traceInclude
    {load : (file : FoundFile) → file.canonical ∈ loader.paths → file.canonical ∉ active →
      Loading → (Option Nat × Loading) × List LoadEvent}
    (hload : ∀ next is_file is_new state, next.IsIncluded loader includePaths →
      ∀ file ∈ parsedFiles (load next is_file is_new state).2, file.IsIncluded loader includePaths)
    {run : IncludeProgress × List LoadEvent}
    (h : ∀ file ∈ parsedFiles run.2, file.IsIncluded loader includePaths)
    (directive : IncludeDirective) :
    ∀ file ∈ parsedFiles (traceInclude loader includePaths active source load run directive).2,
      file.IsIncluded loader includePaths := by
  have hresolves :=
    resolves_resolveInclude loader includePaths active run.1.state.finished source directive
  rw [traceInclude, parsedFiles_append, List.forall_mem_append]
  refine ⟨h, ?_⟩
  unfold includeEvents
  cases run.1.edges.find? (·.name == packageName (includedFile directive.path.text)) with
  | some first => exact fun file hfile => absurd hfile List.not_mem_nil
  | none =>
    simp only [parsedFiles_append, parsedFiles_meetings, List.nil_append]
    generalize resolveInclude loader includePaths active run.1.state.finished source directive =
      outcome at hresolves ⊢
    cases hresolves with
    | fresh hfound => exact hload _ _ _ _ ⟨source, directive, hfound⟩
    | _ => exact fun file hfile => absurd hfile List.not_mem_nil

theorem isIncluded_of_traceIncludes
    (hload : ∀ next is_file is_new state, next.IsIncluded loader includePaths →
      ∀ file ∈ parsedFiles (traceFile loader includePaths active next is_file is_new state).2,
        file.IsIncluded loader includePaths) (state : Loading)
    (directives : List IncludeDirective) :
    ∀ file ∈ parsedFiles (traceIncludes loader includePaths active source state directives).2,
      file.IsIncluded loader includePaths := by
  induction directives using List.reverseRecOn with
  | nil => exact fun file hfile => absurd hfile List.not_mem_nil
  | append_singleton done directive ih =>
    rw [traceIncludes_concat]
    exact isIncluded_of_traceInclude hload ih directive

/-- When a file is loaded, it is parsed, and behind it only included files are. -/
theorem isIncluded_of_traceFile {file : FoundFile} (is_file : file.canonical ∈ loader.paths)
    (is_new : file.canonical ∉ active) (state : Loading) :
    ∃ rest, parsedFiles (traceFile loader includePaths active file is_file is_new state).2 =
        file :: rest ∧ ∀ other ∈ rest, other.IsIncluded loader includePaths := by
  induction hsize : idleFiles loader active using Nat.strong_induction_on
    generalizing active file state with
  | h size ih =>
    cases hparsed : Source.parse ⟨file.path, file.text⟩ with
    | error failure =>
      rw [traceFile]
      simp only [hparsed]
      exact ⟨[], rfl, fun other hother => absurd hother List.not_mem_nil⟩
    | ok parsed =>
      rw [traceFile_of_parse_eq_ok is_file is_new state hparsed]
      refine ⟨_, rfl, isIncluded_of_traceIncludes
        (fun next next_is_file next_is_new state hnext => ?_) state _⟩
      obtain ⟨rest, hrest, hincluded⟩ := ih _ (hsize ▸ idleFiles_cons_lt is_file is_new)
        next_is_file next_is_new state rfl
      rw [hrest]
      exact List.forall_mem_cons.2 ⟨hnext, hincluded⟩

end

/-! ### Directives of a file -/

/-- Include directives go by the file. From a path that ends in a name and from its normal form, the
file that is asked for is looked for at paths of one normal form in the file's own directory, and is
found at paths of one normal form if it is found at all. What a directive asks for always ends in a
name; and when a root file in memory is loaded, with whatever outcome, every file that is parsed
behind it was reached by a path that ends in a name, and its canonical path is the normal form of
that. -/
theorem includes_go_by_file (files : MemoryFiles) (includePaths : List String) :
    (∀ path name, fileName? path = some name →
      (∀ text, normalize (join (directory path) (includedFile text)) =
        normalize (join (directory (normalize path)) (includedFile text))) ∧
      ∀ directive, (files.target? includePaths path directive).map normalize =
        (files.target? includePaths (normalize path) directive).map normalize) ∧
    (∀ text, ∃ name, fileName? (includedFile text) = some name) ∧
    ∀ root text, files.read root = .ok text →
      ∃ outcome events rest, ∃ is_file : normalize root ∈ files.loader.paths,
        traceFile files.loader includePaths [] ⟨root, normalize root, text⟩ is_file
            List.not_mem_nil .empty = (outcome, events) ∧
          loadRoot files.loader includePaths root = .ok outcome ∧
          parsedFiles events = ⟨root, normalize root, text⟩ :: rest ∧
          ∀ file ∈ rest, (∃ name, fileName? file.path = some name) ∧
            file.canonical = normalize file.path := by
  refine ⟨fun path name hname => ?_, exists_fileName?_includedFile, fun root text hread => ?_⟩
  · have hrespells := respells_normalize hname
    exact ⟨fun text => hrespells.normalize_join _, MemoryFiles.target?_congr hrespells⟩
  · have hcanonical : files.loader.canonicalize root = .ok (normalize root) :=
      MemoryFiles.canonicalize_eq_ok_iff.2 ⟨rfl, text, hread⟩
    have hroot := @loadRoot_eq files.loader includePaths _ _ _ hcanonical hread
    rw [← fst_traceFile] at hroot
    obtain ⟨rest, hparsed, hrest⟩ := @isIncluded_of_traceFile files.loader includePaths []
      ⟨root, normalize root, text⟩ (files.loader.mem_paths hread) List.not_mem_nil .empty
    exact ⟨_, _, rest, files.loader.mem_paths hread, rfl, hroot, hparsed, fun file hfile =>
      ⟨(hrest file hfile).exists_fileName?, (hrest file hfile).canonical_eq⟩⟩

/-- A file that is reached by a roundabout path and includes another. -/
def roundaboutFiles : MemoryFiles :=
  .ofList [("src/main.thrift", "include \"../lib/./part\""),
    ("lib/part.thrift", "include \"../base\""), ("base.thrift", "")]

theorem includes_roundaboutFiles :
    fileName? "src/../lib/./part.thrift" = some "part.thrift" ∧
      normalize "src/../lib/./part.thrift" = "lib/part.thrift" ∧
      normalize (join (directory "src/../lib/./part.thrift") (includedFile "../base")) =
        normalize (join (directory (normalize "src/../lib/./part.thrift"))
          (includedFile "../base")) ∧
      roundaboutFiles.read "src/main.thrift" = .ok "include \"../lib/./part\"" ∧
      ∃ outcome events rest, ∃ is_file : normalize "src/main.thrift" ∈ roundaboutFiles.loader.paths,
        traceFile roundaboutFiles.loader [] []
            ⟨"src/main.thrift", normalize "src/main.thrift", "include \"../lib/./part\""⟩ is_file
            List.not_mem_nil .empty = (outcome, events) ∧
          loadRoot roundaboutFiles.loader [] "src/main.thrift" = .ok outcome ∧
          parsedFiles events =
            ⟨"src/main.thrift", normalize "src/main.thrift", "include \"../lib/./part\""⟩ :: rest ∧
          ∀ file ∈ rest, (∃ name, fileName? file.path = some name) ∧
            file.canonical = normalize file.path := by
  obtain ⟨htarget, -, hload⟩ := includes_go_by_file roundaboutFiles []
  have hname : fileName? "src/../lib/./part.thrift" = some "part.thrift" := by decide +kernel
  have hread : roundaboutFiles.read "src/main.thrift" = .ok "include \"../lib/./part\"" := by rfl
  exact ⟨hname, by decide +kernel, (htarget _ _ hname).1 "../base", hread, hload _ _ hread⟩

end Idl
