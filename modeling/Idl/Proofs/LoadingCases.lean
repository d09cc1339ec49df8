import Idl.Compilation

/-!
# Loading, case by case

What an include directive comes to is told by what the loader has where its file is looked for, and
by the files that are being loaded or done. The directives of a file are dealt with one after the
other, and then the file is done; the root is a file that is loaded first. A compilation analyses
the program that this gives, if there is one.
-/
namespace Idl

section

variable {loader : Loader} {includePaths active : List String} {source : Source}
variable {finished : List (String × Option Nat)} {directive : IncludeDirective}

/-- The search through candidates ends at the first that names a file. -/
theorem Loader.find_spec (loader : Loader) (candidates : List String) :
    match loader.find candidates with
    | .ok (path, canonical) =>
      candidates.find? (fun candidate => (loader.canonicalize candidate).isOk) = some path ∧
        loader.canonicalize path = .ok canonical
    | .error _ =>
      candidates.find? (fun candidate => (loader.canonicalize candidate).isOk) = none := by
  induction candidates with
  | nil => rfl
  | cons candidate candidates ih =>
    rw [Loader.find]
    cases hcanonical : loader.canonicalize candidate with
    | ok canonical => simp [hcanonical, Except.isOk, Except.toBool]
    | error error =>
      cases hfind : loader.find candidates with
      | ok found =>
        rw [hfind] at ih
        simpa [hcanonical, Except.isOk, Except.toBool] using ih
      | error other =>
        rw [hfind] at ih
        simpa [hcanonical, Except.isOk, Except.toBool] using ih

theorem Loader.canonicalize_of_find {candidates : List String} {path canonical : String}
    (h : loader.find candidates = .ok (path, canonical)) :
    loader.canonicalize path = .ok canonical := by
  have hspec := loader.find_spec candidates
  rw [h] at hspec
  exact hspec.2

/-! ### Resolving -/

/-- What an include directive of `source` may come to, each outcome with all that leads to it. -/
inductive IncludeDirective.Resolves (loader : Loader) (includePaths active : List String)
    (finished : List (String × Option Nat)) (source : Source) (directive : IncludeDirective) :
    IncludeOutcome loader active → Prop
  | missing {error}
      (missing : loader.find (includeCandidates includePaths source.path directive) =
        .error error) :
      Resolves loader includePaths active finished source directive
        (.refused (.error directive.path.span
          (.includeUnreadable directive.path.text error.text)))
  | cycle {path canonical}
      (found : loader.find (includeCandidates includePaths source.path directive) =
        .ok (path, canonical)) (is_active : canonical ∈ active) :
      Resolves loader includePaths active finished source directive
        (.refused (.error directive.path.span (.includeCycle directive.path.text)))
  | finished {path canonical tree}
      (found : loader.find (includeCandidates includePaths source.path directive) =
        .ok (path, canonical)) (is_new : canonical ∉ active)
      (listed : finished.lookup canonical = some tree) :
      Resolves loader includePaths active finished source directive (.finished tree)
  | unreadable {path canonical error}
      (found : loader.find (includeCandidates includePaths source.path directive) =
        .ok (path, canonical)) (is_new : canonical ∉ active)
      (unlisted : finished.lookup canonical = none)
      (unread : loader.read canonical = .error error) :
      Resolves loader includePaths active finished source directive
        (.refused (.error directive.path.span
          (.includeUnreadable directive.path.text error.text)))
  | fresh {file is_file is_new}
      (found : loader.find (includeCandidates includePaths source.path directive) =
        .ok (file.path, file.canonical))
      (unlisted : finished.lookup file.canonical = none)
      (read : loader.read file.canonical = .ok file.text) :
      Resolves loader includePaths active finished source directive
        (.fresh file is_file is_new)

theorem resolves_resolveInclude (loader : Loader) (includePaths active : List String)
    (finished : List (String × Option Nat)) (source : Source) (directive : IncludeDirective) :
    directive.Resolves loader includePaths active finished source
      (resolveInclude loader includePaths active finished source directive) := by
  unfold resolveInclude
  cases hfind : loader.find (includeCandidates includePaths source.path directive) with
  | error error => exact .missing hfind
  | ok found =>
    obtain ⟨path, canonical⟩ := found
    simp only
    by_cases hactive : canonical ∈ active
    · rw [dif_pos hactive]
      exact .cycle hfind hactive
    · rw [dif_neg hactive]
      cases hlookup : finished.lookup canonical with
      | some tree => exact .finished hfind hactive hlookup
      | none =>
        simp only
        split
        · next hread => exact .unreadable hfind hactive hlookup hread
        · next hread => exact .fresh hfind hlookup hread

/-- A directive is refused with a report at its text. -/
theorem exists_message_of_resolveInclude {report : Report}
    (h : resolveInclude loader includePaths active finished source directive = .refused report) :
    ∃ message, report = .error directive.path.span message ∧
      (message = .includeCycle directive.path.text ∨
        ∃ error, message = .includeUnreadable directive.path.text error) := by
  have hresolves := resolves_resolveInclude loader includePaths active finished source directive
  rw [h] at hresolves
  cases hresolves with
  | missing => exact ⟨_, rfl, .inr ⟨_, rfl⟩⟩
  | cycle => exact ⟨_, rfl, .inl rfl⟩
  | unreadable => exact ⟨_, rfl, .inr ⟨_, rfl⟩⟩

theorem resolveInclude_eq_cycle {path canonical : String}
    (hfind : loader.find (includeCandidates includePaths source.path directive) =
      .ok (path, canonical)) (hactive : canonical ∈ active) :
    resolveInclude loader includePaths active finished source directive =
      .refused (.error directive.path.span (.includeCycle directive.path.text)) := by
  unfold resolveInclude
  simp only [hfind, dif_pos hactive]

theorem resolveInclude_eq_finished {path canonical : String} {tree : Option Nat}
    (hfind : loader.find (includeCandidates includePaths source.path directive) =
      .ok (path, canonical)) (hactive : canonical ∉ active)
    (hlookup : finished.lookup canonical = some tree) :
    resolveInclude loader includePaths active finished source directive = .finished tree := by
  unfold resolveInclude
  simp only [hfind, dif_neg hactive, hlookup]

theorem resolveInclude_eq_fresh {path canonical text : String}
    (hfind : loader.find (includeCandidates includePaths source.path directive) =
      .ok (path, canonical)) (hactive : canonical ∉ active)
    (hlookup : finished.lookup canonical = none) (hread : loader.read canonical = .ok text) :
    resolveInclude loader includePaths active finished source directive =
      .fresh ⟨path, canonical, text⟩ (loader.mem_paths hread) hactive := by
  unfold resolveInclude
  simp only [hfind, dif_neg hactive, hlookup]
  split
  · next hcause => cases hread.symm.trans hcause
  · next hcontents =>
    obtain rfl := Except.ok.inj (hread.symm.trans hcontents)
    rfl

/-- The file is what the loader has at its path. -/
structure FoundFile.IsIn (loader : Loader) (file : FoundFile) : Prop where
  found : loader.canonicalize file.path = .ok file.canonical
  read : loader.read file.canonical = .ok file.text

theorem isIn_of_resolveInclude {file : FoundFile} {is_file : file.canonical ∈ loader.paths}
    {is_new : file.canonical ∉ active}
    (h : resolveInclude loader includePaths active finished source directive =
      .fresh file is_file is_new) : file.IsIn loader := by
  have hresolves := resolves_resolveInclude loader includePaths active finished source directive
  rw [h] at hresolves
  cases hresolves with
  | fresh hfound _ hread => exact ⟨Loader.canonicalize_of_find hfound, hread⟩

/-! ### One directive after another -/

theorem state_settle (progress : IncludeProgress) (name : String) (directive : IncludeDirective)
    (outcome : Option Nat × Loading) :
    (progress.settle name directive outcome).state = outcome.2 := by
  obtain ⟨tree | tree, state⟩ := outcome <;> rfl

/-- What has been found after some include directives of a file. -/
def followIncludes (loader : Loader) (includePaths active : List String) (source : Source)
    (state : Loading) (directives : List IncludeDirective) : IncludeProgress :=
  directives.foldl (followInclude loader includePaths active source
    fun next is_file is_new state => loadFile loader includePaths active next is_file is_new state)
    ⟨[], true, state⟩

theorem followIncludes_concat (state : Loading) (done : List IncludeDirective)
    (directive : IncludeDirective) :
    followIncludes loader includePaths active source state (done ++ [directive]) =
      followInclude loader includePaths active source
        (fun next is_file is_new state =>
          loadFile loader includePaths active next is_file is_new state)
        (followIncludes loader includePaths active source state done) directive := by
  rw [followIncludes, List.foldl_append, List.foldl_cons, List.foldl_nil, ← followIncludes]

theorem loadFile_of_parse_eq_ok {file : FoundFile} (is_file : file.canonical ∈ loader.paths)
    (is_new : file.canonical ∉ active) (state : Loading) {parsed : ParsedDocument}
    (hparsed : Source.parse ⟨file.path, file.text⟩ = .ok parsed) :
    loadFile loader includePaths active file is_file is_new state =
      let progress := followIncludes loader includePaths (file.canonical :: active)
        ⟨file.path, file.text⟩ state parsed.document.includes
      if progress.complete then
        progress.state.finish file.canonical
          ⟨packageName file.path, ⟨file.path, file.text⟩, parsed.document, progress.edges⟩
      else (none, progress.state.fail file.canonical) := by
  rw [loadFile]
  simp only [hparsed]
  rfl

theorem followIncludes_nil (state : Loading) :
    followIncludes loader includePaths active source state [] = ⟨[], true, state⟩ :=
  rfl

/-- A directive to a file that is met for the first time leads to what becomes of the file. -/
theorem followIncludes_concat_of_fresh {state state' : Loading} {done : List IncludeDirective}
    {progress : IncludeProgress}
    (hdone : followIncludes loader includePaths active source state done = progress)
    (directive : IncludeDirective) (file : FoundFile) (is_file : file.canonical ∈ loader.paths)
    (is_new : file.canonical ∉ active)
    (hunused : progress.edges.find? (·.name == packageName (includedFile directive.path.text)) =
      none)
    (hresolve : resolveInclude loader includePaths active progress.state.finished source directive =
      .fresh file is_file is_new) {tree : Nat}
    (hload : loadFile loader includePaths active file is_file is_new progress.state =
      (some tree, state')) :
    followIncludes loader includePaths active source state (done ++ [directive]) =
      ⟨progress.edges ++ [⟨packageName (includedFile directive.path.text), directive, tree⟩],
        progress.complete, state'⟩ := by
  rw [followIncludes_concat, hdone, followInclude]
  simp only [hunused, hresolve, hload]
  rfl

/-- A file is done once its directives have all led to trees. -/
theorem loadFile_of_followIncludes {file : FoundFile} (is_file : file.canonical ∈ loader.paths)
    (is_new : file.canonical ∉ active) {state state' : Loading} {parsed : ParsedDocument}
    {edges : List IncludeEdge}
    (hparsed : Source.parse ⟨file.path, file.text⟩ = .ok parsed)
    (hincludes : followIncludes loader includePaths (file.canonical :: active)
      ⟨file.path, file.text⟩ state parsed.document.includes = ⟨edges, true, state'⟩) :
    loadFile loader includePaths active file is_file is_new state =
      state'.finish file.canonical
        ⟨packageName file.path, ⟨file.path, file.text⟩, parsed.document, edges⟩ := by
  rw [loadFile_of_parse_eq_ok is_file is_new state hparsed, hincludes]
  rfl

/-- A file without includes is done at once. -/
theorem loadFile_of_includes_eq_nil {file : FoundFile} (is_file : file.canonical ∈ loader.paths)
    (is_new : file.canonical ∉ active) (state : Loading) {parsed : ParsedDocument}
    (hparsed : Source.parse ⟨file.path, file.text⟩ = .ok parsed)
    (hincludes : parsed.document.includes = []) :
    loadFile loader includePaths active file is_file is_new state =
      state.finish file.canonical
        ⟨packageName file.path, ⟨file.path, file.text⟩, parsed.document, []⟩ :=
  loadFile_of_followIncludes is_file is_new hparsed (by rw [hincludes]; rfl)

theorem loadFile_of_parse_eq_error {file : FoundFile} (is_file : file.canonical ∈ loader.paths)
    (is_new : file.canonical ∉ active) (state : Loading) {failure : ParseFailure}
    (hparsed : Source.parse ⟨file.path, file.text⟩ = .error failure) :
    loadFile loader includePaths active file is_file is_new state =
      (none, (state.report ⟨file.path, file.text⟩ failure.reports).fail file.canonical) := by
  rw [loadFile]
  simp only [hparsed]

/-! ### The root -/

theorem loadRoot_eq {root canonical text : String}
    (hcanonical : loader.canonicalize root = .ok canonical)
    (hread : loader.read canonical = .ok text) :
    loadRoot loader includePaths root =
      .ok (loadFile loader includePaths [] ⟨root, canonical, text⟩ (loader.mem_paths hread)
        List.not_mem_nil .empty) := by
  unfold loadRoot
  simp only [hcanonical]
  split
  · next hcause => cases hread.symm.trans hcause
  · next hcontents =>
    obtain rfl := Except.ok.inj (hread.symm.trans hcontents)
    rfl

/-- The program of a root whose directives have all led to trees. -/
theorem loadProgram_of_followIncludes {root canonical text : String} {parsed : ParsedDocument}
    {edges : List IncludeEdge} {state : Loading}
    (hcanonical : loader.canonicalize root = .ok canonical)
    (hread : loader.read canonical = .ok text) (hparsed : Source.parse ⟨root, text⟩ = .ok parsed)
    (hincludes : followIncludes loader includePaths [canonical] ⟨root, text⟩ .empty
      parsed.document.includes = ⟨edges, true, state⟩)
    (hfailed : state.failed = false) :
    loadProgram loader includePaths root =
      .ok (some ⟨state.trees ++ [⟨packageName root, ⟨root, text⟩, parsed.document, edges⟩],
        state.trees.length⟩, state.diagnostics) := by
  have hload := @loadFile_of_followIncludes loader includePaths [] ⟨root, canonical, text⟩
    (loader.mem_paths hread) List.not_mem_nil _ _ _ _ hparsed hincludes
  rw [loadProgram, loadRoot_eq hcanonical hread, hload]
  simp only [Except.map, Loading.finish, hfailed, Bool.false_eq_true, if_false, Option.map_some]

/-- A root without includes is a program of its own. -/
theorem loadProgram_of_includes_eq_nil (source : Source) {canonical : String}
    {parsed : ParsedDocument} (hcanonical : loader.canonicalize source.path = .ok canonical)
    (hread : loader.read canonical = .ok source.text) (hparsed : source.parse = .ok parsed)
    (hincludes : parsed.document.includes = []) :
    loadProgram loader includePaths source.path =
      .ok (some ⟨[⟨packageName source.path, source, parsed.document, []⟩], 0⟩, []) :=
  @loadProgram_of_followIncludes loader includePaths _ _ _ _ [] .empty hcanonical hread hparsed
    (by rw [hincludes]; rfl) rfl

theorem exists_loadFile_of_loadRoot {root : String} {outcome : Option Nat × Loading}
    (h : loadRoot loader includePaths root = .ok outcome) :
    ∃ (file : FoundFile) (hfile : file.IsIn loader), file.path = root ∧
      outcome = loadFile loader includePaths [] file (loader.mem_paths hfile.read)
        List.not_mem_nil .empty := by
  cases hcanonical : loader.canonicalize root with
  | error cause =>
    rw [loadRoot, hcanonical] at h
    cases h
  | ok canonical =>
    cases hread : loader.read canonical with
    | error cause =>
      unfold loadRoot at h
      simp only [hcanonical] at h
      split at h
      · cases h
      · next hcontents => cases hread.symm.trans hcontents
    | ok text =>
      rw [loadRoot_eq hcanonical hread] at h
      exact ⟨⟨root, canonical, text⟩, ⟨hcanonical, hread⟩, rfl, (Except.ok.inj h).symm⟩

/-- A program is what has been found when the root has been loaded and nothing has failed. -/
theorem exists_loadRoot_of_loadProgram {root : String} {program : Program}
    {diagnostics : List Diagnostic}
    (h : loadProgram loader includePaths root = .ok (some program, diagnostics)) :
    ∃ number state, loadRoot loader includePaths root = .ok (some number, state) ∧
      state.failed = false ∧ program = ⟨state.trees, number⟩ := by
  rw [loadProgram] at h
  cases hroot : loadRoot loader includePaths root with
  | error failure =>
    rw [hroot] at h
    cases h
  | ok loaded =>
    obtain ⟨number?, state⟩ := loaded
    rw [hroot] at h
    obtain ⟨hprogram, -⟩ := Prod.mk.inj (Except.ok.inj h)
    split at hprogram
    · cases hprogram
    · next hfailed =>
      obtain ⟨number, rfl, rfl⟩ := Option.map_eq_some_iff.1 hprogram
      exact ⟨number, state, rfl, Bool.eq_false_iff.2 hfailed, rfl⟩

/-! ### Compilation -/

/-- What is made of the program and the diagnostics that loading gives. -/
def Compilation.ofLoaded (diagnostics : List Diagnostic) : Option Program → Compilation
  | none => ⟨none, .empty, diagnostics⟩
  | some program => ⟨some program, program.analyze.1, diagnostics ++ program.analyze.2⟩

theorem compile_of_loadProgram {root : String} {program? : Option Program}
    {diagnostics : List Diagnostic}
    (hload : loadProgram loader includePaths root = .ok (program?, diagnostics)) :
    compile loader includePaths root = .ok (.ofLoaded diagnostics program?) := by
  rw [compile, hload]
  cases program? <;> rfl

theorem exists_ofLoaded_of_compile {root : String} {compilation : Compilation}
    (h : compile loader includePaths root = .ok compilation) :
    ∃ program? diagnostics,
      loadProgram loader includePaths root = .ok (program?, diagnostics) ∧
        compilation = .ofLoaded diagnostics program? := by
  cases hload : loadProgram loader includePaths root with
  | error failure =>
    rw [compile, hload] at h
    cases h
  | ok loaded =>
    obtain ⟨program?, diagnostics⟩ := loaded
    rw [compile_of_loadProgram hload] at h
    exact ⟨program?, diagnostics, rfl, (Except.ok.inj h).symm⟩

theorem exists_loadProgram_of_compile {root : String} {compilation : Compilation}
    {program : Program} (hcompile : compile loader includePaths root = .ok compilation)
    (hprogram : compilation.program = some program) :
    ∃ diagnostics, loadProgram loader includePaths root = .ok (some program, diagnostics) ∧
      compilation.analysis = program.analyze.1 := by
  obtain ⟨program?, diagnostics, hload, rfl⟩ := exists_ofLoaded_of_compile hcompile
  cases program? with
  | none => cases hprogram
  | some other =>
    obtain rfl := Option.some.inj hprogram
    exact ⟨diagnostics, hload, rfl⟩

end

end Idl
