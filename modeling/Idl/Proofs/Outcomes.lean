import Idl.Proofs.CompiledValues
import Idl.Proofs.DiagnosticPlaces

/-!
# When a compilation succeeds

Success is decided by flags: the loading notes that a file failed, and the analysis notes the last
phase that it completed. The flags agree with the diagnostics, and every diagnostic at top level is
an error.
-/
namespace Idl

/-! ### Loading -/

theorem onlyErrors_parse_failure {source : Source} {failure : ParseFailure}
    (h : source.parse = .error failure) : OnlyErrors (source.diagnose failure.reports) := by
  obtain ⟨token, -, message, rfl⟩ := Source.exists_token_of_parse_error h
  refine onlyErrors_locateAll source fun report hreport => ?_
  obtain rfl := List.mem_singleton.1 hreport
  rfl

theorem onlyErrors_report {state : Loading} (h : OnlyErrors state.diagnostics) (source : Source)
    {report : Report} (hreport : report.IsError) :
    OnlyErrors (state.report source [report]).diagnostics :=
  h.append (onlyErrors_locateAll source fun _ hother =>
    List.mem_singleton.1 hother ▸ hreport)

theorem onlyErrors_followInclude {loader : Loader} {includePaths active : List String}
    {source : Source}
    {load : (file : FoundFile) → file.canonical ∈ loader.paths → file.canonical ∉ active →
      Loading → Option Nat × Loading}
    (hload : ∀ file is_file is_new state, OnlyErrors state.diagnostics →
      OnlyErrors (load file is_file is_new state).2.diagnostics)
    {progress : IncludeProgress} (h : OnlyErrors progress.state.diagnostics)
    (directive : IncludeDirective) :
    OnlyErrors (followInclude loader includePaths active source load progress
      directive).state.diagnostics := by
  unfold followInclude
  rw [state_settle]
  split
  · exact onlyErrors_report h source rfl
  · split
    · next hrefused =>
      obtain ⟨message, rfl, -⟩ := exists_message_of_resolveInclude hrefused
      exact onlyErrors_report h source rfl
    · exact h
    · exact hload _ _ _ _ h

theorem onlyErrors_followIncludes {loader : Loader} {includePaths active : List String}
    (source : Source) {state : Loading} (h : OnlyErrors state.diagnostics)
    (hload : ∀ (next : FoundFile) is_file is_new state, OnlyErrors state.diagnostics →
      OnlyErrors (loadFile loader includePaths active next is_file is_new state).2.diagnostics)
    (directives : List IncludeDirective) :
    OnlyErrors (followIncludes loader includePaths active source state
      directives).state.diagnostics := by
  induction directives using List.reverseRecOn with
  | nil => exact h
  | append_singleton done directive ih =>
    rw [followIncludes_concat]
    exact onlyErrors_followInclude hload ih directive

theorem onlyErrors_loadFile {loader : Loader} {includePaths active : List String}
    {file : FoundFile} (is_file : file.canonical ∈ loader.paths) (is_new : file.canonical ∉ active)
    {state : Loading} (h : OnlyErrors state.diagnostics) :
    OnlyErrors (loadFile loader includePaths active file is_file is_new state).2.diagnostics := by
  induction hsize : idleFiles loader active using Nat.strong_induction_on
    generalizing active file state with
  | h size ih =>
    cases hparsed : Source.parse ⟨file.path, file.text⟩ with
    | error failure =>
      rw [loadFile_of_parse_eq_error is_file is_new state hparsed]
      exact h.append (onlyErrors_parse_failure hparsed)
    | ok parsed =>
      rw [loadFile_of_parse_eq_ok is_file is_new state hparsed]
      have hincludes := onlyErrors_followIncludes ⟨file.path, file.text⟩ h
        (fun next next_is_file next_is_new _ hstate =>
          ih _ (hsize ▸ idleFiles_cons_lt is_file is_new) next_is_file next_is_new hstate rfl)
        parsed.document.includes
      simp only
      split <;> exact hincludes

theorem onlyErrors_loadRoot {loader : Loader} {includePaths : List String} {path : String}
    {number? : Option Nat} {state : Loading}
    (h : loadRoot loader includePaths path = .ok (number?, state)) :
    OnlyErrors state.diagnostics := by
  obtain ⟨file, hfile, -, heq⟩ := exists_loadFile_of_loadRoot h
  rw [show state = _ from congrArg Prod.snd heq]
  exact onlyErrors_loadFile _ _ fun _ hmem => absurd hmem List.not_mem_nil

/-! ### Phases -/

namespace Program

variable (program : Program)

theorem onlyErrors_runPhases (phases : List Phase) (analysis : Analysis) :
    OnlyErrors (program.runPhases analysis phases).2 := by
  induction phases generalizing analysis with
  | nil => exact fun _ hmem => absurd hmem List.not_mem_nil
  | cons phase phases ih =>
    rw [runPhases_cons]
    split
    · exact ih _
    · exact phase.onlyErrors_run program analysis

theorem completed_run (phase : Phase) (analysis : Analysis) :
    (phase.run program analysis).1.completed = analysis.completed := by
  cases phase <;> rfl

/-- The last of some phases is completed exactly if none of them has a diagnostic. -/
theorem completed_runPhases_iff {phases : List Phase} {last : Phase} (hlast : last ∉ phases)
    {analysis : Analysis} (hanalysis : analysis.completed ≠ some last) :
    (program.runPhases analysis (phases ++ [last])).1.completed = some last ↔
      (program.runPhases analysis (phases ++ [last])).2 = [] := by
  induction phases generalizing analysis with
  | nil =>
    rw [List.nil_append, runPhases_cons]
    split
    · exact iff_of_true rfl rfl
    · next hfound => exact iff_of_false (program.completed_run last analysis ▸ hanalysis) hfound
  | cons phase phases ih =>
    rw [List.cons_append, runPhases_cons]
    obtain ⟨hphase, hphases⟩ := List.mem_cons.not.trans not_or |>.1 hlast
    split
    · exact ih hphases fun hcompleted => hphase (Option.some.inj hcompleted).symm
    · next hfound => exact iff_of_false (program.completed_run phase analysis ▸ hanalysis) hfound

theorem succeeded_analyze_iff :
    program.analyze.1.succeeded = true ↔ program.analyze.2 = [] := by
  rw [Analysis.succeeded_iff]
  have hlast : Phase.checkUnused ∉
      [Phase.enterSymbols, .bindNames, .checkTypes, .checkCycles] := by
    decide
  exact program.completed_runPhases_iff hlast (Option.some_ne_none _).symm

end Program

/-- The flags agree with the diagnostics. For a readable root file there is a compilation; it
succeeds exactly if there is no diagnostic, it has no program exactly if the loading had one, and
every diagnostic at top level is an error. -/
theorem compile_outcome (files : MemoryFiles) (includePaths : List String) {root text : String}
    (hread : files.read root = .ok text) :
    ∃ compilation early later, compile files.loader includePaths root = .ok compilation ∧
      loadProgram files.loader includePaths root = .ok (compilation.program, early) ∧
      compilation.diagnostics = early ++ later ∧
      (compilation.succeeded = true ↔ compilation.diagnostics = []) ∧
      (compilation.program = none ↔ early ≠ []) ∧
      (∀ diagnostic ∈ compilation.diagnostics, diagnostic.severity = .error) ∧
      compilation.errorCount = compilation.diagnostics.length := by
  obtain ⟨number?, state, hload, hsound, hcomplete⟩ :=
    @loadRoot_spec files includePaths root text hread
  have herrors := onlyErrors_loadRoot hload
  have hprogram : loadProgram files.loader includePaths root =
      .ok (if state.failed then none else number?.map (⟨state.trees, ·⟩), state.diagnostics) := by
    rw [loadProgram, hload]
    rfl
  rw [compile, hprogram]
  cases hfailed : state.failed with
  | true =>
    have hdiagnostics := (hsound.failed hfailed).1
    refine ⟨⟨none, .empty, state.diagnostics⟩, state.diagnostics, [], rfl, rfl,
      (List.append_nil _).symm, ?_, iff_of_true rfl hdiagnostics, herrors, herrors.errorCount_eq⟩
    exact iff_of_false Bool.false_ne_true hdiagnostics
  | false =>
    obtain ⟨number, rfl, hdiagnostics, -⟩ := hcomplete hfailed
    rw [hdiagnostics]
    have hlater := Program.onlyErrors_runPhases ⟨state.trees, number⟩ Phase.all .empty
    refine ⟨_, [], (Program.analyze ⟨state.trees, number⟩).2, rfl, rfl, rfl, ?_, ?_, hlater,
      hlater.errorCount_eq⟩
    · exact Program.succeeded_analyze_iff ⟨state.trees, number⟩
    · exact iff_of_false (Option.some_ne_none _) (not_not.2 rfl)

/-- A file that includes itself. -/
def loopFiles : MemoryFiles :=
  .ofList [("a.thrift", "include \"a\"")]

theorem loadProgram_loopFiles : loadProgram loopFiles.loader [] "a.thrift" =
    .ok (none, [⟨.error, "a.thrift", ⟨8, 11⟩, ⟨1, 9⟩, .includeCycle "a", []⟩]) := by
  have hparse : Source.parse ⟨"a.thrift", "include \"a\""⟩ =
      .ok ⟨⟨[], [⟨⟨"a", ⟨8, 11⟩⟩, ⟨0, 11⟩⟩], [], ⟨0, 11⟩⟩, 3⟩ := by
    decide +kernel
  have hread : loopFiles.loader.read "a.thrift" = .ok "include \"a\"" := rfl
  have hload := @loadFile_of_parse_eq_ok loopFiles.loader [] [] ⟨"a.thrift", "a.thrift", _⟩
    (loopFiles.loader.mem_paths hread) List.not_mem_nil .empty _ hparse
  rw [loadProgram, loadRoot_eq rfl hread, hload]
  rfl

/-- One compilation succeeds, one ends with a phase that reports something, and one has no
program. -/
theorem compile_succeeds_ends_fails :
    entryFiles.read "e.thrift" = .ok entrySource.text ∧
      twinFiles.read "e.thrift" = .ok twins.text ∧
      loopFiles.read "a.thrift" = .ok "include \"a\"" ∧
      (∃ compilation, compile entryFiles.loader [] "e.thrift" = .ok compilation ∧
        compilation.program = some ⟨[entryTree], 0⟩ ∧ compilation.diagnostics = [] ∧
        compilation.succeeded = true) ∧
      (∃ compilation, compile twinFiles.loader [] "e.thrift" = .ok compilation ∧
        compilation.program = some ⟨[twinTree], 0⟩ ∧ compilation.errorCount = 1 ∧
        compilation.succeeded = false) ∧
      ∃ compilation, compile loopFiles.loader [] "a.thrift" = .ok compilation ∧
        compilation.program = none ∧ compilation.errorCount = 1 ∧
        compilation.succeeded = false := by
  have hentry : entryFiles.read "e.thrift" = .ok entrySource.text := rfl
  have htwins : twinFiles.read "e.thrift" = .ok twins.text := rfl
  have hloop : loopFiles.read "a.thrift" = .ok "include \"a\"" := rfl
  refine ⟨hentry, htwins, hloop, ?_, ?_, ?_⟩
  · obtain ⟨_, _, _, hcompile, -, -, hsucceeded, -⟩ := compile_outcome entryFiles [] hentry
    obtain rfl := Except.ok.inj
      (hcompile.symm.trans (compile_of_loadProgram loadProgram_entryFiles))
    have hcompleted := (Analysis.succeeded_iff _).2 completed_entryTree
    exact ⟨_, hcompile, rfl, hsucceeded.1 hcompleted, hcompleted⟩
  · obtain ⟨_, _, _, hcompile, -, -, hsucceeded, -, -, hcount⟩ :=
      compile_outcome twinFiles [] htwins
    obtain rfl := Except.ok.inj
      (hcompile.symm.trans (compile_of_loadProgram loadProgram_twinFiles))
    rw [Compilation.ofLoaded, diagnostics_twinTree] at hsucceeded hcount hcompile
    exact ⟨_, hcompile, rfl, hcount, Bool.eq_false_iff.2 (mt hsucceeded.1 (List.cons_ne_nil _ _))⟩
  · obtain ⟨_, _, _, hcompile, -, -, hsucceeded, -, -, hcount⟩ :=
      compile_outcome loopFiles [] hloop
    obtain rfl := Except.ok.inj
      (hcompile.symm.trans (compile_of_loadProgram loadProgram_loopFiles))
    exact ⟨_, hcompile, rfl, hcount, Bool.eq_false_iff.2 (mt hsucceeded.1 (List.cons_ne_nil _ _))⟩

end Idl
