import Idl.Proofs.EmbeddedPrograms
import Idl.Proofs.StrictCycles
import Idl.Proofs.UnusedIncludes

/-!
# Strict phases

A strict version of running phases over all trees of a program, one after the other and whatever
they report. A run breaks off if a lookup finds nothing, a search has no end, a file is entered
while another one is active, or a report starts inside a character. For a loaded program none of
this happens, in whatever order the phases run, as long as symbols are entered first and names are
bound before unused includes are looked for.
-/
namespace Idl

/-! ### Visits -/

/-- Looks up the directives that are reported. -/
def Strict.checkUnused (program : Program) (number : Nat) (tree : SourceTree)
    (bindings : Bindings) : Strict Unit := do
  tree.includes.forM fun edge => do
    unless edge.name ∈ bindings.used do
      openAll program number edge.directive.toNode
  Idl.checkUnused tree bindings

/-- Why a run has broken off. -/
inductive Crash where
  | panic (panic : Panic)
  | fault (fault : DiagnosticLog.Fault)

namespace Phase

/-- Like `Phase.visit`, with strict lookups. -/
def strictVisit (phase : Phase) (program : Program) (analysis : Analysis) (number : Nat)
    (tree : SourceTree) : Strict Analysis := do
  Strict.openNode program number tree.document.toNode
  let resolver := analysis.resolver program
  match phase with
  | enterSymbols => do
    let symbols ← Strict.enterSymbols program number tree.document
    return { analysis with symbols := analysis.symbols.enter number symbols }
  | bindNames => do
    let bindings ← Strict.bindNames program analysis.symbols number tree
    return { analysis with bindings := analysis.bindings.enter number bindings }
  | checkTypes => do
    let values ← Strict.checkTypes resolver number tree.document
    return { analysis with values := analysis.values.enter number values }
  | checkCycles => do
    Strict.checkCycles resolver number tree.document
    return analysis
  | checkUnused => do
    let bindings ← Strict.demand (.bindings number) (analysis.bindings.lookup number)
    Strict.checkUnused program number tree bindings
    return analysis

/-- Like `Phase.visitTree`, with strict lookups. -/
def strictVisitTree (phase : Phase) (program : Program) (run : Analysis × DiagnosticLog)
    (number : Nat) : Except Crash (Analysis × DiagnosticLog) :=
  match program.trees[number]? with
  | none => .error (.panic (.tree number))
  | some tree =>
    let visited := (phase.strictVisit program run.1 number tree).run
    match run.2.visit tree.source visited.reports false, visited.value with
    | (_, some fault), _ => .error (.fault fault)
    | (_, none), .error panic => .error (.panic panic)
    | (log, none), .ok analysis => .ok (analysis, log)

end Phase

namespace Program

/-- Runs a phase over all trees. -/
def runStrictly (program : Program) (run : Analysis × DiagnosticLog) (phase : Phase) :
    Except Crash (Analysis × DiagnosticLog) :=
  match (Strict.flatten program).run.value with
  | .error panic => .error (.panic panic)
  | .ok numbers => numbers.foldlM (phase.strictVisitTree program) run

/-- Runs phases one after the other, whatever they report. -/
def runEach (program : Program) (phases : List Phase) : Analysis × List Diagnostic :=
  phases.foldl (fun (analysis, found) phase =>
    ((phase.run program analysis).1, found ++ (phase.run program analysis).2)) (.empty, [])

end Program

/-! ### Visits that are ready -/

section

variable {program : Program} {analysis : Analysis}

theorem Strict.checkUnused_eq (hlinked : program.IsLinked) {number : Nat} {tree : SourceTree}
    (htree : program.trees[number]? = some tree) (bindings : Bindings) :
    Strict.checkUnused program number tree bindings = liftM (Idl.checkUnused tree bindings) := by
  rw [Strict.checkUnused, forM_eq_pure fun edge hedge => ?_, pure_bind]
  have hdirective := hlinked.directives tree (List.mem_of_getElem? htree) edge hedge
  split
  · rfl
  · exact openAll_eq (Program.holds_of_contains htree (Document.contains_include hdirective))

namespace Phase

/-- What the phase looks things up in is there, and the searches that it makes end. -/
def IsReady (phase : Phase) (program : Program) (analysis : Analysis) : Prop :=
  match phase with
  | enterSymbols => True
  | bindNames => program.HasSymbols analysis.symbols
  | checkTypes => (analysis.resolver program).IsClosed
  | checkCycles =>
    (analysis.resolver program).IsClosed ∧ (analysis.resolver program).FieldsUnnested
  | checkUnused => ∀ number < program.trees.length,
    ∃ bindings, analysis.bindings.lookup number = some bindings

/-- A visit leaves alone what the phase looks things up in. -/
theorem isReady_visit {phase : Phase} (h : phase.IsReady program analysis) (number : Nat)
    (tree : SourceTree) :
    phase.IsReady program (phase.visit program analysis number tree).value := by
  cases phase <;> exact h

theorem strictVisit_eq (hlinked : program.IsLinked) {phase : Phase}
    (h : phase.IsReady program analysis) {number : Nat} {tree : SourceTree}
    (htree : program.trees[number]? = some tree) :
    phase.strictVisit program analysis number tree =
      liftM (phase.visit program analysis number tree) := by
  have hopen : Strict.openNode program number tree.document.toNode = pure () :=
    Strict.openNode_eq ⟨tree, htree, List.Subset.refl _⟩
  rw [strictVisit, hopen, pure_bind]
  cases phase with
  | enterSymbols =>
    exact Strict.bind_eq_liftM (Strict.enterSymbols_eq htree) (liftM_pure _).symm
  | bindNames =>
    exact Strict.bind_eq_liftM (Strict.bindNames_eq hlinked.isRead h htree) (liftM_pure _).symm
  | checkTypes =>
    exact Strict.bind_eq_liftM (Strict.checkTypes_eq h htree) (liftM_pure _).symm
  | checkCycles =>
    exact Strict.bind_eq_liftM (Strict.checkCycles_eq h.1 h.2 htree) (liftM_pure _).symm
  | checkUnused =>
    obtain ⟨bindings, hbindings⟩ := h number (List.getElem?_eq_some_iff.1 htree).1
    simp only [visit, hbindings, Option.getD_some]
    rw [Strict.demand_eq rfl, pure_bind]
    exact Strict.bind_eq_liftM (Strict.checkUnused_eq hlinked htree bindings) (liftM_pure _).symm

theorem strictVisitTree_eq (hlinked : program.IsLinked) {phase : Phase} {log : DiagnosticLog}
    (h : phase.IsReady program analysis) {number : Nat} (hnumber : number < program.trees.length)
    {next : Analysis × DiagnosticLog}
    (hvisit : phase.visitTree program (analysis, log) number = .ok next) :
    phase.strictVisitTree program (analysis, log) number = .ok next ∧
      phase.IsReady program next.1 := by
  have htree := List.getElem?_eq_getElem hnumber
  generalize program.trees[number] = tree at htree
  rw [visitTree, htree] at hvisit
  rw [strictVisitTree, htree]
  simp only [strictVisit_eq hlinked h htree, Strict.run_liftM] at hvisit ⊢
  cases hlog : log.visit tree.source (phase.visit program analysis number tree).reports false with
  | mk log fault? =>
    rw [hlog] at hvisit
    cases fault? with
    | some fault => cases hvisit
    | none =>
      obtain rfl := Except.ok.inj hvisit
      exact ⟨rfl, isReady_visit h number tree⟩

theorem foldlM_strictVisitTree_eq (hlinked : program.IsLinked) {phase : Phase}
    {log : DiagnosticLog} (h : phase.IsReady program analysis) {numbers : List Nat}
    (hnumbers : ∀ number ∈ numbers, number < program.trees.length)
    {final : Analysis × DiagnosticLog}
    (hvisits : numbers.foldlM (phase.visitTree program) (analysis, log) = .ok final) :
    numbers.foldlM (phase.strictVisitTree program) (analysis, log) = .ok final := by
  induction numbers generalizing analysis log with
  | nil => exact congrArg Except.ok (Except.ok.inj hvisits)
  | cons number numbers ih =>
    obtain ⟨hnumber, hnumbers⟩ := List.forall_mem_cons.1 hnumbers
    rw [List.foldlM_cons] at hvisits
    cases hvisit : phase.visitTree program (analysis, log) number with
    | error fault =>
      rw [hvisit] at hvisits
      cases hvisits
    | ok next =>
      obtain ⟨hstrict, hready⟩ := strictVisitTree_eq hlinked h hnumber hvisit
      rw [hvisit] at hvisits
      rw [List.foldlM_cons, hstrict]
      exact ih hready hnumbers hvisits

end Phase

/-- Running a phase that is ready. -/
theorem Program.runStrictly_eq (hlinked : program.IsLinked) {phase : Phase}
    (hready : phase.IsReady program analysis) (hreplaces : phase.Replaces program analysis)
    (htails : analysis.TailsMark program) {log : DiagnosticLog} (hidle : log.current = none) :
    program.runStrictly (analysis, log) phase =
      .ok ((phase.run program analysis).1, log.extend (phase.run program analysis).2) := by
  rw [runStrictly, Strict.flatten_eq hlinked]
  exact Phase.foldlM_strictVisitTree_eq hlinked hready
    (fun number => (mem_flatten_iff hlinked number).1)
    (foldlM_visitTree_eq_run hlinked hreplaces htails hidle)

end

/-! ### Sequences of phases -/

theorem Resolver.fieldsUnnested_nil (program : Program) (symbols : Table Symbols) :
    Resolver.FieldsUnnested ⟨program, symbols, []⟩ := by
  rintro struct type - typedef ⟨part, -, next, name, -, hbinding, -⟩
  cases hbinding

/-- The tables after entering symbols and running some more phases. Nothing is said about the
values, which depend on what was bound when they were made. -/
structure Analysis.HasRun (analysis : Analysis) (program : Program) (phases : List Phase) :
    Prop where
  symbols : analysis.symbols = program.symbolTable
  bindings : analysis.bindings = if .bindNames ∈ phases then program.bindingTable else []
  values : ∀ entry ∈ analysis.values, entry.1 ∈ program.flatten
  tails : analysis.TailsMark program

namespace Analysis.HasRun

variable {program : Program} {analysis : Analysis} {phases : List Phase}

theorem start (program : Program) :
    (Phase.enterSymbols.run program .empty).1.HasRun program [] where
  symbols := rfl
  bindings := rfl
  values _ hentry := absurd hentry List.not_mem_nil
  tails := Phase.enterSymbols.tailsMark_run (tailsMark_empty program)

theorem run (h : analysis.HasRun program phases) (phase : Phase) :
    (phase.run program analysis).1.HasRun program (phases ++ [phase]) := by
  have htails := phase.tailsMark_run h.tails
  have hkept (hne : Phase.bindNames ≠ phase) : analysis.bindings =
      if .bindNames ∈ phases ++ [phase] then program.bindingTable else [] := by
    simp only [h.bindings, List.mem_append, List.mem_singleton, hne, or_false]
  cases phase with
  | bindNames =>
    refine ⟨h.symbols, ?_, h.values, htails⟩
    rw [if_pos List.mem_concat_self, Program.bindingTable, ← h.symbols]
    rfl
  | enterSymbols => exact ⟨rfl, hkept Phase.noConfusion, h.values, htails⟩
  | checkTypes =>
    exact ⟨h.symbols, hkept Phase.noConfusion, fun entry hentry =>
      Program.fst_mem_of_mem_forTrees hentry, htails⟩
  | checkCycles => exact ⟨h.symbols, hkept Phase.noConfusion, h.values, htails⟩
  | checkUnused => exact ⟨h.symbols, hkept Phase.noConfusion, h.values, htails⟩

theorem replaces (h : analysis.HasRun program phases) (phase : Phase) :
    phase.Replaces program analysis := by
  cases phase with
  | enterSymbols =>
    intro entry hentry
    rw [h.symbols] at hentry
    exact Program.fst_mem_of_mem_forTrees hentry
  | bindNames =>
    intro entry hentry
    rw [h.bindings] at hentry
    split at hentry
    · exact Program.fst_mem_of_mem_forTrees hentry
    · cases hentry
  | checkTypes => exact h.values
  | checkCycles => trivial
  | checkUnused => trivial

/-- The bindings that there are lead to declarations and to components of names. -/
theorem isClosed (h : analysis.HasRun program phases) (hlinked : program.IsLinked) :
    (analysis.resolver program).IsClosed := by
  have htables := Program.hasTables hlinked
  have hsymbols : program.HasSymbols program.symbolTable := fun number tree htree => by
    rw [htables.symbols, htree, Option.map_some]
  rw [Analysis.resolver, h.symbols, h.bindings]
  split
  · refine isClosed_of_bindNames hlinked.isRead hsymbols fun number found hfound => ?_
    rw [htables.bindings] at hfound
    obtain ⟨tree, htree, rfl⟩ := Option.map_eq_some_iff.1 hfound
    exact ⟨tree, htree, rfl⟩
  · exact isClosed_nil hsymbols

/-- Once names are bound, every tree has its bindings. -/
theorem exists_bindings (h : analysis.HasRun program phases) (hlinked : program.IsLinked)
    (hbound : .bindNames ∈ phases) (number : Nat) (hnumber : number < program.trees.length) :
    ∃ bindings, analysis.bindings.lookup number = some bindings := by
  rw [h.bindings, if_pos hbound, (Program.hasTables hlinked).bindings,
    List.getElem?_eq_getElem hnumber]
  exact ⟨_, rfl⟩

theorem fieldsUnnested (h : analysis.HasRun program phases)
    (hunnested : program.fullResolver.FieldsUnnested) :
    (analysis.resolver program).FieldsUnnested := by
  rw [Analysis.resolver, h.symbols, h.bindings]
  split
  · exact hunnested
  · exact Resolver.fieldsUnnested_nil program program.symbolTable

theorem isReady (h : analysis.HasRun program phases) (hlinked : program.IsLinked) {phase : Phase}
    (hbound : phase = .checkUnused → .bindNames ∈ phases)
    (hunnested : phase = .checkCycles → program.fullResolver.FieldsUnnested) :
    phase.IsReady program analysis := by
  cases phase with
  | enterSymbols => trivial
  | bindNames => exact (h.isClosed hlinked).symbols
  | checkTypes => exact h.isClosed hlinked
  | checkCycles => exact ⟨h.isClosed hlinked, h.fieldsUnnested (hunnested rfl)⟩
  | checkUnused => exact h.exists_bindings hlinked (hbound rfl)

end Analysis.HasRun

namespace Program

variable {program : Program}

theorem runEach_concat (phases : List Phase) (phase : Phase) :
    program.runEach (phases ++ [phase]) =
      ((phase.run program (program.runEach phases).1).1,
        (program.runEach phases).2 ++ (phase.run program (program.runEach phases).1).2) := by
  rw [runEach, List.foldl_append]
  rfl

/-- Phases that run one after the other do not break off, and keep the tables of the phases. -/
theorem foldlM_runStrictly (hlinked : program.IsLinked) {log : DiagnosticLog}
    (hidle : log.current = none) {phases : List Phase}
    (hbound : ∀ before after, phases = before ++ .checkUnused :: after → .bindNames ∈ before)
    (hunnested : .checkCycles ∈ phases → program.fullResolver.FieldsUnnested) :
    (Phase.enterSymbols :: phases).foldlM program.runStrictly (.empty, log) =
        .ok ((program.runEach (.enterSymbols :: phases)).1,
          log.extend (program.runEach (.enterSymbols :: phases)).2) ∧
      (program.runEach (.enterSymbols :: phases)).1.HasRun program phases := by
  induction phases using List.reverseRecOn with
  | nil =>
    have hready : Phase.enterSymbols.IsReady program .empty := trivial
    have hrun := runStrictly_eq hlinked hready
      (fun _ hentry => absurd hentry List.not_mem_nil) (Analysis.tailsMark_empty program) hidle
    refine ⟨?_, .start program⟩
    rw [List.foldlM_cons, hrun]
    rfl
  | append_singleton done phase ih =>
    obtain ⟨hdone, htables⟩ := ih
      (fun before after heq => hbound before (after ++ [phase]) (by rw [heq]; simp))
      (fun hmem => hunnested (List.mem_append_left _ hmem))
    have hready : phase.IsReady program (program.runEach (.enterSymbols :: done)).1 :=
      htables.isReady hlinked
        (fun heq => hbound done [] (by rw [heq]))
        (fun heq => hunnested (by rw [heq]; exact List.mem_concat_self))
    have hlog : (log.extend (program.runEach (.enterSymbols :: done)).2).current = none := hidle
    have hrun := runStrictly_eq hlinked hready (htables.replaces phase) htables.tails hlog
    rw [← List.cons_append, List.foldlM_append, hdone, runEach_concat]
    refine ⟨?_, htables.run phase⟩
    change (program.runStrictly _ phase >>= pure) = _
    rw [bind_pure, hrun, DiagnosticLog.extend_extend]

/-- The phases of a loaded program never break off, whatever they report and whatever the log held
before. Symbols are entered first, and unused includes are looked for after names have been bound;
otherwise phases may come in any order and be repeated. Cycles are looked for only if no field of a
struct reaches a typedef that comes back to itself inside a list or map. The strict run comes to
what running the phases gives, every tree has symbols that point at its own declarations, and
following the tables leads to nodes and declarations of the program. -/
theorem runStrictly_of_loadProgram {loader : Loader} {includePaths : List String} {root : String}
    {program : Program} {diagnostics : List Diagnostic}
    (hload : loadProgram loader includePaths root = .ok (some program, diagnostics))
    {log : DiagnosticLog} (hidle : log.current = none) {phases : List Phase}
    (hbound : ∀ before after, phases = before ++ .checkUnused :: after → .bindNames ∈ before)
    (hunnested : .checkCycles ∈ phases → program.fullResolver.FieldsUnnested) :
    ∃ analysis found, program.runEach (.enterSymbols :: phases) = (analysis, found) ∧
      (Phase.enterSymbols :: phases).foldlM program.runStrictly (.empty, log) =
        .ok (analysis, log.extend found) ∧
      (∀ number tree, program.trees[number]? = some tree → ∃ symbols,
        analysis.symbols.lookup number = some symbols ∧ symbols.PointInto tree.document) ∧
      (analysis.resolver program).IsClosed ∧
      (.bindNames ∈ phases → ∀ number < program.trees.length,
        ∃ bindings, analysis.bindings.lookup number = some bindings) := by
  have hlinked := isLinked_of_loadProgram hload
  obtain ⟨hrun, htables⟩ := foldlM_runStrictly hlinked hidle hbound hunnested
  have hclosed := htables.isClosed hlinked
  exact ⟨_, _, rfl, hrun, fun number tree htree =>
    ⟨_, hclosed.symbols number tree htree, pointInto_enterSymbols tree.document⟩, hclosed,
    htables.exists_bindings hlinked⟩

/-- Nothing in the files is a typedef. -/
theorem fieldsUnnested_hiderTrees : (fullResolver ⟨hiderTrees, 2⟩).FieldsUnnested := by
  have htypedefs : (fullResolver ⟨hiderTrees, 2⟩).typedefs = [] := by
    decide
  rintro struct type - typedef hmentions -
  have hmem := Resolver.mem_typedefs_of_mentions hmentions
  rw [htypedefs] at hmem
  cases hmem

/-- Types are checked before any name is bound, and again after binding has reported one. -/
theorem runStrictly_hiderFiles :
    loadProgram hiderFiles.loader [] "main.thrift" = .ok (some ⟨hiderTrees, 2⟩, []) ∧
      startedLog.current = none ∧
      ∃ analysis found, [Phase.enterSymbols, .checkTypes, .bindNames, .checkUnused, .checkCycles,
          .checkTypes].foldlM (runStrictly ⟨hiderTrees, 2⟩) (.empty, startedLog) =
        .ok (analysis, startedLog.extend found) ∧
        found.map (·.message) =
          [.missingOrder .field "x", .missingOrder .field "y", .notFoundInPackage "X" "c",
            .unusedInclude "d", .cyclicStruct "y" "d", .missingOrder .field "x",
            .missingOrder .field "y", .notAType "d.Y"] := by
  have hbound : ∀ before after, [Phase.checkTypes, .bindNames, .checkUnused, .checkCycles,
      .checkTypes] = before ++ .checkUnused :: after → .bindNames ∈ before := by
    intro before after h
    match before with
    | [] => cases h
    | [_] => cases h
    | _ :: other :: _ =>
      obtain rfl := (List.cons.inj (List.cons.inj h).2).1
      simp
  obtain ⟨analysis, found, heach, hrun, -⟩ :=
    @runStrictly_of_loadProgram _ _ _ _ _ loadProgram_hiderFiles startedLog rfl _ hbound
      fun _ => fieldsUnnested_hiderTrees
  refine ⟨loadProgram_hiderFiles, rfl, analysis, found, hrun, ?_⟩
  obtain rfl : (runEach ⟨hiderTrees, 2⟩ _).2 = found := congrArg Prod.snd heach
  decide +kernel

end Program

end Idl
