import Idl.Diagnostic.Log
import Idl.Proofs.LinkedPrograms

/-!
# The phase driver

The phases as a loop that visits one tree after the other, enters what it finds into tables that it
goes on reading, adds to a log that may hold anything before, and counts errors to see whether a
phase has failed. The loop comes to what the analysis gives, which is a barrier pipeline: each phase
sees the complete tables of the phases before it, and the first one that reports something is the
last one, after it has looked at every tree.
-/
namespace Idl

/-- Enters something for a tree. What was entered for it before is lost. -/
def Table.enter {α : Type} (table : Table α) (number : Nat) (entry : α) : Table α :=
  table.filter (·.1 ≠ number) ++ [(number, entry)]

/-- Adds diagnostics to a log. -/
def DiagnosticLog.extend (log : DiagnosticLog) (diagnostics : List Diagnostic) : DiagnosticLog :=
  { log with diagnostics := log.diagnostics ++ diagnostics }

namespace Phase

/-- What a phase reports when it visits a tree, and the analysis with what it enters for the
tree. -/
def visit (phase : Phase) (program : Program) (analysis : Analysis) (number : Nat)
    (tree : SourceTree) : Reporting Analysis :=
  let resolver := analysis.resolver program
  match phase with
  | enterSymbols => do
    let symbols ← Idl.enterSymbols tree.document
    return { analysis with symbols := analysis.symbols.enter number symbols }
  | bindNames => do
    let bindings ← Idl.bindNames analysis.symbols number tree
    return { analysis with bindings := analysis.bindings.enter number bindings }
  | checkTypes => do
    let values ← resolver.checkTypes number tree.document
    return { analysis with values := analysis.values.enter number values }
  | checkCycles => do
    resolver.checkCycles number tree.document
    return analysis
  | checkUnused => do
    Idl.checkUnused tree ((analysis.bindings.lookup number).getD .empty)
    return analysis

/-- Visits a tree while its file is entered in the log. -/
def visitTree (phase : Phase) (program : Program) (run : Analysis × DiagnosticLog) (number : Nat) :
    Except DiagnosticLog.Fault (Analysis × DiagnosticLog) :=
  match program.trees[number]? with
  | none => .ok run
  | some tree =>
    let visited := phase.visit program run.1 number tree
    match run.2.visit tree.source visited.reports false with
    | (_, some fault) => .error fault
    | (log, none) => .ok (visited.value, log)

end Phase

namespace Program

/-- Visits all trees in one phase after the other, up to the first phase with an error. -/
def drive (program : Program) (run : Analysis × DiagnosticLog) :
    List Phase → Except DiagnosticLog.Fault (Analysis × DiagnosticLog)
  | [] => .ok run
  | phase :: phases => do
    let before := run.2.errorCount
    let (analysis, log) ← program.flatten.foldlM (phase.visitTree program) run
    if log.errorCount - before > 0 then
      return (analysis, log)
    program.drive ({ analysis with completed := some phase }, log) phases

/-- Analyses a program and adds to the log. -/
def analyzeIn (program : Program) (log : DiagnosticLog) :
    Except DiagnosticLog.Fault (Analysis × DiagnosticLog) :=
  program.drive (.empty, log) Phase.all

end Program

/-! ### The loop and the phases -/

namespace DiagnosticLog

variable {log : DiagnosticLog}

@[simp] theorem extend_nil (log : DiagnosticLog) : log.extend [] = log := by
  rw [extend, List.append_nil]

@[simp] theorem extend_extend (log : DiagnosticLog) (first second : List Diagnostic) :
    (log.extend first).extend second = log.extend (first ++ second) := by
  simp only [extend, List.append_assoc]

theorem errorCount_extend (log : DiagnosticLog) (diagnostics : List Diagnostic) :
    (log.extend diagnostics).errorCount = log.errorCount + Diagnostic.errorCount diagnostics :=
  List.countP_append

/-- A visit adds what was reported and leaves the file again. -/
theorem visit_of_within (hidle : log.current = none) {source : Source} {parsed : ParsedDocument}
    (hparsed : source.parse = .ok parsed) {α : Type} {x : Reporting α}
    (h : x.Within (Node.Marks parsed.document.toNode.inner)) :
    log.visit source x.reports false = (log.extend (source.diagnose x.reports), none) := by
  have hlocates : ∀ span ∈ Report.spansAll x.reports, source.Locates span := by
    intro span hspan
    obtain ⟨report, hreport, hspan⟩ := Report.mem_spansAll.1 hspan
    exact Source.locates_of_marks hparsed (h report hreport span hspan)
  have hlocateAll := Source.locateAll_eq_placeAll x.reports hlocates
  have hdiagnose : source.diagnose x.reports = source.placeAll x.reports :=
    congrArg Prod.fst hlocateAll
  simp only [visit, enter, hidle, record, hlocateAll, hdiagnose, leave, extend]
  rfl

end DiagnosticLog

namespace Table

variable {α : Type}

/-- What is left of a table when entries are made anew for some trees. -/
def without (table : Table α) (numbers : List Nat) : Table α :=
  table.filter (·.1 ∉ numbers)

theorem without_nil (table : Table α) : table.without [] = table :=
  List.filter_eq_self.2 fun _ _ => decide_eq_true List.not_mem_nil

theorem without_eq_nil {table : Table α} {numbers : List Nat}
    (h : ∀ entry ∈ table, entry.1 ∈ numbers) : table.without numbers = [] :=
  List.filter_eq_nil_iff.2 fun entry hentry => by simpa using h entry hentry

theorem enter_without_append {numbers : List Nat} {made : Table α} {number : Nat}
    (h : ∀ entry ∈ made, entry.1 ≠ number) (table : Table α) (entry : α) :
    Table.enter (table.without numbers ++ made) number entry =
      table.without (numbers ++ [number]) ++ (made ++ [(number, entry)]) := by
  have hmade : made.filter (·.1 ≠ number) = made :=
    List.filter_eq_self.2 fun entry hentry => decide_eq_true (h entry hentry)
  have htable : (table.without numbers).filter (·.1 ≠ number) =
      table.without (numbers ++ [number]) := by
    rw [without, without, List.filter_filter]
    exact List.filter_congr fun entry _ => by simp [and_comm]
  rw [enter, List.filter_append, hmade, htable, List.append_assoc]

end Table

namespace Program

variable {program : Program} {α : Type} {f : Nat → SourceTree → Reporting α}

theorem forTrees_concat (numbers : List Nat) (number : Nat) :
    program.forTrees (numbers ++ [number]) f =
      ((program.forTrees numbers f).1 ++ (program.forTrees [number] f).1,
        (program.forTrees numbers f).2 ++ (program.forTrees [number] f).2) := by
  simp [forTrees, List.filterMap_append]

theorem fst_mem_of_mem_forTrees {numbers : List Nat} {entry : Nat × α}
    (h : entry ∈ (program.forTrees numbers f).1) : entry.1 ∈ numbers := by
  obtain ⟨result, hresult, rfl⟩ := List.mem_map.1 h
  obtain ⟨number, hnumber, hresult⟩ := List.mem_filterMap.1 hresult
  obtain ⟨tree, -, rfl⟩ := Option.map_eq_some_iff.1 hresult
  exact hnumber

/-- A loop that enters something for each tree makes the entries of these trees anew and adds the
diagnostics to the log. -/
theorem foldlM_visitTree (phase : Phase) (put : Table α → Analysis) {numbers : List Nat}
    (hvisit : ∀ table number tree, phase.visit program (put table) number tree =
      f number tree >>= fun value => pure (put (table.enter number value)))
    (hparsed : ∀ tree ∈ program.trees, ∃ nodes, tree.source.parse = .ok ⟨tree.document, nodes⟩)
    (hwithin : ∀ number tree, program.trees[number]? = some tree →
      (f number tree).Within (Node.Marks tree.document.toNode.inner))
    (hnumbers : numbers.Nodup) (htrees : ∀ number ∈ numbers, number < program.trees.length)
    (table : Table α) {log : DiagnosticLog} (hidle : log.current = none) :
    numbers.foldlM (phase.visitTree program) (put table, log) =
      .ok (put (table.without numbers ++ (program.forTrees numbers f).1),
        log.extend (program.forTrees numbers f).2) := by
  -- from the right, so that the table and log before a tree are those of a shorter loop
  induction numbers using List.reverseRecOn with
  | nil =>
    have hput : put (table.without [] ++ []) = put table := by
      rw [List.append_nil, Table.without_nil]
    exact congrArg₂ (fun analysis log => Except.ok (analysis, log)) hput.symm log.extend_nil.symm
  | append_singleton done number ih =>
    obtain ⟨hdone, -, hnew⟩ := List.nodup_append.1 hnumbers
    obtain ⟨htreesDone, htreesNew⟩ := List.forall_mem_append.1 htrees
    have hmade : ∀ entry ∈ (program.forTrees done f).1, entry.1 ≠ number := fun entry hentry =>
      hnew _ (fst_mem_of_mem_forTrees hentry) _ List.mem_cons_self
    obtain ⟨tree, htree⟩ : ∃ tree, program.trees[number]? = some tree :=
      ⟨_, List.getElem?_eq_getElem (htreesNew number List.mem_cons_self)⟩
    have hstep : phase.visitTree program
        (put (table.without done ++ (program.forTrees done f).1),
          log.extend (program.forTrees done f).2) number =
        .ok (put (table.without (done ++ [number]) ++ (program.forTrees (done ++ [number]) f).1),
          log.extend (program.forTrees (done ++ [number]) f).2) := by
      obtain ⟨nodes, hparsed⟩ := hparsed tree (List.mem_of_getElem? htree)
      have hlog : (log.extend (program.forTrees done f).2).current = none := hidle
      have hsingle : program.forTrees [number] f =
          ([(number, (f number tree).value)], tree.source.diagnose (f number tree).reports) := by
        simp [forTrees, htree, diagnose]
      rw [forTrees_concat, hsingle, Phase.visitTree, htree]
      simp only [hvisit]
      rw [DiagnosticLog.visit_of_within hlog hparsed
        ((hwithin number tree htree).bind fun _ => Reporting.within_pure _)]
      simp [Table.enter_without_append hmade]
    rw [List.foldlM_append, ih hdone htreesDone]
    change (phase.visitTree program _ number >>= pure) = _
    rw [bind_pure, hstep]

end Program

/-- Nothing has been entered into the table of the phase. -/
def Phase.IsFresh (phase : Phase) (analysis : Analysis) : Prop :=
  match phase with
  | enterSymbols => analysis.symbols = []
  | bindNames => analysis.bindings = []
  | checkTypes => analysis.values = []
  | checkCycles => True
  | checkUnused => True

theorem Phase.isFresh_run {phase other : Phase} (hne : other ≠ phase) {analysis : Analysis}
    (h : other.IsFresh analysis) (program : Program) :
    other.IsFresh (phase.run program analysis).1 := by
  cases phase <;> cases other <;> first | exact h | exact absurd rfl hne

/-- What the phase entered before, it enters anew for each of the listed trees. -/
def Phase.Replaces (phase : Phase) (program : Program) (analysis : Analysis) : Prop :=
  match phase with
  | enterSymbols => ∀ entry ∈ analysis.symbols, entry.1 ∈ program.flatten
  | bindNames => ∀ entry ∈ analysis.bindings, entry.1 ∈ program.flatten
  | checkTypes => ∀ entry ∈ analysis.values, entry.1 ∈ program.flatten
  | checkCycles => True
  | checkUnused => True

theorem Phase.IsFresh.replaces {phase : Phase} {analysis : Analysis} (h : phase.IsFresh analysis)
    (program : Program) : phase.Replaces program analysis := by
  cases phase with
  | enterSymbols => exact fun entry hentry => absurd (h ▸ hentry) List.not_mem_nil
  | bindNames => exact fun entry hentry => absurd (h ▸ hentry) List.not_mem_nil
  | checkTypes => exact fun entry hentry => absurd (h ▸ hentry) List.not_mem_nil
  | checkCycles => trivial
  | checkUnused => trivial

namespace Program

variable {program : Program} {analysis : Analysis} {log : DiagnosticLog}

/-- Visiting the listed trees is running the phase. -/
theorem foldlM_visitTree_eq_run (hlinked : program.IsLinked) {phase : Phase}
    (hreplaces : phase.Replaces program analysis) (htails : analysis.TailsMark program)
    (hidle : log.current = none) :
    program.flatten.foldlM (phase.visitTree program) (analysis, log) =
      .ok ((phase.run program analysis).1, log.extend (phase.run program analysis).2) := by
  have hnodup := (inOrder_flatten hlinked).nodup
  have htrees : ∀ number ∈ program.flatten, number < program.trees.length :=
    fun number => (mem_flatten_iff hlinked number).1
  cases phase with
  | enterSymbols =>
    have hfold := foldlM_visitTree .enterSymbols (fun symbols => { analysis with symbols })
      (fun _ _ _ => rfl) hlinked.parsed (fun _ tree _ => within_enterSymbols tree.document) hnodup
      htrees analysis.symbols hidle
    rw [Table.without_eq_nil hreplaces] at hfold
    exact hfold
  | bindNames =>
    have hfold := foldlM_visitTree .bindNames (fun bindings => { analysis with bindings })
      (fun _ _ _ => rfl) hlinked.parsed (fun number tree _ => within_bindNames _ number tree) hnodup
      htrees analysis.bindings hidle
    rw [Table.without_eq_nil hreplaces] at hfold
    exact hfold
  | checkTypes =>
    have hfold := foldlM_visitTree .checkTypes (fun values => { analysis with values })
      (fun _ _ _ => rfl) hlinked.parsed
      (fun number tree htree => Resolver.within_checkTypes (htails number tree htree)) hnodup
      htrees analysis.values hidle
    rw [Table.without_eq_nil hreplaces] at hfold
    exact hfold
  | checkCycles =>
    exact foldlM_visitTree .checkCycles (fun _ => analysis) (fun _ _ _ => rfl) hlinked.parsed
      (fun number tree _ => Resolver.within_checkCycles _ number tree.document) hnodup htrees []
      hidle
  | checkUnused =>
    exact foldlM_visitTree .checkUnused (fun _ => analysis) (fun _ _ _ => rfl) hlinked.parsed
      (fun _ tree htree => within_checkUnused _
        (hlinked.directives tree (List.mem_of_getElem? htree))) hnodup htrees [] hidle

/-- Driving the phases is running them one after the other. -/
theorem drive_eq_runPhases (hlinked : program.IsLinked) {phases : List Phase}
    (hphases : phases.Nodup) (hfresh : ∀ phase ∈ phases, phase.IsFresh analysis)
    (htails : analysis.TailsMark program) (hidle : log.current = none) :
    program.drive (analysis, log) phases =
      .ok ((program.runPhases analysis phases).1,
        log.extend (program.runPhases analysis phases).2) := by
  induction phases generalizing analysis log with
  | nil => exact congrArg (fun log => Except.ok (analysis, log)) log.extend_nil.symm
  | cons phase phases ih =>
    obtain ⟨hnew, hrest⟩ := List.nodup_cons.1 hphases
    have hrun := foldlM_visitTree_eq_run hlinked
      ((hfresh phase List.mem_cons_self).replaces program) htails hidle
    have herrors := phase.errorCount_run_eq_zero_iff program analysis
    rw [drive, hrun, runPhases_cons]
    change (if (log.extend (phase.run program analysis).2).errorCount - log.errorCount > 0 then
      pure _ else _) = _
    rw [DiagnosticLog.errorCount_extend, Nat.add_sub_cancel_left]
    by_cases hfound : (phase.run program analysis).2 = []
    · rw [if_neg (by rw [herrors.2 hfound]; exact lt_irrefl 0), if_pos hfound, hfound,
        DiagnosticLog.extend_nil]
      apply ih hrest
      · intro other hother
        have hne : other ≠ phase := fun heq => hnew (heq ▸ hother)
        have hother := phase.isFresh_run hne (hfresh other (List.mem_cons_of_mem _ hother)) program
        cases other <;> exact hother
      · exact phase.tailsMark_run htails
      · exact hidle
    · rw [if_pos (Nat.pos_of_ne_zero (mt herrors.1 hfound)), if_neg hfound]
      rfl

end Program

/-! ### The pipeline -/

namespace Program

variable (program : Program)

/-- The symbols of all trees. -/
def symbolTable : Table Symbols :=
  (program.forTrees program.flatten fun _ tree => enterSymbols tree.document).1

/-- The bindings of all trees, given all symbols. -/
def bindingTable : Table Bindings :=
  (program.forTrees program.flatten (bindNames program.symbolTable)).1

/-- The resolver that looks names up in the complete tables. -/
def fullResolver : Resolver :=
  ⟨program, program.symbolTable, program.bindingTable⟩

/-- The values of all trees, given all symbols and bindings. -/
def valueTable : Table Values :=
  (program.forTrees program.flatten fun number tree =>
    program.fullResolver.checkTypes number tree.document).1

/-- The complete tables of the phases that have run, and no others. -/
def tables (ran : List Phase) (completed : Option Phase) : Analysis where
  symbols := if .enterSymbols ∈ ran then program.symbolTable else []
  bindings := if .bindNames ∈ ran then program.bindingTable else []
  values := if .checkTypes ∈ ran then program.valueTable else []
  completed := completed

end Program

namespace Phase

variable (phase : Phase) (program : Program)

/-- What a phase reports about a tree, given the complete tables of the phases before it. -/
def reportsOn (number : Nat) (tree : SourceTree) : List Report :=
  match phase with
  | enterSymbols => (Idl.enterSymbols tree.document).reports
  | bindNames => (Idl.bindNames program.symbolTable number tree).reports
  | checkTypes => (program.fullResolver.checkTypes number tree.document).reports
  | checkCycles => (program.fullResolver.checkCycles number tree.document).reports
  | checkUnused =>
    (Idl.checkUnused tree ((program.bindingTable.lookup number).getD .empty)).reports

/-- The diagnostics of a phase about the tree with a number. -/
def found (number : Nat) : List Diagnostic :=
  match program.trees[number]? with
  | some tree => tree.source.diagnose (phase.reportsOn program number tree)
  | none => []

/-- The phase finds nothing in any tree. -/
def IsSilent : Prop :=
  ∀ number ∈ program.flatten, phase.found program number = []

end Phase

namespace Program

variable {program : Program}

theorem diagnostics_forTrees {α : Type} (numbers : List Nat) (f : Nat → SourceTree → Reporting α) :
    (program.forTrees numbers f).2 = numbers.flatMap fun number =>
      match program.trees[number]? with
      | some tree => tree.source.diagnose (f number tree).reports
      | none => [] := by
  induction numbers with
  | nil => rfl
  | cons number numbers ih =>
    rw [List.flatMap_cons, ← ih]
    cases htree : program.trees[number]? with
    | none => simp [forTrees, htree]
    | some tree => simp [forTrees, htree, diagnose]

theorem eq_takeWhile {ran later : List Phase} {phase : Phase}
    (h : Phase.all = ran ++ phase :: later) : ran = Phase.all.takeWhile (· ≠ phase) := by
  have hnodup : (ran ++ phase :: later).Nodup := h ▸ by decide
  have hran : ∀ other ∈ ran, decide (other ≠ phase) := fun other hother =>
    decide_eq_true ((List.nodup_append.1 hnodup).2.2 other hother phase List.mem_cons_self)
  rw [h, List.takeWhile_append_of_pos hran]
  simp

/-- A phase that has the tables of the phases before it adds its own. -/
theorem run_tables {ran later : List Phase} {phase : Phase} (h : Phase.all = ran ++ phase :: later)
    (completed : Option Phase) :
    phase.run program (program.tables ran completed) =
      (program.tables (ran ++ [phase]) completed,
        program.flatten.flatMap (phase.found program)) := by
  rw [eq_takeWhile h]
  cases phase with
  | enterSymbols => exact Prod.ext rfl (diagnostics_forTrees _ _)
  | bindNames => exact Prod.ext rfl (diagnostics_forTrees _ _)
  | checkTypes => exact Prod.ext rfl (diagnostics_forTrees _ _)
  | checkCycles => exact Prod.ext rfl (diagnostics_forTrees _ _)
  | checkUnused => exact Prod.ext rfl (diagnostics_forTrees _ _)

/-- The next phase is the last one if it finds something. -/
theorem runPhases_tables_cons {ran left : List Phase} {first : Phase}
    (h : Phase.all = ran ++ first :: left) :
    program.runPhases (program.tables ran ran.getLast?) (first :: left) =
      if program.flatten.flatMap (first.found program) = [] then
        program.runPhases (program.tables (ran ++ [first]) (ran ++ [first]).getLast?) left
      else
        (program.tables (ran ++ [first]) ran.getLast?,
          program.flatten.flatMap (first.found program)) := by
  rw [runPhases_cons, run_tables h, List.getLast?_concat]
  rfl

theorem flatMap_found_eq_nil_iff {phase : Phase} :
    program.flatten.flatMap (phase.found program) = [] ↔ phase.IsSilent program :=
  List.flatMap_eq_nil_iff

/-- Running the phases that are left comes to the first one that finds something. -/
theorem runPhases_tables {ran left : List Phase} (h : Phase.all = ran ++ left) :
    (∀ earlier phase later, left = earlier ++ phase :: later →
      (∀ other ∈ earlier, other.IsSilent program) → ¬ phase.IsSilent program →
        program.runPhases (program.tables ran ran.getLast?) left =
          (program.tables (ran ++ earlier ++ [phase]) (ran ++ earlier).getLast?,
            program.flatten.flatMap (phase.found program))) ∧
    ((∀ phase ∈ left, phase.IsSilent program) →
      program.runPhases (program.tables ran ran.getLast?) left =
        (program.tables Phase.all Phase.all.getLast?, [])) := by
  induction left generalizing ran with
  | nil =>
    rw [List.append_nil] at h
    subst h
    exact ⟨fun _ _ _ hleft => by simp at hleft, fun _ => rfl⟩
  | cons first left ih =>
    obtain ⟨hstops, hends⟩ := @ih (ran ++ [first]) (by rw [h, List.append_assoc]; rfl)
    have hnext := @runPhases_tables_cons program ran left first h
    refine ⟨fun earlier phase later hleft hearlier hphase => ?_, fun hall => ?_⟩
    · cases earlier with
      | nil =>
        obtain ⟨rfl, rfl⟩ := List.cons.inj hleft
        rw [hnext, if_neg (mt flatMap_found_eq_nil_iff.1 hphase), List.append_nil]
      | cons other earlier =>
        obtain ⟨rfl, hleft'⟩ := List.cons.inj hleft
        obtain ⟨hfirst, hearlier⟩ := List.forall_mem_cons.1 hearlier
        rw [hnext, if_pos (flatMap_found_eq_nil_iff.2 hfirst),
          hstops earlier phase later hleft' hearlier hphase, List.append_assoc ran]
        rfl
    · obtain ⟨hfirst, hleft⟩ := List.forall_mem_cons.1 hall
      rw [hnext, if_pos (flatMap_found_eq_nil_iff.2 hfirst), hends hleft]

/-- The tables hold, for every tree, what the phase computes from the complete tables of the phases
before it. -/
structure HasTables (program : Program) : Prop where
  symbols : ∀ number, program.symbolTable.lookup number =
    program.trees[number]?.map fun tree => (enterSymbols tree.document).value
  bindings : ∀ number, program.bindingTable.lookup number =
    program.trees[number]?.map fun tree => (bindNames program.symbolTable number tree).value
  values : ∀ number, program.valueTable.lookup number =
    program.trees[number]?.map fun tree =>
      (program.fullResolver.checkTypes number tree.document).value

theorem lookup_forTrees_flatten (h : program.IsLinked) {α : Type}
    (f : Nat → SourceTree → Reporting α) (number : Nat) :
    (program.forTrees program.flatten f).1.lookup number =
      program.trees[number]?.map fun tree => (f number tree).value := by
  rw [lookup_forTrees]
  split
  · rfl
  · next hnumber =>
    rw [List.getElem?_eq_none (Nat.not_lt.1 (mt (mem_flatten_iff h number).2 hnumber))]
    rfl

theorem hasTables (h : program.IsLinked) : program.HasTables :=
  ⟨lookup_forTrees_flatten h _, lookup_forTrees_flatten h _, lookup_forTrees_flatten h _⟩

/-- The driver is a barrier pipeline. Whatever the log holds, driving the phases gives the analysis
and adds its diagnostics. Each phase sees the complete tables of those before it. The first phase
that finds something looks at all trees, each behind the trees it includes, and is the last one; if
no phase finds anything, all of them have run. -/
theorem analyzeIn_isPipeline (h : program.IsLinked) {log : DiagnosticLog}
    (hidle : log.current = none) :
    program.analyzeIn log = .ok (program.analyze.1, log.extend program.analyze.2) ∧
      program.InOrder program.flatten ∧
      (∀ number, number ∈ program.flatten ↔ number < program.trees.length) ∧
      program.HasTables ∧
      (∀ earlier phase later, Phase.all = earlier ++ phase :: later →
        (∀ other ∈ earlier, other.IsSilent program) → ¬ phase.IsSilent program →
          program.analyze = (program.tables (earlier ++ [phase]) earlier.getLast?,
            program.flatten.flatMap (phase.found program))) ∧
      ((∀ phase : Phase, phase.IsSilent program) →
        program.analyze = (program.tables Phase.all (some .checkUnused), [])) := by
  have hfresh : ∀ phase ∈ Phase.all, phase.IsFresh .empty := fun phase _ => by
    cases phase <;> first | rfl | trivial
  have hpipeline := @runPhases_tables program [] Phase.all rfl
  exact ⟨drive_eq_runPhases h (by decide) hfresh (Analysis.tailsMark_empty program) hidle,
    inOrder_flatten h, mem_flatten_iff h, hasTables h,
    fun earlier phase later hall hearlier hphase =>
      hpipeline.1 earlier phase later hall hearlier hphase,
    fun hall => hpipeline.2 fun phase _ => hall phase⟩

/-- A log that holds a diagnostic about another file. -/
def startedLog : DiagnosticLog :=
  ⟨none, [⟨.error, "d.thrift", ⟨0, 9⟩, ⟨1, 1⟩, .includeRedeclared "e", []⟩]⟩

theorem analyzeIn_twinTree :
    Program.IsLinked ⟨[twinTree], 0⟩ ∧ startedLog.current = none ∧
      ∃ analysis, Program.analyzeIn ⟨[twinTree], 0⟩ startedLog =
          .ok (analysis, startedLog.extend [⟨.error, "e.thrift", ⟨11, 12⟩, ⟨1, 12⟩,
            .redeclared "A" "enum entry",
            [⟨.note, "e.thrift", ⟨9, 10⟩, ⟨1, 10⟩, .firstDeclared, []⟩]⟩]) ∧
        analysis.completed = none := by
  have hlinked := isLinked_of_loadProgram loadProgram_twinFiles
  obtain ⟨hrun, -⟩ := @analyzeIn_isPipeline _ hlinked startedLog rfl
  rw [diagnostics_twinTree] at hrun
  exact ⟨hlinked, rfl, _, hrun, by decide +kernel⟩

end Program

end Idl
