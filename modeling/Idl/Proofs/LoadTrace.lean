import Idl.Proofs.LoadingSteps
import Idl.Proofs.Parsing
import Idl.Proofs.PlacedReports
import Idl.Proofs.Severity

/-!
# Every file is loaded once

Loading is told as a sequence of events: a file is parsed, and an include directive leads to a file.
Every file that has been parsed is being loaded or is done, and a directive that leads to such a
file starts nothing. So no file is parsed twice, the files that are being loaded are distinct, and
what is wrong with the syntax of a file is reported once, however many directives lead to it.
-/
namespace Idl

/-- What happens while files are loaded. -/
inductive LoadEvent where
  /-- A file is parsed. The active files are those on the way to it. -/
  | parse (file : FoundFile) (active : List String)
  /-- An include directive leads to the file with a canonical path. -/
  | meet (canonical : String)

namespace LoadEvent

def parsed? : LoadEvent → Option FoundFile
  | parse file _ => some file
  | meet _ => none

/-- The files that are parsed, in order. -/
def parsedFiles (events : List LoadEvent) : List FoundFile :=
  events.filterMap parsed?

@[simp] theorem parsedFiles_append (events later : List LoadEvent) :
    parsedFiles (events ++ later) = parsedFiles events ++ parsedFiles later :=
  List.filterMap_append

end LoadEvent

open LoadEvent

/-! ### The trace -/

section

variable (loader : Loader) (includePaths : List String)

/-- The file that an include directive leads to. -/
def meetings (source : Source) (directive : IncludeDirective) : List LoadEvent :=
  match loader.find (includeCandidates includePaths source.path directive) with
  | .error _ => []
  | .ok (_, canonical) => [.meet canonical]

/-- What happens at an include directive; `load` tells what happens when a file is loaded that is
met for the first time. -/
def includeEvents (active : List String) (source : Source)
    (load : (file : FoundFile) → file.canonical ∈ loader.paths → file.canonical ∉ active →
      Loading → List LoadEvent)
    (progress : IncludeProgress) (directive : IncludeDirective) : List LoadEvent :=
  match progress.edges.find? (·.name == packageName (includedFile directive.path.text)) with
  | some _ => []
  | none =>
    meetings loader includePaths source directive ++
      match resolveInclude loader includePaths active progress.state.finished source directive with
      | .fresh file is_file is_new => load file is_file is_new progress.state
      | _ => []

/-- Deals with an include directive as `followInclude` does, and notes what happens. -/
def traceInclude (active : List String) (source : Source)
    (load : (file : FoundFile) → file.canonical ∈ loader.paths → file.canonical ∉ active →
      Loading → (Option Nat × Loading) × List LoadEvent)
    (run : IncludeProgress × List LoadEvent) (directive : IncludeDirective) :
    IncludeProgress × List LoadEvent :=
  (followInclude loader includePaths active source
      (fun file is_file is_new state => (load file is_file is_new state).1) run.1 directive,
    run.2 ++ includeEvents loader includePaths active source
      (fun file is_file is_new state => (load file is_file is_new state).2) run.1 directive)

/-- Loads a file as `loadFile` does, and notes what happens. -/
def traceFile (active : List String) (file : FoundFile) (_ : file.canonical ∈ loader.paths)
    (_ : file.canonical ∉ active) (state : Loading) : (Option Nat × Loading) × List LoadEvent :=
  let source : Source := ⟨file.path, file.text⟩
  match source.parse with
  | .error failure =>
    ((none, (state.report source failure.reports).fail file.canonical), [.parse file active])
  | .ok parsed =>
    let run := parsed.document.includes.foldl
      (traceInclude loader includePaths (file.canonical :: active) source
        fun next is_file is_new state =>
          traceFile (file.canonical :: active) next is_file is_new state)
      (⟨[], true, state⟩, [])
    (if run.1.complete then
      run.1.state.finish file.canonical
        ⟨packageName file.path, source, parsed.document, run.1.edges⟩
    else (none, run.1.state.fail file.canonical), .parse file active :: run.2)
termination_by idleFiles loader active
decreasing_by exact idleFiles_cons_lt (by assumption) (by assumption)

/-- The include directives of a file that have been dealt with, and what happened on the way. -/
def traceIncludes (active : List String) (source : Source) (state : Loading)
    (directives : List IncludeDirective) : IncludeProgress × List LoadEvent :=
  directives.foldl (traceInclude loader includePaths active source
    fun next is_file is_new state => traceFile loader includePaths active next is_file is_new state)
    (⟨[], true, state⟩, [])

end

section

variable {loader : Loader} {includePaths active : List String} {source : Source}

theorem traceFile_of_parse_eq_ok {file : FoundFile} (is_file : file.canonical ∈ loader.paths)
    (is_new : file.canonical ∉ active) (state : Loading) {parsed : ParsedDocument}
    (hparsed : Source.parse ⟨file.path, file.text⟩ = .ok parsed) :
    traceFile loader includePaths active file is_file is_new state =
      let run := traceIncludes loader includePaths (file.canonical :: active)
        ⟨file.path, file.text⟩ state parsed.document.includes
      (if run.1.complete then
        run.1.state.finish file.canonical
          ⟨packageName file.path, ⟨file.path, file.text⟩, parsed.document, run.1.edges⟩
      else (none, run.1.state.fail file.canonical), .parse file active :: run.2) := by
  rw [traceFile]
  simp only [hparsed]
  rfl

theorem traceIncludes_concat (state : Loading) (done : List IncludeDirective)
    (directive : IncludeDirective) :
    traceIncludes loader includePaths active source state (done ++ [directive]) =
      traceInclude loader includePaths active source
        (fun next is_file is_new state =>
          traceFile loader includePaths active next is_file is_new state)
        (traceIncludes loader includePaths active source state done) directive := by
  rw [traceIncludes, List.foldl_append, List.foldl_cons, List.foldl_nil, ← traceIncludes]

theorem fst_traceIncludes (hload : ∀ (next : FoundFile) (is_file : next.canonical ∈ loader.paths)
      (is_new : next.canonical ∉ active) (state : Loading),
      (traceFile loader includePaths active next is_file is_new state).1 =
        loadFile loader includePaths active next is_file is_new state)
    (state : Loading) (directives : List IncludeDirective) :
    (traceIncludes loader includePaths active source state directives).1 =
      followIncludes loader includePaths active source state directives := by
  induction directives using List.reverseRecOn with
  | nil => rfl
  | append_singleton done directive ih =>
    rw [followIncludes_concat, ← ih, traceIncludes_concat, traceInclude]
    simp only [hload]

/-- The trace is one of the loading itself. -/
theorem fst_traceFile {file : FoundFile} (is_file : file.canonical ∈ loader.paths)
    (is_new : file.canonical ∉ active) (state : Loading) :
    (traceFile loader includePaths active file is_file is_new state).1 =
      loadFile loader includePaths active file is_file is_new state := by
  induction hsize : idleFiles loader active using Nat.strong_induction_on
    generalizing active file state with
  | h size ih =>
    cases hparsed : Source.parse ⟨file.path, file.text⟩ with
    | error failure =>
      rw [traceFile, loadFile]
      simp only [hparsed]
    | ok parsed =>
      rw [traceFile_of_parse_eq_ok is_file is_new state hparsed,
        loadFile_of_parse_eq_ok is_file is_new state hparsed]
      simp only [fst_traceIncludes fun next next_is_file next_is_new state =>
        ih _ (hsize ▸ idleFiles_cons_lt is_file is_new) next_is_file next_is_new state rfl]

end

/-! ### Syntax errors -/

def Diagnostic.isSyntaxError (diagnostic : Diagnostic) : Bool :=
  diagnostic.message.isSyntaxError

/-- What is reported when the file is parsed. -/
def FoundFile.faults (file : FoundFile) : List Diagnostic :=
  match Source.parse ⟨file.path, file.text⟩ with
  | .error failure => Source.diagnose ⟨file.path, file.text⟩ failure.reports
  | .ok _ => []

theorem filter_diagnose_of_not_isSyntaxError (source : Source) {report : Report}
    (h : report.message.isSyntaxError = false) :
    (source.diagnose [report]).filter Diagnostic.isSyntaxError = [] := by
  refine List.filter_eq_nil_iff.2 fun diagnostic hdiagnostic => ?_
  obtain ⟨other, hother, -, hmessage⟩ := Source.exists_report_of_mem_diagnose hdiagnostic
  obtain rfl := List.mem_singleton.1 hother
  rw [Diagnostic.isSyntaxError, hmessage, h]
  exact Bool.false_ne_true

/-- A file that is not parsed has one fault. -/
theorem FoundFile.exists_fault {file : FoundFile} {failure : ParseFailure}
    (h : Source.parse ⟨file.path, file.text⟩ = .error failure) :
    ∃ diagnostic : Diagnostic, file.faults = [diagnostic] ∧ diagnostic.file = file.path ∧
      diagnostic.isSyntaxError = true := by
  obtain ⟨token, htoken, message, hmessage, rfl⟩ := Source.exists_syntaxError_of_parse_error h
  refine ⟨Source.place ⟨file.path, file.text⟩ (.error token.span message), ?_, rfl, hmessage⟩
  rw [faults, h]
  refine Source.diagnose_eq_map fun report hreport span hspan => ?_
  obtain rfl := List.mem_singleton.1 hreport
  rw [Report.spans_error, List.mem_singleton] at hspan
  rw [hspan]
  exact Source.locates_of_mem_tokens htoken

theorem FoundFile.filter_faults (file : FoundFile) :
    file.faults.filter Diagnostic.isSyntaxError = file.faults := by
  cases hparsed : Source.parse ⟨file.path, file.text⟩ with
  | ok parsed =>
    rw [faults, hparsed]
    rfl
  | error failure =>
    obtain ⟨diagnostic, hfaults, -, hsyntax⟩ := exists_fault hparsed
    rw [hfaults, List.filter_singleton, hsyntax]
    rfl

/-! ### What a run keeps -/

/-- Every path that leads to a file can be read. -/
def Loader.ReadsAll (loader : Loader) : Prop :=
  ∀ {path canonical}, loader.canonicalize path = .ok canonical →
    ∃ text, loader.read canonical = .ok text

theorem MemoryFiles.readsAll (files : MemoryFiles) : files.loader.ReadsAll := by
  intro path canonical hcanonical
  obtain ⟨rfl, text, htext⟩ := MemoryFiles.canonicalize_eq_ok_iff.1 hcanonical
  exact ⟨text, htext⟩

/-- The canonical paths of the files that are done. -/
def Loading.done (state : Loading) : List String :=
  state.finished.map Prod.fst

theorem Loading.mem_done_of_lookup {state : Loading} {canonical : String} {tree : Option Nat}
    (h : state.finished.lookup canonical = some tree) : canonical ∈ state.done := by
  obtain ⟨before, after, hsplit, -⟩ := List.lookup_eq_some_iff.1 h
  simp [done, hsplit]

theorem Loading.not_mem_done_of_lookup {state : Loading} {canonical : String}
    (h : state.finished.lookup canonical = none) : canonical ∉ state.done := by
  intro hmem
  obtain ⟨entry, hentry, rfl⟩ := List.mem_map.1 hmem
  simpa using List.lookup_eq_none_iff.1 h entry hentry

/-- What the events tell that lead from one state of the loading to another, while some files are
being loaded: the files that have been parsed are those that have been done since, every other file
that a directive led to was being loaded or done, and the syntax errors are those of the parsed
files. -/
structure Loading.Logs (loader : Loader) (active : List String) (start : Loading)
    (events : List LoadEvent) (state : Loading) : Prop where
  done : state.done.Perm (start.done ++ (parsedFiles events).map FoundFile.canonical)
  apart : (active ++ state.done).Nodup
  ways : ∀ file way, .parse file way ∈ events →
    (file.canonical :: way).Nodup ∧ file.canonical :: way ⊆ loader.paths
  met : ∀ canonical, .meet canonical ∈ events → canonical ∈ active ∨ canonical ∈ state.done
  faults : state.diagnostics.filter Diagnostic.isSyntaxError =
    start.diagnostics.filter Diagnostic.isSyntaxError ++
      (parsedFiles events).flatMap FoundFile.faults

namespace Loading.Logs

variable {loader : Loader} {includePaths active : List String} {source : Source}
variable {start middle state : Loading} {events later : List LoadEvent}

theorem refl (h : (active ++ state.done).Nodup) : Logs loader active state [] state where
  done := by rw [parsedFiles, List.filterMap_nil, List.map_nil, List.append_nil]
  apart := h
  ways _ _ hmem := absurd hmem List.not_mem_nil
  met _ hmem := absurd hmem List.not_mem_nil
  faults := (List.append_nil _).symm

theorem done_subset (h : Logs loader active start events state) : start.done ⊆ state.done :=
  fun _ hmem => h.done.symm.subset (List.mem_append_left _ hmem)

theorem trans (h : Logs loader active start events middle)
    (h' : Logs loader active middle later state) :
    Logs loader active start (events ++ later) state where
  done := by
    rw [parsedFiles_append, List.map_append, ← List.append_assoc]
    exact h'.done.trans (h.done.append_right _)
  apart := h'.apart
  ways file way hmem := (List.mem_append.1 hmem).elim (h.ways file way) (h'.ways file way)
  met canonical hmem := by
    rcases List.mem_append.1 hmem with hmem | hmem
    · exact (h.met canonical hmem).imp_right (h'.done_subset ·)
    · exact h'.met canonical hmem
  faults := by
    rw [h'.faults, h.faults, parsedFiles_append, List.flatMap_append, List.append_assoc]

/-- A problem with an include directive is not one of syntax. -/
theorem report (h : Logs loader active start events state) (source : Source) {report : Report}
    (hreport : report.message.isSyntaxError = false) :
    Logs loader active start events (state.report source [report]) where
  done := h.done
  apart := h.apart
  ways := h.ways
  met := h.met
  faults := by
    rw [Loading.report, List.filter_append, filter_diagnose_of_not_isSyntaxError source hreport,
      List.append_nil, h.faults]

/-- A directive led to a file that now is being loaded or done. -/
theorem meet (h : Logs loader active start events state) {directive : IncludeDirective}
    (hmet : ∀ path canonical,
      loader.find (includeCandidates includePaths source.path directive) = .ok (path, canonical) →
        canonical ∈ active ∨ canonical ∈ state.done) :
    Logs loader active start (meetings loader includePaths source directive ++ events) state := by
  unfold meetings
  split
  · exact h
  · next path canonical hfind =>
    refine ⟨h.done, h.apart, fun file way hmem => ?_, fun other hmem => ?_, h.faults⟩
    · exact h.ways file way (by simpa using hmem)
    · rcases List.mem_cons.1 hmem with heq | hmem
      · obtain rfl := LoadEvent.meet.inj heq
        exact hmet path other hfind
      · exact h.met other hmem

theorem meet_of_find (h : Logs loader active start events state) {directive : IncludeDirective}
    {path canonical : String}
    (hfound : loader.find (includeCandidates includePaths source.path directive) =
      .ok (path, canonical))
    (hmet : canonical ∈ active ∨ canonical ∈ state.done) :
    Logs loader active start (meetings loader includePaths source directive ++ events) state :=
  h.meet fun _ _ hfind => by
    obtain ⟨-, rfl⟩ := Prod.mk.inj (Except.ok.inj (hfound.symm.trans hfind))
    exact hmet

/-- Dealing with one more include directive. -/
theorem traceInclude (hreads : loader.ReadsAll)
    {load : (file : FoundFile) → file.canonical ∈ loader.paths → file.canonical ∉ active →
      Loading → (Option Nat × Loading) × List LoadEvent}
    (hload : ∀ next is_file is_new state, (active ++ state.done).Nodup →
      next.canonical ∉ state.done →
        Logs loader active state (load next is_file is_new state).2
            (load next is_file is_new state).1.2 ∧
          next.canonical ∈ (load next is_file is_new state).1.2.done)
    {run : IncludeProgress × List LoadEvent} (h : Logs loader active start run.2 run.1.state)
    (directive : IncludeDirective) :
    Logs loader active start
      (Idl.traceInclude loader includePaths active source load run directive).2
      (Idl.traceInclude loader includePaths active source load run directive).1.state := by
  have hresolves :=
    resolves_resolveInclude loader includePaths active run.1.state.finished source directive
  have hrefl : Logs loader active run.1.state [] run.1.state := refl h.apart
  rw [Idl.traceInclude, followInclude, state_settle]
  refine h.trans ?_
  unfold includeEvents
  cases hname : run.1.edges.find?
      (·.name == packageName (includedFile directive.path.text)) with
  | some first => exact hrefl.report source rfl
  | none =>
    simp only
    generalize resolveInclude loader includePaths active run.1.state.finished source directive =
      outcome at hresolves ⊢
    cases hresolves with
    | missing hmissing =>
      refine (hrefl.meet fun path canonical hfind => ?_).report source rfl
      cases hmissing.symm.trans hfind
    | cycle hfound hactive => exact (hrefl.meet_of_find hfound (.inl hactive)).report source rfl
    | finished hfound _ hlookup =>
      exact hrefl.meet_of_find hfound (.inr (mem_done_of_lookup hlookup))
    | unreadable hfound _ _ herror =>
      obtain ⟨text, htext⟩ := hreads (Loader.canonicalize_of_find hfound)
      cases herror.symm.trans htext
    | fresh hfound hlookup _ =>
      obtain ⟨hlogs, hdone⟩ := hload _ _ _ run.1.state h.apart (not_mem_done_of_lookup hlookup)
      exact hlogs.meet_of_find hfound (.inr hdone)

theorem traceIncludes (hreads : loader.ReadsAll) (source : Source)
    (hload : ∀ (next : FoundFile) is_file is_new state, (active ++ state.done).Nodup →
      next.canonical ∉ state.done →
        Logs loader active state
            (traceFile loader includePaths active next is_file is_new state).2
            (traceFile loader includePaths active next is_file is_new state).1.2 ∧
          next.canonical ∈
            (traceFile loader includePaths active next is_file is_new state).1.2.done)
    (h : (active ++ state.done).Nodup) (directives : List IncludeDirective) :
    Logs loader active state
      (Idl.traceIncludes loader includePaths active source state directives).2
      (Idl.traceIncludes loader includePaths active source state directives).1.state := by
  induction directives using List.reverseRecOn with
  | nil => exact refl h
  | append_singleton done directive ih =>
    rw [traceIncludes_concat]
    exact traceInclude hreads hload ih directive

/-- A file that has been parsed and is done. -/
theorem parse {file : FoundFile} (h : Logs loader (file.canonical :: active) start events middle)
    (hway : file.canonical :: active ⊆ loader.paths)
    (hdone : state.done = file.canonical :: middle.done)
    (hfaults : state.diagnostics.filter Diagnostic.isSyntaxError =
      start.diagnostics.filter Diagnostic.isSyntaxError ++
        (file.faults ++ (parsedFiles events).flatMap FoundFile.faults)) :
    Logs loader active start (.parse file active :: events) state ∧
      file.canonical ∈ state.done := by
  have hmem : file.canonical ∈ state.done := hdone ▸ List.mem_cons_self
  refine ⟨⟨?_, ?_, fun other way hevent => ?_, fun canonical hevent => ?_, hfaults⟩, hmem⟩
  · rw [hdone]
    exact (h.done.cons _).trans List.perm_middle.symm
  · rw [hdone]
    exact List.perm_middle.nodup_iff.2 h.apart
  · rcases List.mem_cons.1 hevent with heq | hevent
    · obtain ⟨rfl, rfl⟩ := LoadEvent.parse.inj heq
      exact ⟨(List.nodup_append.1 h.apart).1, hway⟩
    · exact h.ways other way hevent
  · have hevent : .meet canonical ∈ events := by simpa using hevent
    rcases h.met canonical hevent with hactive | hcanonical
    · rcases List.mem_cons.1 hactive with rfl | hactive
      · exact .inr hmem
      · exact .inl hactive
    · exact .inr (hdone ▸ List.mem_cons_of_mem _ hcanonical)

/-- Loading a file. -/
theorem traceFile (hreads : loader.ReadsAll) {file : FoundFile}
    (is_file : file.canonical ∈ loader.paths) (is_new : file.canonical ∉ active)
    (hactive : active ⊆ loader.paths)
    (hapart : (active ++ state.done).Nodup) (hidle : file.canonical ∉ state.done) :
    Logs loader active state
        (Idl.traceFile loader includePaths active file is_file is_new state).2
        (Idl.traceFile loader includePaths active file is_file is_new state).1.2 ∧
      file.canonical ∈
        (Idl.traceFile loader includePaths active file is_file is_new state).1.2.done := by
  induction hsize : idleFiles loader active using Nat.strong_induction_on
    generalizing active file state with
  | h size ih =>
    have hway : file.canonical :: active ⊆ loader.paths := List.cons_subset.2 ⟨is_file, hactive⟩
    -- the file is new, both among the files on the way and among those that are done
    have hentered : (file.canonical :: active ++ state.done).Nodup := by
      refine List.nodup_cons.2 ⟨fun hmem => ?_, hapart⟩
      exact (List.mem_append.1 hmem).elim is_new hidle
    cases hparsed : Source.parse ⟨file.path, file.text⟩ with
    | error failure =>
      have hfaults : file.faults = Source.diagnose ⟨file.path, file.text⟩ failure.reports := by
        rw [FoundFile.faults, hparsed]
      rw [Idl.traceFile]
      simp only [hparsed]
      refine (refl hentered).parse hway rfl ?_
      rw [Loading.fail, Loading.report, List.filter_append, ← hfaults, file.filter_faults]
      exact congrArg _ (List.append_nil _).symm
    | ok parsed =>
      have hfaults : file.faults = [] := by
        rw [FoundFile.faults, hparsed]
      rw [traceFile_of_parse_eq_ok is_file is_new state hparsed]
      have hlogs := traceIncludes hreads ⟨file.path, file.text⟩
        (fun next next_is_file next_is_new state hstate hnext =>
          ih _ (hsize ▸ idleFiles_cons_lt is_file is_new) next_is_file next_is_new hway hstate
            hnext rfl) hentered parsed.document.includes
      simp only
      split
      · exact hlogs.parse hway rfl (by rw [hfaults]; exact hlogs.faults)
      · exact hlogs.parse hway rfl (by rw [hfaults]; exact hlogs.faults)

end Loading.Logs

/-! ### Whole runs -/

/-- What the events tell of a loading from its beginning to its end. -/
structure LoadsOnce (loader : Loader) (root : String) (events : List LoadEvent)
    (diagnostics : List Diagnostic) : Prop where
  /-- No file is parsed twice. -/
  once : ((parsedFiles events).map FoundFile.canonical).Nodup
  /-- The files that are being loaded are distinct, so they are no more than there are files. -/
  ways : ∀ file way, .parse file way ∈ events →
    (file.canonical :: way).Nodup ∧ (file.canonical :: way).length ≤ loader.paths.dedup.length
  /-- The root is parsed once, and so is every file that a directive leads to. -/
  reached : ∀ canonical, canonical = root ∨ .meet canonical ∈ events →
    ∃ file, (parsedFiles events).filter (·.canonical = canonical) = [file]
  /-- Each parsed file with a syntax error is reported once. -/
  faults : diagnostics.filter Diagnostic.isSyntaxError =
    (parsedFiles events).flatMap FoundFile.faults
  single : ∀ file ∈ parsedFiles events, file.faults.length =
    if (Source.parse ⟨file.path, file.text⟩).isOk then 0 else 1

theorem FoundFile.length_faults (file : FoundFile) :
    file.faults.length = if (Source.parse ⟨file.path, file.text⟩).isOk then 0 else 1 := by
  cases hparsed : Source.parse ⟨file.path, file.text⟩ with
  | ok parsed =>
    rw [faults, hparsed]
    rfl
  | error failure =>
    obtain ⟨diagnostic, hfaults, -⟩ := exists_fault hparsed
    rw [hfaults]
    rfl

theorem exists_filter_eq_singleton {files : List FoundFile}
    (hnodup : (files.map FoundFile.canonical).Nodup) {canonical : String}
    (hmem : canonical ∈ files.map FoundFile.canonical) :
    ∃ file, files.filter (·.canonical = canonical) = [file] := by
  induction files with
  | nil => cases hmem
  | cons file files ih =>
    obtain ⟨hnew, hnodup⟩ := List.nodup_cons.1 hnodup
    by_cases hfile : file.canonical = canonical
    · have hrest : files.filter (·.canonical = canonical) = [] := by
        refine List.filter_eq_nil_iff.2 fun other hother hcanonical => hnew ?_
        rw [hfile, ← of_decide_eq_true hcanonical]
        exact List.mem_map_of_mem hother
      exact ⟨file, by rw [List.filter_cons, if_pos (decide_eq_true hfile), hrest]⟩
    · rw [List.filter_cons_of_neg (by simpa using hfile)]
      exact ih hnodup ((List.mem_cons.1 hmem).resolve_left fun heq => hfile heq.symm)

theorem Loading.Logs.loadsOnce {loader : Loader} {root : String} {events : List LoadEvent}
    {state : Loading} (h : Logs loader [] .empty events state) (hroot : root ∈ state.done) :
    LoadsOnce loader root events state.diagnostics := by
  have hdone : state.done.Perm ((parsedFiles events).map FoundFile.canonical) := h.done
  have honce := hdone.nodup_iff.1 h.apart
  refine ⟨honce, fun file way hevent => ?_, fun canonical hcanonical => ?_, h.faults,
    fun file _ => file.length_faults⟩
  · obtain ⟨hnodup, hway⟩ := h.ways file way hevent
    refine ⟨hnodup, (List.subperm_of_subset hnodup fun other hother => ?_).length_le⟩
    exact List.mem_dedup.2 (hway hother)
  · refine exists_filter_eq_singleton honce (hdone.subset ?_)
    rcases hcanonical with rfl | hevent
    · exact hroot
    · exact (h.met canonical hevent).resolve_left List.not_mem_nil

/-- Loading ends, and every file is parsed once. -/
theorem loadRoot_once (files : MemoryFiles) (includePaths : List String) {root text : String}
    (hread : files.read root = .ok text) :
    ∃ outcome events, ∃ is_file : FilePath.normalize root ∈ files.loader.paths,
      traceFile files.loader includePaths [] ⟨root, FilePath.normalize root, text⟩ is_file
          List.not_mem_nil .empty = (outcome, events) ∧
        loadRoot files.loader includePaths root = .ok outcome ∧
        (∃ program?, loadProgram files.loader includePaths root =
          .ok (program?, outcome.2.diagnostics)) ∧
        LoadsOnce files.loader (FilePath.normalize root) events outcome.2.diagnostics := by
  have hcanonical : files.loader.canonicalize root = .ok (FilePath.normalize root) :=
    MemoryFiles.canonicalize_eq_ok_iff.2 ⟨rfl, text, hread⟩
  have hroot := @loadRoot_eq files.loader includePaths _ _ _ hcanonical hread
  rw [← fst_traceFile] at hroot
  obtain ⟨hlogs, hdone⟩ := @Loading.Logs.traceFile files.loader includePaths [] .empty
    files.readsAll ⟨root, FilePath.normalize root, text⟩ (files.loader.mem_paths hread)
    List.not_mem_nil (List.nil_subset _) List.nodup_nil List.not_mem_nil
  exact ⟨_, _, files.loader.mem_paths hread, rfl, hroot, ⟨_, by rw [loadProgram, hroot]; rfl⟩,
    hlogs.loadsOnce hdone⟩

/-- A broken file that two directives lead to, by different spellings of its path. -/
def brokenFiles : MemoryFiles :=
  .ofList [("a.thrift", "include \"b\" include \"c\""), ("b.thrift", "include \"./c\""),
    ("c.thrift", "struct")]

theorem loadRoot_brokenFiles :
    brokenFiles.read "a.thrift" = .ok "include \"b\" include \"c\"" ∧
      ∃ outcome events, ∃ is_file : FilePath.normalize "a.thrift" ∈ brokenFiles.loader.paths,
        traceFile brokenFiles.loader [] []
            ⟨"a.thrift", FilePath.normalize "a.thrift", "include \"b\" include \"c\""⟩ is_file
            List.not_mem_nil .empty = (outcome, events) ∧
          loadRoot brokenFiles.loader [] "a.thrift" = .ok outcome ∧
          (∃ program?, loadProgram brokenFiles.loader [] "a.thrift" =
            .ok (program?, outcome.2.diagnostics)) ∧
          LoadsOnce brokenFiles.loader (FilePath.normalize "a.thrift") events
            outcome.2.diagnostics := by
  have hread : brokenFiles.read "a.thrift" = .ok "include \"b\" include \"c\"" := by rfl
  exact ⟨hread, loadRoot_once brokenFiles [] hread⟩

end Idl
