import Idl.Compilation
import Idl.Loader.Memory
import Idl.Proofs.LoadingCases
import Idl.Proofs.Phases
import Idl.Proofs.PlacedReports

/-!
# Where diagnostics lie

Every diagnostic of a compilation, with all notes under it, is about one of the files that were
parsed, and lies at a token of that file or at a node of its tree. The phases look at one tree at a
time but hold spans of others, so what is shown of each step is that its reports stay within the
nodes of the tree that it looks at.
-/
namespace Idl

/-- The span is that of a token of the file, or of a node of its tree other than the document. -/
def Source.Marks (source : Source) (span : Span) : Prop :=
  (∃ token ∈ source.tokens, token.span = span) ∨
    ∃ parsed, source.parse = .ok parsed ∧ Node.Marks parsed.document.toNode.inner span

theorem Source.Marks.locates {source : Source} {span : Span} (h : source.Marks span) :
    source.Locates span := by
  rcases h with ⟨token, htoken, rfl⟩ | ⟨parsed, hparsed, hmarks⟩
  · exact Source.locates_of_mem_tokens htoken
  · exact Source.locates_of_marks hparsed hmarks

/-- A diagnostic and all notes under it are about one file, and lie where they say. -/
inductive Diagnostic.LiesIn (source : Source) : Diagnostic → Prop
  | intro {diagnostic : Diagnostic} (file : diagnostic.file = source.path)
      (marks : source.Marks diagnostic.span)
      (ordered : diagnostic.span.start ≤ diagnostic.span.stop)
      (bounded : diagnostic.span.stop ≤ source.size)
      (start : Text.IsBoundary diagnostic.span.start source.chars)
      (stop : Text.IsBoundary diagnostic.span.stop source.chars)
      (location : source.lineColumn? diagnostic.span.start = some diagnostic.location)
      (also : ∀ note ∈ diagnostic.also, LiesIn source note) : LiesIn source diagnostic

namespace Source

variable {source : Source}

mutual

theorem liesIn_place :
    ∀ report : Report, (∀ span ∈ report.spans, source.Marks span) →
      (source.place report).LiesIn source
  | ⟨severity, span, message, also⟩, h => by
    rw [Report.spans, List.forall_mem_cons] at h
    have hlocates := h.1.locates
    rw [place]
    exact .intro rfl h.1 hlocates.ordered hlocates.stop_le hlocates.start hlocates.stop
      hlocates.lineColumn? (liesIn_placeAll also h.2)

theorem liesIn_placeAll :
    ∀ reports : List Report, (∀ span ∈ Report.spansAll reports, source.Marks span) →
      ∀ diagnostic ∈ source.placeAll reports, diagnostic.LiesIn source
  | [], _ => by
    rw [placeAll]
    exact fun _ hmem => absurd hmem List.not_mem_nil
  | report :: reports, h => by
    rw [Report.spansAll, List.forall_mem_append] at h
    rw [placeAll, List.forall_mem_cons]
    exact ⟨liesIn_place report h.1, liesIn_placeAll reports h.2⟩

end

theorem liesIn_of_mem_diagnose {reports : List Report}
    (h : ∀ report ∈ reports, ∀ span ∈ report.spans, source.Marks span) :
    ∀ diagnostic ∈ source.diagnose reports, diagnostic.LiesIn source := by
  rw [diagnose_eq_map fun report hreport span hspan => (h report hreport span hspan).locates,
    List.forall_mem_map]
  exact fun report hreport => liesIn_place report (h report hreport)

end Source

/-! ### Loading -/

/-- The files that are parsed while a file is loaded: that file, and those that are parsed while a
file is loaded that is met for the first time at one of its include directives. -/
inductive Parses (loader : Loader) (includePaths : List String) :
    List String → FoundFile → Loading → Source → Prop
  | self {active file state} : Parses loader includePaths active file state ⟨file.path, file.text⟩
  | included {active file state parsed done directive rest next is_file is_new source}
      (parses : Source.parse ⟨file.path, file.text⟩ = .ok parsed)
      (directives : done ++ directive :: rest = parsed.document.includes)
      (names : (followIncludes loader includePaths (file.canonical :: active)
        ⟨file.path, file.text⟩ state done).edges.find?
          (·.name == packageName (includedFile directive.path.text)) = none)
      (meets : resolveInclude loader includePaths (file.canonical :: active)
        (followIncludes loader includePaths (file.canonical :: active) ⟨file.path, file.text⟩ state
          done).state.finished ⟨file.path, file.text⟩ directive = .fresh next is_file is_new)
      (later : Parses loader includePaths (file.canonical :: active) next
        (followIncludes loader includePaths (file.canonical :: active) ⟨file.path, file.text⟩ state
          done).state source) :
      Parses loader includePaths active file state source

/-- The files that are parsed in a compilation. -/
def Loader.Parses (loader : Loader) (includePaths : List String) (root : String) (source : Source) :
    Prop :=
  ∃ canonical text, loader.canonicalize root = .ok canonical ∧ loader.read canonical = .ok text ∧
    Idl.Parses loader includePaths [] ⟨root, canonical, text⟩ .empty source

/-- A tree comes from one of the files, and its edges from the include directives there. -/
structure SourceTree.ComesFrom (sources : Source → Prop) (tree : SourceTree) : Prop where
  source : sources tree.source
  parsed : ∃ nodes, tree.source.parse = .ok ⟨tree.document, nodes⟩
  directives : ∀ edge ∈ tree.includes, edge.directive ∈ tree.document.includes

/-- What was found comes from the files, and the diagnostics are about them. -/
structure Loading.ComesFrom (sources : Source → Prop) (state : Loading) : Prop where
  trees : ∀ tree ∈ state.trees, tree.ComesFrom sources
  diagnostics : ∀ diagnostic ∈ state.diagnostics,
    ∃ source, sources source ∧ diagnostic.LiesIn source

namespace Loading.ComesFrom

variable {sources : Source → Prop} {state : Loading}

theorem empty : Loading.empty.ComesFrom sources :=
  ⟨fun _ hmem => absurd hmem List.not_mem_nil, fun _ hmem => absurd hmem List.not_mem_nil⟩

theorem report (h : state.ComesFrom sources) {source : Source} (hsource : sources source)
    {reports : List Report}
    (hmarks : ∀ report ∈ reports, ∀ span ∈ report.spans, source.Marks span) :
    (state.report source reports).ComesFrom sources where
  trees := h.trees
  diagnostics := List.forall_mem_append.2 ⟨h.diagnostics, fun diagnostic hdiagnostic =>
    ⟨source, hsource, Source.liesIn_of_mem_diagnose hmarks diagnostic hdiagnostic⟩⟩

theorem fail (h : state.ComesFrom sources) (canonical : String) :
    (state.fail canonical).ComesFrom sources :=
  ⟨h.trees, h.diagnostics⟩

theorem finish (h : state.ComesFrom sources) (canonical : String) {tree : SourceTree}
    (htree : tree.ComesFrom sources) : (state.finish canonical tree).2.ComesFrom sources :=
  ⟨List.forall_mem_append.2 ⟨h.trees, List.forall_mem_singleton.2 htree⟩, h.diagnostics⟩

end Loading.ComesFrom

section

variable {source : Source} {parsed : ParsedDocument} {directive : IncludeDirective}

theorem Source.marks_path (hparsed : source.parse = .ok parsed)
    (hdirective : directive ∈ parsed.document.includes) : source.Marks directive.path.span :=
  .inr ⟨parsed, hparsed, (Document.contains_path hdirective).marks⟩

theorem Source.marks_include (hparsed : source.parse = .ok parsed)
    (hdirective : directive ∈ parsed.document.includes) : source.Marks directive.span :=
  .inr ⟨parsed, hparsed, (Document.contains_include hdirective).marks⟩

theorem Source.marks_redeclaredInclude (hparsed : source.parse = .ok parsed)
    (hdirective : directive ∈ parsed.document.includes) {first : IncludeEdge}
    (hfirst : first.directive ∈ parsed.document.includes) (name : String) :
    ∀ span ∈ (redeclaredInclude name directive first).spans, source.Marks span := by
  have hspans : (redeclaredInclude name directive first).spans =
      [directive.path.span, first.directive.span] := rfl
  rw [hspans]
  exact List.forall_mem_cons.2 ⟨marks_path hparsed hdirective,
    List.forall_mem_singleton.2 (marks_include hparsed hfirst)⟩

end

/-- What holds after some of the include directives of a file. -/
structure IncludeProgress.ComesFrom (sources : Source → Prop) (document : Document)
    (progress : IncludeProgress) : Prop where
  state : progress.state.ComesFrom sources
  directives : ∀ edge ∈ progress.edges, edge.directive ∈ document.includes

theorem IncludeProgress.ComesFrom.settle {sources : Source → Prop} {document : Document}
    {progress : IncludeProgress} (h : progress.ComesFrom sources document) (name : String)
    {directive : IncludeDirective} (hdirective : directive ∈ document.includes)
    {outcome : Option Nat × Loading} (houtcome : outcome.2.ComesFrom sources) :
    (progress.settle name directive outcome).ComesFrom sources document := by
  obtain ⟨tree | tree, state⟩ := outcome
  · exact ⟨houtcome, h.directives⟩
  · exact ⟨houtcome, List.forall_mem_append.2
      ⟨h.directives, List.forall_mem_singleton.2 hdirective⟩⟩

section

variable {loader : Loader} {includePaths active : List String} {sources : Source → Prop}

theorem IncludeProgress.ComesFrom.followInclude {source : Source} (hsource : sources source)
    {parsed : ParsedDocument} (hparsed : source.parse = .ok parsed)
    {load : (file : FoundFile) → file.canonical ∈ loader.paths → file.canonical ∉ active →
      Loading → Option Nat × Loading}
    {progress : IncludeProgress} (h : progress.ComesFrom sources parsed.document)
    {directive : IncludeDirective} (hdirective : directive ∈ parsed.document.includes)
    (hload : ∀ file is_file is_new,
      progress.edges.find? (·.name == packageName (includedFile directive.path.text)) = none →
      resolveInclude loader includePaths active progress.state.finished source directive =
        .fresh file is_file is_new →
      (load file is_file is_new progress.state).2.ComesFrom sources) :
    (Idl.followInclude loader includePaths active source load progress directive).ComesFrom
      sources parsed.document := by
  unfold Idl.followInclude
  apply h.settle _ hdirective
  split
  · next first hfirst =>
    have hfirst := h.directives first (List.mem_of_find?_eq_some hfirst)
    exact h.state.report hsource (List.forall_mem_singleton.2
      (Source.marks_redeclaredInclude hparsed hdirective hfirst _))
  · next hname =>
    split
    · next hrefused =>
      obtain ⟨message, rfl, -⟩ := exists_message_of_resolveInclude hrefused
      refine h.state.report hsource (List.forall_mem_singleton.2 ?_)
      exact List.forall_mem_singleton.2 (Source.marks_path hparsed hdirective)
    · exact h.state
    · next hfresh => exact hload _ _ _ hname hfresh

theorem IncludeProgress.comesFrom_followIncludes {source : Source} (hsource : sources source)
    {parsed : ParsedDocument} (hparsed : source.parse = .ok parsed) {state : Loading}
    (h : state.ComesFrom sources)
    (hload : ∀ done directive rest, done ++ directive :: rest = parsed.document.includes →
      ∀ next is_file is_new,
        (followIncludes loader includePaths active source state done).edges.find?
          (·.name == packageName (includedFile directive.path.text)) = none →
        resolveInclude loader includePaths active
          (followIncludes loader includePaths active source state done).state.finished source
          directive = .fresh next is_file is_new →
        (followIncludes loader includePaths active source state done).state.ComesFrom sources →
        (loadFile loader includePaths active next is_file is_new
          (followIncludes loader includePaths active source state done).state).2.ComesFrom sources)
    {done : List IncludeDirective} (hdone : done <+: parsed.document.includes) :
    (followIncludes loader includePaths active source state done).ComesFrom sources
      parsed.document := by
  induction done using List.reverseRecOn with
  | nil => exact ⟨h, fun _ hmem => absurd hmem List.not_mem_nil⟩
  | append_singleton done directive ih =>
    obtain ⟨rest, hrest⟩ := hdone
    rw [List.append_assoc, List.singleton_append] at hrest
    have hprogress := ih ⟨_, hrest⟩
    have hdirective : directive ∈ parsed.document.includes := by simp [← hrest]
    rw [followIncludes_concat]
    exact hprogress.followInclude hsource hparsed hdirective fun next is_file is_new hname hfresh =>
      hload done directive rest hrest next is_file is_new hname hfresh hprogress.state

/-- Loading a file adds only what comes from the files that are parsed on the way. -/
theorem Loading.ComesFrom.loadFile {file : FoundFile} (is_file : file.canonical ∈ loader.paths)
    (is_new : file.canonical ∉ active) {state : Loading} (h : state.ComesFrom sources)
    (hsources : ∀ source, Idl.Parses loader includePaths active file state source →
      sources source) :
    (Idl.loadFile loader includePaths active file is_file is_new state).2.ComesFrom sources := by
  induction hsize : idleFiles loader active using Nat.strong_induction_on
    generalizing active file state with
  | h size ih =>
    have hsource := hsources _ .self
    cases hparsed : Source.parse ⟨file.path, file.text⟩ with
    | error failure =>
      rw [loadFile_of_parse_eq_error is_file is_new state hparsed]
      obtain ⟨token, htoken, message, rfl⟩ := Source.exists_token_of_parse_error hparsed
      refine (h.report hsource fun report hreport span hspan => ?_).fail _
      obtain rfl := List.mem_singleton.1 hreport
      rw [Report.spans_error, List.mem_singleton] at hspan
      exact .inl ⟨token, htoken, hspan.symm⟩
    | ok parsed =>
      rw [loadFile_of_parse_eq_ok is_file is_new state hparsed]
      have hprogress := IncludeProgress.comesFrom_followIncludes hsource hparsed h
        (fun done directive rest hrest next next_is_file next_is_new hname hfresh hstate =>
          ih _ (hsize ▸ idleFiles_cons_lt is_file is_new) next_is_file next_is_new hstate
            (fun source hparses =>
              hsources source (.included hparsed hrest hname hfresh hparses)) rfl)
        List.prefix_rfl
      simp only
      split
      · exact hprogress.state.finish _ ⟨hsource, ⟨_, hparsed⟩, hprogress.directives⟩
      · exact hprogress.state.fail _

theorem Loading.comesFrom_loadRoot {root : String} {number? : Option Nat} {state : Loading}
    (h : loadRoot loader includePaths root = .ok (number?, state)) :
    state.ComesFrom (loader.Parses includePaths root) := by
  obtain ⟨⟨path, canonical, text⟩, hfile, rfl, heq⟩ := exists_loadFile_of_loadRoot h
  rw [show state = _ from congrArg Prod.snd heq]
  exact Loading.ComesFrom.empty.loadFile _ _ fun source hparses =>
    ⟨canonical, text, hfile.found, hfile.read, hparses⟩

end

/-! ### Phases -/

section

variable {sources : Source → Prop} {program : Program}

/-- A step that keeps to the nodes of each tree keeps to its file. -/
theorem Program.liesIn_forTrees (hprogram : ∀ tree ∈ program.trees, tree.ComesFrom sources)
    {α : Type} {numbers : List Nat} {f : Nat → SourceTree → Reporting α}
    (hwithin : ∀ number tree, program.trees[number]? = some tree →
      (f number tree).Within (Node.Marks tree.document.toNode.inner)) :
    ∀ diagnostic ∈ (program.forTrees numbers f).2,
      ∃ source, sources source ∧ diagnostic.LiesIn source := by
  intro diagnostic hdiagnostic
  obtain ⟨⟨number, result⟩, hresult, hdiagnostic⟩ := List.mem_flatMap.1 hdiagnostic
  obtain ⟨_, _, hresult⟩ := List.mem_filterMap.1 hresult
  obtain ⟨tree, htree, heq⟩ := Option.map_eq_some_iff.1 hresult
  obtain ⟨rfl, rfl⟩ := Prod.mk.inj heq
  have hcomes := hprogram tree (List.mem_of_getElem? htree)
  obtain ⟨nodes, hparsed⟩ := hcomes.parsed
  simp only [Program.diagnose, htree] at hdiagnostic
  refine ⟨tree.source, hcomes.source, ?_⟩
  exact Source.liesIn_of_mem_diagnose (fun report hreport span hspan =>
    .inr ⟨_, hparsed, hwithin _ tree htree report hreport span hspan⟩) diagnostic hdiagnostic

/-- The components that bindings leave over are spelled in the files of the names. -/
def Analysis.TailsMark (analysis : Analysis) (program : Program) : Prop :=
  ∀ (number : Nat) (tree : SourceTree), program.trees[number]? = some tree →
    Coercion.TailsMark (analysis.resolver program) number tree.document.toNode.inner

theorem Analysis.tailsMark_empty (program : Program) : Analysis.empty.TailsMark program := by
  intro number tree _ name binding hbinding
  cases hbinding

theorem Analysis.tailsMark_bindNames (program : Program) (numbers : List Nat)
    (analysis : Analysis) :
    { analysis with
      bindings := (program.forTrees numbers (bindNames analysis.symbols)).1 : Analysis }.TailsMark
        program := by
  intro number tree htree name binding hbinding member hmember
  obtain ⟨bindings, hbindings, hlookup⟩ := Option.bind_eq_some_iff.1 hbinding
  have htable := program.lookup_forTrees numbers (bindNames analysis.symbols) number
  have hbindings : (program.forTrees numbers (bindNames analysis.symbols)).1.lookup number =
      some bindings := hbindings
  rw [hbindings, htree] at htable
  split at htable
  · obtain rfl := Option.some.inj htable
    obtain ⟨reference, hreference, hsubset⟩ := tail_of_lookup_bindNames hlookup
    exact Identifier.marks ((Document.contains_reference hreference).trans
      (Name.contains_identifier (hsubset hmember)))
  · cases htable

theorem Phase.tailsMark_run {analysis : Analysis} (h : analysis.TailsMark program) (phase : Phase) :
    (phase.run program analysis).1.TailsMark program := by
  cases phase with
  | bindNames => exact analysis.tailsMark_bindNames program program.flatten
  | _ => exact h

theorem Phase.liesIn_run (hprogram : ∀ tree ∈ program.trees, tree.ComesFrom sources)
    {analysis : Analysis} (h : analysis.TailsMark program) (phase : Phase) :
    ∀ diagnostic ∈ (phase.run program analysis).2,
      ∃ source, sources source ∧ diagnostic.LiesIn source := by
  cases phase with
  | enterSymbols =>
    exact Program.liesIn_forTrees hprogram fun _ tree _ => within_enterSymbols tree.document
  | bindNames =>
    exact Program.liesIn_forTrees hprogram fun number tree _ =>
      within_bindNames analysis.symbols number tree
  | checkTypes =>
    exact Program.liesIn_forTrees hprogram fun number tree htree =>
      Resolver.within_checkTypes (h number tree htree)
  | checkCycles =>
    exact Program.liesIn_forTrees hprogram fun number tree _ =>
      Resolver.within_checkCycles _ number tree.document
  | checkUnused =>
    exact Program.liesIn_forTrees hprogram fun _ tree htree =>
      within_checkUnused _ (hprogram tree (List.mem_of_getElem? htree)).directives

theorem Program.liesIn_runPhases (hprogram : ∀ tree ∈ program.trees, tree.ComesFrom sources)
    {analysis : Analysis} (h : analysis.TailsMark program) (phases : List Phase) :
    ∀ diagnostic ∈ (program.runPhases analysis phases).2,
      ∃ source, sources source ∧ diagnostic.LiesIn source := by
  induction phases generalizing analysis with
  | nil => exact fun _ hmem => absurd hmem List.not_mem_nil
  | cons phase phases ih =>
    rw [runPhases_cons]
    split
    · exact ih (phase.tailsMark_run h)
    · exact phase.liesIn_run hprogram h

end

/-- Diagnostics never mix up files: each is, with all its notes, about one file that was parsed in
the compilation, and lies at a token or a node of that file. -/
theorem diagnostics_lieIn_sources (loader : Loader) (includePaths : List String) (root : String)
    {compilation : Compilation} (hcompile : compile loader includePaths root = .ok compilation) :
    ∀ diagnostic ∈ compilation.diagnostics,
      ∃ source, loader.Parses includePaths root source ∧ diagnostic.LiesIn source := by
  obtain ⟨program?, diagnostics, hload, rfl⟩ := exists_ofLoaded_of_compile hcompile
  rw [loadProgram] at hload
  cases hroot : loadRoot loader includePaths root with
  | error failure =>
    rw [hroot] at hload
    cases hload
  | ok loaded =>
    obtain ⟨number?, state⟩ := loaded
    have hstate := Loading.comesFrom_loadRoot hroot
    rw [hroot] at hload
    obtain ⟨hprogram, rfl⟩ := Prod.mk.inj (Except.ok.inj hload)
    cases program? with
    | none => exact hstate.diagnostics
    | some program =>
      have htrees : program.trees = state.trees := by
        split at hprogram
        · cases hprogram
        · obtain ⟨number, -, rfl⟩ := Option.map_eq_some_iff.1 hprogram
          rfl
      have hcomes : ∀ tree ∈ program.trees, tree.ComesFrom (loader.Parses includePaths root) :=
        htrees ▸ hstate.trees
      exact List.forall_mem_append.2 ⟨hstate.diagnostics,
        program.liesIn_runPhases hcomes (Analysis.tailsMark_empty program) Phase.all⟩

/-- A file whose one diagnostic has a note. -/
def twins : Source := ⟨"e.thrift", "enum E \x7b A A \x7d"⟩

def twinFiles : MemoryFiles := .ofList [(twins.path, twins.text)]

def twinDocument : ParsedDocument where
  document :=
    { namespaces := []
      includes := []
      declarations := [.enum ⟨⟨"E", ⟨5, 6⟩⟩,
        [⟨⟨"A", ⟨9, 10⟩⟩, none, ⟨9, 10⟩⟩, ⟨⟨"A", ⟨11, 12⟩⟩, none, ⟨11, 12⟩⟩], ⟨0, 14⟩⟩]
      span := ⟨0, 14⟩ }
  nodes := 7

theorem parse_twins : twins.parse = .ok twinDocument := by
  decide +kernel

def twinTree : SourceTree := ⟨"e", twins, twinDocument.document, []⟩

theorem loadProgram_twinFiles :
    loadProgram twinFiles.loader [] "e.thrift" = .ok (some ⟨[twinTree], 0⟩, []) :=
  loadProgram_of_includes_eq_nil twins rfl rfl parse_twins rfl

theorem diagnostics_twinTree :
    (Program.analyze ⟨[twinTree], 0⟩).2 =
      [⟨.error, "e.thrift", ⟨11, 12⟩, ⟨1, 12⟩, .redeclared "A" "enum entry",
        [⟨.note, "e.thrift", ⟨9, 10⟩, ⟨1, 10⟩, .firstDeclared, []⟩]⟩] := by
  decide +kernel

theorem diagnostics_twinFiles :
    ∃ compilation, compile twinFiles.loader [] "e.thrift" = .ok compilation ∧
      compilation.diagnostics ≠ [] ∧
      ∀ diagnostic ∈ compilation.diagnostics,
        ∃ source, twinFiles.loader.Parses [] "e.thrift" source ∧ diagnostic.LiesIn source := by
  have hcompile := compile_of_loadProgram loadProgram_twinFiles
  refine ⟨_, hcompile, ?_, diagnostics_lieIn_sources _ _ _ hcompile⟩
  rw [Compilation.ofLoaded, diagnostics_twinTree]
  exact List.cons_ne_nil _ _

end Idl
