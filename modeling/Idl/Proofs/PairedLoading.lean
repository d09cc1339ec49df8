import Idl.Proofs.AgreeingReports
import Idl.Proofs.DiagnosticPlaces

/-!
# Loading files in pairs

Sets of files that have the same paths, and under each path the same text or texts whose documents
are related, are loaded in step: the trees come in the same order, refer to each other in the same
way and have related documents, and the same is reported, be it at other places.
-/
namespace Idl

/-- The file, the message and the messages of the notes of a diagnostic, wherever in the file they
are. -/
def Diagnostic.gist (diagnostic : Diagnostic) : String × Message × List Message :=
  (diagnostic.file, diagnostic.message, diagnostic.also.map (·.message))

theorem Source.gist_place (source : Source) (report : Report) :
    (source.place report).gist = (source.path, report.gist) := by
  obtain ⟨severity, span, message, also⟩ := report
  simp only [Source.place, Diagnostic.gist, Report.gist, placeAll_eq_map, List.map_map]
  congr 2
  exact List.map_congr_left fun note _ => by cases note; rfl

theorem Source.gists_diagnose {source : Source} {reports : List Report}
    (h : ∀ report ∈ reports, ∀ span ∈ report.spans, source.Marks span) :
    (source.diagnose reports).map Diagnostic.gist =
      reports.map fun report => (source.path, report.gist) := by
  rw [diagnose_eq_map fun report hreport span hspan => (h report hreport span hspan).locates,
    List.map_map]
  exact List.map_congr_left fun report _ => source.gist_place report

/-! ### Pairs -/

section

variable (rel : Document → Document → Prop)

/-- Texts of one file: the same text, or texts that parse to related documents. -/
def TextsPair (text text' : String) : Prop :=
  text = text' ∨ ∃ parsed parsed' : ParsedDocument, rel parsed.document parsed'.document ∧
    ∀ path, Source.parse ⟨path, text⟩ = .ok parsed ∧ Source.parse ⟨path, text'⟩ = .ok parsed'

/-- The same paths, with texts in pairs. -/
def MemoryFiles.Pairs (files files' : MemoryFiles) : Prop :=
  ∀ path, (∃ error, files.lookup path = .error error ∧ files'.lookup path = .error error) ∨
    ∃ text text', files.lookup path = .ok text ∧ files'.lookup path = .ok text' ∧
      TextsPair rel text text'

/-- Include edges of directives with the same path that lead to the same tree. -/
structure IncludeEdge.Pairs (edge edge' : IncludeEdge) : Prop where
  name : edge.name = edge'.name
  path : edge.directive.path.text = edge'.directive.path.text
  tree : edge.tree = edge'.tree

/-- Trees of one file with related documents. -/
structure SourceTree.Pairs (tree tree' : SourceTree) : Prop where
  package : tree.package = tree'.package
  path : tree.source.path = tree'.source.path
  document : rel tree.document tree'.document
  includes : List.Forall₂ IncludeEdge.Pairs tree.includes tree'.includes

structure Program.Pairs (program program' : Program) : Prop where
  trees : List.Forall₂ (SourceTree.Pairs rel) program.trees program'.trees
  root : program.root = program'.root

structure Loading.Pairs (state state' : Loading) : Prop where
  trees : List.Forall₂ (SourceTree.Pairs rel) state.trees state'.trees
  finished : state.finished = state'.finished
  gists : state.diagnostics.map Diagnostic.gist = state'.diagnostics.map Diagnostic.gist
  failed : state.failed = state'.failed

/-- Loading a file gave trees of the same number, or none. -/
structure LoadedPair (outcome outcome' : Option Nat × Loading) : Prop where
  tree : outcome.1 = outcome'.1
  state : outcome.2.Pairs rel outcome'.2

/-- A file that is parsed in both runs. -/
structure ParsedPair (source source' : Source) (parsed parsed' : ParsedDocument) : Prop where
  path : source.path = source'.path
  parsed : source.parse = .ok parsed
  parsed' : source'.parse = .ok parsed'

/-- Include directives of documents with the same path. -/
structure IncludeDirective.Pairs (document document' : Document)
    (directive directive' : IncludeDirective) : Prop where
  mem : directive ∈ document.includes
  mem' : directive' ∈ document'.includes
  path : directive.path.text = directive'.path.text

/-- What has been found at include directives of documents, in step. -/
structure IncludeProgress.Pairs (document document' : Document)
    (progress progress' : IncludeProgress) : Prop where
  edges : List.Forall₂ IncludeEdge.Pairs progress.edges progress'.edges
  complete : progress.complete = progress'.complete
  state : progress.state.Pairs rel progress'.state
  directives : ∀ edge ∈ progress.edges, edge.directive ∈ document.includes
  directives' : ∀ edge ∈ progress'.edges, edge.directive ∈ document'.includes

end

variable {rel : Document → Document → Prop} {files files' : MemoryFiles}

theorem MemoryFiles.Pairs.imp {rel' : Document → Document → Prop} (h : files.Pairs rel files')
    (himp : ∀ document document', rel document document' → rel' document document') :
    files.Pairs rel' files' := by
  intro path
  refine (h path).imp_right fun ⟨text, text', htext, htext', htexts⟩ =>
    ⟨text, text', htext, htext', htexts.imp_right ?_⟩
  rintro ⟨parsed, parsed', hdocuments, hparsed⟩
  exact ⟨parsed, parsed', himp _ _ hdocuments, hparsed⟩

theorem MemoryFiles.lookup_ofList_singleton (path text other : String) :
    (MemoryFiles.ofList [(path, text)]).lookup other =
      if other = FilePath.normalize path then .ok text else .error .entityNotFound := by
  simp only [ofList, insert, empty, lookup, List.foldl_cons, List.foldl_nil, List.lookup_cons,
    List.lookup_nil]
  by_cases hother : other = FilePath.normalize path
  · rw [if_pos hother, beq_iff_eq.2 hother]
  · rw [if_neg hother, beq_false_of_ne hother]

theorem MemoryFiles.pairs_ofList_singleton (path : String) {text text' : String}
    (h : TextsPair rel text text') :
    (MemoryFiles.ofList [(path, text)]).Pairs rel (.ofList [(path, text')]) := by
  intro other
  rw [lookup_ofList_singleton, lookup_ofList_singleton]
  split
  · exact .inr ⟨text, text', rfl, rfl, h⟩
  · exact .inl ⟨.entityNotFound, rfl, rfl⟩

namespace Loading.Pairs

variable {state state' : Loading}

theorem empty : Loading.empty.Pairs rel Loading.empty :=
  ⟨.nil, rfl, rfl, rfl⟩

theorem report (h : state.Pairs rel state') {source source' : Source}
    {reports reports' : List Report}
    (hgists : (source.diagnose reports).map Diagnostic.gist =
      (source'.diagnose reports').map Diagnostic.gist) :
    (state.report source reports).Pairs rel (state'.report source' reports') :=
  ⟨h.trees, h.finished, by simp only [Loading.report, List.map_append, h.gists, hgists], h.failed⟩

/-- Reports with places are not lost. -/
theorem reportOne (h : state.Pairs rel state') {source source' : Source}
    (hpath : source.path = source'.path) {report report' : Report}
    (hgist : report.gist = report'.gist) (hmarks : ∀ span ∈ report.spans, source.Marks span)
    (hmarks' : ∀ span ∈ report'.spans, source'.Marks span) :
    (state.report source [report]).Pairs rel (state'.report source' [report']) := by
  apply h.report
  rw [Source.gists_diagnose (List.forall_mem_singleton.2 hmarks),
    Source.gists_diagnose (List.forall_mem_singleton.2 hmarks'), List.map_singleton,
    List.map_singleton, hpath, hgist]

theorem fail (h : state.Pairs rel state') (canonical : String) :
    LoadedPair rel (none, state.fail canonical) (none, state'.fail canonical) :=
  ⟨rfl, h.trees, by simp only [Loading.fail, h.finished], h.gists, rfl⟩

theorem finish (h : state.Pairs rel state') (canonical : String) {tree tree' : SourceTree}
    (htree : tree.Pairs rel tree') :
    LoadedPair rel (state.finish canonical tree) (state'.finish canonical tree') := by
  have hlength := h.trees.length_eq
  refine ⟨congrArg some hlength, List.rel_append h.trees (.cons htree .nil), ?_, h.gists, h.failed⟩
  simp only [Loading.finish, h.finished, hlength]

end Loading.Pairs

theorem find?_of_pairs {edges edges' : List IncludeEdge}
    (h : List.Forall₂ IncludeEdge.Pairs edges edges') (name : String) :
    Option.Rel IncludeEdge.Pairs (edges.find? (·.name == name))
      (edges'.find? (·.name == name)) := by
  induction h with
  | nil => exact .none
  | @cons edge edge' _ _ head _ ih =>
    rw [List.find?_cons, List.find?_cons, head.name]
    cases edge'.name == name with
    | true => exact .some head
    | false => exact ih

namespace IncludeProgress.Pairs

variable {document document' : Document} {progress progress' : IncludeProgress}

theorem start {state state' : Loading} (h : state.Pairs rel state') :
    IncludeProgress.Pairs rel document document' ⟨[], true, state⟩ ⟨[], true, state'⟩ :=
  ⟨.nil, rfl, h, fun _ hmem => absurd hmem List.not_mem_nil,
    fun _ hmem => absurd hmem List.not_mem_nil⟩

theorem settle (h : progress.Pairs rel document document' progress') (name : String)
    {directive directive' : IncludeDirective}
    (hdirective : directive.Pairs document document' directive')
    {outcome outcome' : Option Nat × Loading} (houtcome : LoadedPair rel outcome outcome') :
    (progress.settle name directive outcome).Pairs rel document document'
      (progress'.settle name directive' outcome') := by
  obtain ⟨tree, state⟩ := outcome
  obtain ⟨tree', state'⟩ := outcome'
  obtain ⟨htree, hstate⟩ := houtcome
  obtain rfl : tree = tree' := htree
  cases tree with
  | none => exact ⟨h.edges, rfl, hstate, h.directives, h.directives'⟩
  | some tree =>
    refine ⟨List.rel_append h.edges (.cons ⟨rfl, hdirective.path, rfl⟩ .nil), h.complete, hstate,
      ?_, ?_⟩
    · exact List.forall_mem_append.2 ⟨h.directives, List.forall_mem_singleton.2 hdirective.mem⟩
    · exact List.forall_mem_append.2 ⟨h.directives', List.forall_mem_singleton.2 hdirective.mem'⟩

/-- A package name is taken in both runs or in none. -/
theorem find? (h : progress.Pairs rel document document' progress') (name : String) :
    Option.Rel (fun first first' : IncludeEdge =>
        first.directive ∈ document.includes ∧ first'.directive ∈ document'.includes)
      (progress.edges.find? (·.name == name)) (progress'.edges.find? (·.name == name)) := by
  refine optionRel_imp_mem (find?_of_pairs h.edges name) fun first hfirst first' hfirst' _ => ?_
  exact ⟨h.directives first (List.mem_of_find?_eq_some hfirst),
    h.directives' first' (List.mem_of_find?_eq_some hfirst')⟩

end IncludeProgress.Pairs

/-! ### Finding files -/

theorem Loader.find_congr {loader loader' : Loader}
    (h : loader.canonicalize = loader'.canonicalize) (candidates : List String) :
    loader.find candidates = loader'.find candidates := by
  induction candidates with
  | nil => rfl
  | cons candidate candidates ih => rw [Loader.find, Loader.find, h, ih]

theorem MemoryFiles.Pairs.canonicalize_eq (h : files.Pairs rel files') :
    files.canonicalize = files'.canonicalize := by
  funext path
  unfold MemoryFiles.canonicalize MemoryFiles.read
  rcases h (FilePath.normalize path) with ⟨error, herror, herror'⟩ | ⟨text, text', htext, htext', -⟩
  · rw [herror, herror']
  · rw [htext, htext']
    rfl

/-- What is made of the text of a file is related, if it is so for texts in pairs. -/
theorem MemoryFiles.Pairs.read (h : files.Pairs rel files') (canonical : String) {α β : Type}
    {r : α → β → Prop} {error : FileError → α} {error' : FileError → β}
    {ok : (text : String) → files.loader.read canonical = .ok text → α}
    {ok' : (text : String) → files'.loader.read canonical = .ok text → β}
    (herror : ∀ cause, r (error cause) (error' cause))
    (hok : ∀ text text' htext htext', TextsPair rel text text' →
      r (ok text htext) (ok' text' htext')) :
    r (match htext : files.loader.read canonical with
        | .error cause => error cause
        | .ok text => ok text htext)
      (match htext : files'.loader.read canonical with
        | .error cause => error' cause
        | .ok text => ok' text htext) := by
  rcases h canonical with ⟨cause, hcause, hcause'⟩ | ⟨text, text', htext, htext', htexts⟩
  · split
    · next other hother =>
      obtain rfl := Except.error.inj (hcause.symm.trans hother)
      split
      · next other' hother' =>
        obtain rfl := Except.error.inj (hcause'.symm.trans hother')
        exact herror cause
      · next hother' => cases hcause'.symm.trans hother'
    · next hother => cases hcause.symm.trans hother
  · split
    · next hother => cases htext.symm.trans hother
    · next other hother =>
      obtain rfl := Except.ok.inj (htext.symm.trans hother)
      split
      · next hother' => cases htext'.symm.trans hother'
      · next other' hother' =>
        obtain rfl := Except.ok.inj (htext'.symm.trans hother')
        exact hok text text' hother hother' htexts

/-- What becomes of include directives in step. -/
inductive OutcomesPair (rel : Document → Document → Prop) (directive directive' : IncludeDirective)
    {loader loader' : Loader} {active : List String} :
    IncludeOutcome loader active → IncludeOutcome loader' active → Prop
  | refused {message} : OutcomesPair rel directive directive'
      (.refused (.error directive.path.span message))
      (.refused (.error directive'.path.span message))
  | finished {tree} : OutcomesPair rel directive directive' (.finished tree) (.finished tree)
  | fresh {path canonical text text' is_file is_new is_file' is_new'}
      (texts : TextsPair rel text text') :
      OutcomesPair rel directive directive' (.fresh ⟨path, canonical, text⟩ is_file is_new)
        (.fresh ⟨path, canonical, text'⟩ is_file' is_new')

theorem outcomesPair_resolveInclude (hfiles : files.Pairs rel files')
    (includePaths active : List String) (finished : List (String × Option Nat))
    {source source' : Source} (hsource : source.path = source'.path)
    {directive directive' : IncludeDirective}
    (hpath : directive.path.text = directive'.path.text) :
    OutcomesPair rel directive directive'
      (resolveInclude files.loader includePaths active finished source directive)
      (resolveInclude files'.loader includePaths active finished source' directive') := by
  have hcandidates : includeCandidates includePaths source.path directive =
      includeCandidates includePaths source'.path directive' := by
    rw [includeCandidates, includeCandidates, hsource, hpath]
  have hfind : files.loader.find (includeCandidates includePaths source.path directive) =
      files'.loader.find (includeCandidates includePaths source'.path directive') := by
    rw [hcandidates]
    exact Loader.find_congr hfiles.canonicalize_eq _
  unfold resolveInclude
  simp only [hfind, hpath]
  cases files'.loader.find (includeCandidates includePaths source'.path directive') with
  | error error => exact .refused
  | ok found =>
    obtain ⟨path, canonical⟩ := found
    simp only
    by_cases hactive : canonical ∈ active
    · rw [dif_pos hactive, dif_pos hactive]
      exact .refused
    · rw [dif_neg hactive, dif_neg hactive]
      cases finished.lookup canonical with
      | some tree => exact .finished
      | none =>
        exact hfiles.read canonical (r := OutcomesPair rel directive directive')
          (fun _ => .refused) fun _ _ _ _ => .fresh

/-! ### Loading -/

section

variable {includePaths active : List String}

theorem IncludeProgress.Pairs.followInclude (hfiles : files.Pairs rel files')
    {source source' : Source} {parsed parsed' : ParsedDocument}
    (hparsed : ParsedPair source source' parsed parsed')
    {load : (file : FoundFile) → file.canonical ∈ files.loader.paths → file.canonical ∉ active →
      Loading → Option Nat × Loading}
    {load' : (file : FoundFile) → file.canonical ∈ files'.loader.paths → file.canonical ∉ active →
      Loading → Option Nat × Loading}
    {progress progress' : IncludeProgress}
    (h : progress.Pairs rel parsed.document parsed'.document progress')
    {directive directive' : IncludeDirective}
    (hdirective : directive.Pairs parsed.document parsed'.document directive')
    (hload : ∀ path canonical text text' is_file is_new is_file' is_new',
      TextsPair rel text text' →
        LoadedPair rel (load ⟨path, canonical, text⟩ is_file is_new progress.state)
          (load' ⟨path, canonical, text'⟩ is_file' is_new' progress'.state)) :
    (Idl.followInclude files.loader includePaths active source load progress directive).Pairs rel
      parsed.document parsed'.document
      (Idl.followInclude files'.loader includePaths active source' load' progress' directive') := by
  unfold Idl.followInclude
  simp only [← hdirective.path]
  apply h.settle _ hdirective
  have hfirst := h.find? (packageName (includedFile directive.path.text))
  generalize progress.edges.find? _ = first? at hfirst ⊢
  generalize progress'.edges.find? _ = first?' at hfirst ⊢
  cases hfirst with
  | some hmem =>
    exact ⟨rfl, h.state.reportOne hparsed.path rfl
      (Source.marks_redeclaredInclude hparsed.parsed hdirective.mem hmem.1 _)
      (Source.marks_redeclaredInclude hparsed.parsed' hdirective.mem' hmem.2 _)⟩
  | none =>
    have houtcome := outcomesPair_resolveInclude hfiles includePaths active
      progress.state.finished hparsed.path hdirective.path
    rw [← h.state.finished]
    generalize resolveInclude files.loader _ _ _ source directive = outcome at houtcome ⊢
    generalize resolveInclude files'.loader _ _ _ source' directive' = outcome' at houtcome ⊢
    cases houtcome with
    | refused =>
      have hmarks := List.forall_mem_singleton.2 (Source.marks_path hparsed.parsed hdirective.mem)
      have hmarks' :=
        List.forall_mem_singleton.2 (Source.marks_path hparsed.parsed' hdirective.mem')
      exact ⟨rfl, h.state.reportOne hparsed.path rfl hmarks hmarks'⟩
    | finished => exact ⟨rfl, h.state⟩
    | fresh texts => exact hload _ _ _ _ _ _ _ _ texts

/-- Relations between documents that keep the paths of include directives. -/
def KeepsIncludes (rel : Document → Document → Prop) : Prop :=
  ∀ document document', rel document document' →
    List.Forall₂ (fun directive directive' : IncludeDirective =>
      directive.path.text = directive'.path.text) document.includes document'.includes

/-- Texts in pairs both parse, to related documents, or are the same and do not parse. -/
theorem TextsPair.parse (hrefl : ∀ document, rel document document) {text text' : String}
    (h : TextsPair rel text text') (path : String) :
    (text = text' ∧ ∃ failure, Source.parse ⟨path, text⟩ = .error failure) ∨
      ∃ parsed parsed' : ParsedDocument, rel parsed.document parsed'.document ∧
        ParsedPair ⟨path, text⟩ ⟨path, text'⟩ parsed parsed' := by
  rcases h with rfl | ⟨parsed, parsed', hdocuments, hparsed⟩
  · cases hparsed : Source.parse ⟨path, text⟩ with
    | error failure => exact .inl ⟨rfl, failure, rfl⟩
    | ok parsed => exact .inr ⟨parsed, parsed, hrefl _, rfl, hparsed, hparsed⟩
  · exact .inr ⟨parsed, parsed', hdocuments, rfl, (hparsed path).1, (hparsed path).2⟩

theorem Loading.Pairs.loadFile (includePaths : List String) (path : String)
    (hrel : KeepsIncludes rel) (hrefl : ∀ document, rel document document)
    (hfiles : files.Pairs rel files') {canonical text text' : String}
    (htexts : TextsPair rel text text') (is_file : canonical ∈ files.loader.paths)
    (is_new : canonical ∉ active) (is_file' : canonical ∈ files'.loader.paths)
    (is_new' : canonical ∉ active) {state state' : Loading} (h : state.Pairs rel state') :
    LoadedPair rel
      (Idl.loadFile files.loader includePaths active ⟨path, canonical, text⟩ is_file is_new state)
      (Idl.loadFile files'.loader includePaths active ⟨path, canonical, text'⟩ is_file' is_new'
        state') := by
  induction hsize : idleFiles files.loader active using Nat.strong_induction_on
    generalizing active path canonical text text' state state' with
  | h size ih =>
    rcases htexts.parse hrefl path with
      ⟨rfl, failure, hfailure⟩ | ⟨parsed, parsed', hdocuments, hparsed⟩
    · rw [Idl.loadFile, Idl.loadFile]
      simp only [hfailure]
      have hsame := Eq.refl ((Source.diagnose ⟨path, text⟩ failure.reports).map Diagnostic.gist)
      exact (h.report hsame).fail canonical
    · rw [@loadFile_of_parse_eq_ok _ _ _ ⟨path, canonical, text⟩ is_file is_new state _
          hparsed.parsed,
        @loadFile_of_parse_eq_ok _ _ _ ⟨path, canonical, text'⟩ is_file' is_new' state' _
          hparsed.parsed']
      have hdirectives : List.Forall₂ (IncludeDirective.Pairs parsed.document parsed'.document)
          parsed.document.includes parsed'.document.includes :=
        forall₂_imp_mem (hrel _ _ hdocuments) fun _ hmem _ hmem' hpath => ⟨hmem, hmem', hpath⟩
      -- the directives correspond in order, so both files go through theirs in step
      have hprogress : (followIncludes files.loader includePaths (canonical :: active) ⟨path, text⟩
          state parsed.document.includes).Pairs rel parsed.document parsed'.document
          (followIncludes files'.loader includePaths (canonical :: active) ⟨path, text'⟩ state'
            parsed'.document.includes) := by
        refine List.rel_foldl ?_ (.start h) hdirectives
        intro progress progress' hprogress directive directive' hdirective
        exact hprogress.followInclude hfiles hparsed hdirective
          fun _ _ _ _ is_file' is_new' is_file'' is_new'' htexts =>
            ih _ (hsize ▸ idleFiles_cons_lt is_file is_new) _ htexts is_file' is_new' is_file''
              is_new'' hprogress.state rfl
      simp only [hprogress.complete]
      split
      · exact hprogress.state.finish canonical ⟨rfl, rfl, hdocuments, hprogress.edges⟩
      · exact hprogress.state.fail canonical

/-- Loading a root fails for the same reason, or gives the same number. -/
inductive RootsPair (rel : Document → Document → Prop) :
    Except ReadFailure (Option Nat × Loading) → Except ReadFailure (Option Nat × Loading) → Prop
  | error {failure} : RootsPair rel (.error failure) (.error failure)
  | ok {outcome outcome'} (loaded : LoadedPair rel outcome outcome') :
      RootsPair rel (.ok outcome) (.ok outcome')

theorem rootsPair_loadRoot (includePaths : List String) (hrel : KeepsIncludes rel)
    (hrefl : ∀ document, rel document document) (hfiles : files.Pairs rel files')
    (root : String) :
    RootsPair rel (loadRoot files.loader includePaths root)
      (loadRoot files'.loader includePaths root) := by
  have hcanonicalize : files.loader.canonicalize root = files'.loader.canonicalize root :=
    congrFun hfiles.canonicalize_eq root
  unfold loadRoot
  rw [hcanonicalize]
  cases files'.loader.canonicalize root with
  | error cause => exact .error
  | ok canonical =>
    exact hfiles.read canonical (r := RootsPair rel) (fun _ => .error)
      fun _ _ hread hread' htexts => .ok <|
        Loading.Pairs.empty.loadFile includePaths root hrel hrefl hfiles htexts
          (files.loader.mem_paths hread) List.not_mem_nil
          (files'.loader.mem_paths hread') List.not_mem_nil

/-- Files in pairs are loaded in step. -/
theorem loadProgram_pairs (includePaths : List String) (hrel : KeepsIncludes rel)
    (hrefl : ∀ document, rel document document) (hfiles : files.Pairs rel files')
    (root : String) :
    (∃ failure, loadProgram files.loader includePaths root = .error failure ∧
        loadProgram files'.loader includePaths root = .error failure) ∨
      ∃ program? program?' diagnostics diagnostics',
        loadProgram files.loader includePaths root = .ok (program?, diagnostics) ∧
        loadProgram files'.loader includePaths root = .ok (program?', diagnostics') ∧
        Option.Rel (Program.Pairs rel) program? program?' ∧
        diagnostics.map Diagnostic.gist = diagnostics'.map Diagnostic.gist := by
  have hroots := rootsPair_loadRoot includePaths hrel hrefl hfiles root
  unfold loadProgram
  generalize loadRoot files.loader includePaths root = loaded at hroots ⊢
  generalize loadRoot files'.loader includePaths root = loaded' at hroots ⊢
  cases hroots with
  | error => exact .inl ⟨_, rfl, rfl⟩
  | @ok outcome outcome' hloaded =>
    obtain ⟨number?, state⟩ := outcome
    obtain ⟨number?', state'⟩ := outcome'
    obtain ⟨hnumber, hstate⟩ := hloaded
    obtain rfl : number? = number?' := hnumber
    refine .inr ⟨_, _, state.diagnostics, state'.diagnostics, rfl, rfl, ?_, hstate.gists⟩
    rw [hstate.failed]
    split
    · exact .none
    · cases number? with
      | none => exact .none
      | some number => exact .some ⟨hstate.trees, rfl⟩

end

end Idl
