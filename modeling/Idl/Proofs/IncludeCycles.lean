import Idl.Proofs.LoadTrace
import Idl.Proofs.Trails

/-!
# Include cycles

A directive that leads to a file that is being loaded closes a cycle, as that file is on the way to
the directive. All other directives lead to files that are done. From a file that is done every way
ends that passes no reported directive, since such a way leads only to files that were done before.
So no cycle is missed, whether or not the files on it have failed.
-/
namespace Idl

open FilePath

/-! ### The include graph -/

namespace MemoryFiles

section

variable (files : MemoryFiles) (includePaths : List String) (root : String)

/-- The paths by which files are opened: that of the root, and those to which the include directives
of opened files lead. The root is not opened by another path. -/
inductive Opens : String → Prop
  | root : Opens root
  | next {path next} (opened : Opens path) (includes : files.Includes includePaths path next)
      (other : normalize next ≠ normalize root) : Opens next

/-- A directive of an opened file leads from it to another. Files are told by their normal paths,
and a directive is told by its file and itself. -/
inductive IncludeStep : String → String × IncludeDirective → String → Prop
  | mk {path document directive next} (opened : files.Opens includePaths root path)
      (document_eq : files.document? path = some document)
      (written : directive ∈ document.includes)
      (target_eq : files.target? includePaths path directive = some next) :
      IncludeStep (normalize path) (normalize path, directive) (normalize next)

/-- The directive leads to its own file or to one that leads back to it. -/
def Closes (file : String) (directive : IncludeDirective) : Prop :=
  ∃ other marks, files.IncludeStep includePaths root file (file, directive) other ∧
    Trail (files.IncludeStep includePaths root) other marks file

/-- All files that are opened can be parsed and have their includes in order. -/
structure IsOrderly : Prop where
  parses : ∀ path, files.Opens includePaths root path →
    ∃ document, files.document? path = some document
  resolves : ∀ path document, files.Opens includePaths root path →
    files.document? path = some document → ∀ directive ∈ document.includes,
      ∃ next, files.target? includePaths path directive = some next
  distinct : ∀ path document, files.Opens includePaths root path →
    files.document? path = some document →
      (document.includes.map IncludeDirective.package).Nodup

end

variable {files : MemoryFiles} {includePaths : List String} {root path other : String}

theorem Opens.eq_root_or (h : files.Opens includePaths root path) :
    path = root ∨ normalize path ≠ normalize root ∧ ∃ name, fileName? path = some name := by
  cases h with
  | root => exact .inl rfl
  | next _ includes other =>
    obtain ⟨_, -, _, -, htarget⟩ := includes
    exact .inr ⟨other, exists_fileName?_of_target? htarget⟩

/-- A file is opened by spellings of one path. -/
theorem Opens.respells (h : files.Opens includePaths root path)
    (h' : files.Opens includePaths root other) (heq : normalize path = normalize other) :
    Respells path other := by
  rcases h.eq_root_or with rfl | ⟨hne, first, hfirst⟩
  · rcases h'.eq_root_or with rfl | ⟨hne, -⟩
    · exact .refl _
    · exact absurd heq.symm hne
  · rcases h'.eq_root_or with rfl | ⟨-, second, hsecond⟩
    · exact absurd heq hne
    · exact .inr ⟨first, second, hfirst, hsecond, heq⟩

theorem Opens.reaches (h : files.Opens includePaths root path) :
    files.Reaches includePaths root path := by
  induction h with
  | root => exact .refl
  | next _ includes _ ih => exact ih.tail includes

/-- If the path of the root ends in a name, all files that it reaches are opened. -/
theorem exists_opens_of_reaches {name : String} (hname : fileName? root = some name)
    (h : files.Reaches includePaths root path) :
    ∃ opened, files.Opens includePaths root opened ∧ normalize opened = normalize path := by
  have hnamed : ∀ {path}, files.Reaches includePaths root path →
      ∃ name, fileName? path = some name := fun hpath =>
    (exists_fileName?_of_reaches hpath).elim (fun heq => ⟨name, heq ▸ hname⟩) id
  induction h with
  | refl => exact ⟨root, .root, rfl⟩
  | @tail path next hpath hstep ih =>
    obtain ⟨opened, hopened, hsame⟩ := ih
    obtain ⟨document, hdocument, directive, hwritten, hnext⟩ := hstep
    obtain ⟨first, hfirst⟩ := hnamed hopened.reaches
    obtain ⟨second, hsecond⟩ := hnamed hpath
    have hrespells : Respells path opened := .inr ⟨second, first, hsecond, hfirst, hsame.symm⟩
    obtain ⟨found, hfound, heq⟩ := exists_target?_of_respells hrespells hnext
    by_cases hroot : normalize found = normalize root
    · exact ⟨root, .root, hroot.symm.trans heq⟩
    · rw [← document?_congr hsame] at hdocument
      exact ⟨found, .next hopened ⟨document, hdocument, directive, hwritten, hfound⟩ hroot, heq⟩

/-- The steps from a file are told by any path by which it is opened. -/
theorem IncludeStep.exists_target? {mark : String × IncludeDirective}
    (h : files.IncludeStep includePaths root (normalize path) mark other)
    (hpath : files.Opens includePaths root path) {document : Document}
    (hdocument : files.document? path = some document) :
    mark.1 = normalize path ∧ mark.2 ∈ document.includes ∧
      ∃ next, files.target? includePaths path mark.2 = some next ∧ normalize next = other := by
  generalize hfile : normalize path = file at h
  obtain ⟨opened, document_eq, written, target_eq⟩ := h
  rw [← document?_congr hfile, hdocument] at document_eq
  obtain rfl := Option.some.inj document_eq
  exact ⟨rfl, written, exists_target?_of_respells (opened.respells hpath hfile.symm) target_eq⟩

end MemoryFiles

/-! ### Reported cycles -/

/-- What is reported about a directive that closes a cycle. -/
def cycleReport (directive : IncludeDirective) : Report :=
  .error directive.path.span (.includeCycle directive.path.text)

/-- The diagnostic says that a directive of a file closes a cycle. -/
structure Diagnostic.TellsCycle (diagnostic : Diagnostic) (file : String)
    (directive : IncludeDirective) : Prop where
  severity : diagnostic.severity = .error
  file : normalize diagnostic.file = file
  span : diagnostic.span = directive.path.span
  message : diagnostic.message = .includeCycle directive.path.text
  also : diagnostic.also = []

/-- A directive of a file is told to close a cycle. -/
def IsTold (diagnostics : List Diagnostic) (mark : String × IncludeDirective) : Prop :=
  ∃ diagnostic ∈ diagnostics, diagnostic.TellsCycle mark.1 mark.2

theorem IsTold.mono {diagnostics more : List Diagnostic} {mark : String × IncludeDirective}
    (h : IsTold diagnostics mark) (hmore : diagnostics ⊆ more) : IsTold more mark := by
  obtain ⟨diagnostic, hmem, htells⟩ := h
  exact ⟨diagnostic, hmore hmem, htells⟩

theorem Source.tellsCycle_place (source : Source) (directive : IncludeDirective) :
    (source.place (cycleReport directive)).TellsCycle (normalize source.path) directive := by
  rw [cycleReport, Report.error, place, placeAll]
  exact ⟨rfl, rfl, rfl, rfl, rfl⟩

theorem Source.diagnose_cycleReport {source : Source} {parsed : ParsedDocument}
    (hparsed : source.parse = .ok parsed) {directive : IncludeDirective}
    (hdirective : directive ∈ parsed.document.includes) :
    source.diagnose [cycleReport directive] = [source.place (cycleReport directive)] := by
  refine diagnose_eq_map fun report hreport span hspan => ?_
  obtain rfl := List.mem_singleton.1 hreport
  rw [cycleReport, Report.spans_error, List.mem_singleton] at hspan
  rw [hspan]
  exact locates_include hparsed hdirective

/-! ### What is known at a time -/

section

variable (files : MemoryFiles) (includePaths : List String) (root : String)

/-- A step by a directive that is not told to close a cycle. -/
def MemoryFiles.UntoldStep (diagnostics : List Diagnostic) (other file : String) : Prop :=
  ∃ mark, files.IncludeStep includePaths root file mark other ∧ ¬ IsTold diagnostics mark

namespace Loading

/-- What holds of the files and problems found while some files are being loaded. -/
structure Explored (active : List String) (state : Loading) : Prop where
  closes : ∀ diagnostic ∈ state.diagnostics, ∃ file directive,
    diagnostic.TellsCycle file directive ∧ files.Closes includePaths root file directive
  met : ∀ file ∈ state.done, ∀ mark other, files.IncludeStep includePaths root file mark other →
    other ∈ active ∨ other ∈ state.done
  ends : ∀ file ∈ state.done, Acc (files.UntoldStep includePaths root state.diagnostics) file

/-- Files that are done stay so, and so do diagnostics. -/
structure Grows (start state : Loading) : Prop where
  done : start.done ⊆ state.done
  diagnostics : start.diagnostics ⊆ state.diagnostics

/-- What holds when the loading has led to the file with a canonical path. -/
structure ComesTo (active : List String) (canonical : String) (start state : Loading) : Prop where
  explored : state.Explored files includePaths root active
  grown : start.Grows state
  done : canonical ∈ state.done

/-- A file that is opened. The files that are being loaded, with the root among them, are on the way
to it. -/
structure OnWay (active : List String) (file : FoundFile) : Prop where
  canonical : file.canonical = normalize file.path
  read : files.read file.path = .ok file.text
  opened : files.Opens includePaths root file.path
  rooted : normalize root ∈ file.canonical :: active
  way : ∀ other ∈ active, ∃ marks,
    Trail (files.IncludeStep includePaths root) other marks file.canonical

end Loading

/-- What holds after some of the include directives of a file: those have led to files that are
done, or are told to close cycles. -/
structure IncludeProgress.Follows (active : List String) (path : String) (start : Loading)
    (done : List IncludeDirective) (progress : IncludeProgress) : Prop where
  explored : progress.state.Explored files includePaths root active
  grown : start.Grows progress.state
  named : ∀ edge ∈ progress.edges, edge.name ∈ done.map IncludeDirective.package
  followed : ∀ directive ∈ done, ∀ next, files.target? includePaths path directive = some next →
    normalize next ∈ progress.state.done ∨
      normalize next ∈ active ∧ IsTold progress.state.diagnostics (normalize path, directive)

end

section

variable {files : MemoryFiles} {includePaths : List String} {root : String}
variable {active : List String} {start state : Loading}

namespace Loading

theorem Grows.refl (state : Loading) : Grows state state :=
  ⟨List.Subset.refl _, List.Subset.refl _⟩

theorem Grows.trans {middle : Loading} (h : Grows start middle) (h' : Grows middle state) :
    Grows start state :=
  ⟨List.Subset.trans h.done h'.done, List.Subset.trans h.diagnostics h'.diagnostics⟩

theorem Grows.report (state : Loading) (source : Source) (reports : List Report) :
    Grows state (state.report source reports) :=
  ⟨List.Subset.refl _, List.subset_append_left _ _⟩

theorem explored_empty : empty.Explored files includePaths root active where
  closes _ hmem := absurd hmem List.not_mem_nil
  met _ hmem := absurd hmem List.not_mem_nil
  ends _ hmem := absurd hmem List.not_mem_nil

/-- More files are being loaded. -/
theorem Explored.mono {more : List String} (h : state.Explored files includePaths root active)
    (hmore : active ⊆ more) : state.Explored files includePaths root more where
  closes := h.closes
  met file hfile mark other hstep := (h.met file hfile mark other hstep).imp_left (hmore ·)
  ends := h.ends

theorem Explored.report (h : state.Explored files includePaths root active) {source : Source}
    {parsed : ParsedDocument} (hparsed : source.parse = .ok parsed) {directive : IncludeDirective}
    (hdirective : directive ∈ parsed.document.includes)
    (hcloses : files.Closes includePaths root (normalize source.path) directive) :
    (state.report source [cycleReport directive]).Explored files includePaths root active where
  closes diagnostic hdiagnostic := by
    rw [Loading.report, Source.diagnose_cycleReport hparsed hdirective] at hdiagnostic
    rcases List.mem_append.1 hdiagnostic with hdiagnostic | hdiagnostic
    · exact h.closes diagnostic hdiagnostic
    · obtain rfl := List.mem_singleton.1 hdiagnostic
      exact ⟨_, directive, source.tellsCycle_place directive, hcloses⟩
  met := h.met
  ends file hfile := by
    refine Subrelation.accessible ?_ (h.ends file hfile)
    rintro other file ⟨mark, hstep, huntold⟩
    exact ⟨mark, hstep, fun htold => huntold (htold.mono (List.subset_append_left _ _))⟩

/-- A file is done when its directives have led to files that are done or are told to close
cycles. -/
theorem Explored.done {canonical : String} {outcome : Loading}
    (h : state.Explored files includePaths root (canonical :: active))
    (hdone : outcome.done = canonical :: state.done)
    (hdiagnostics : outcome.diagnostics = state.diagnostics)
    (hsteps : ∀ mark other, files.IncludeStep includePaths root canonical mark other →
      other ∈ state.done ∨ other ∈ canonical :: active ∧ IsTold state.diagnostics mark) :
    outcome.Explored files includePaths root active where
  closes := by
    rw [hdiagnostics]
    exact h.closes
  met file hfile mark other hstep := by
    rw [hdone] at hfile ⊢
    have hmet : other ∈ canonical :: active ∨ other ∈ state.done := by
      rcases List.mem_cons.1 hfile with rfl | hfile
      · exact (hsteps mark other hstep).elim .inr fun hactive => .inl hactive.1
      · exact h.met file hfile mark other hstep
    rcases hmet with hactive | hother
    · rcases List.mem_cons.1 hactive with rfl | hactive
      · exact .inr List.mem_cons_self
      · exact .inl hactive
    · exact .inr (List.mem_cons_of_mem _ hother)
  ends file hfile := by
    rw [hdone] at hfile
    rw [hdiagnostics]
    rcases List.mem_cons.1 hfile with rfl | hfile
    · -- a step that is not told leads to a file that was done before
      refine .intro _ fun other huntold => ?_
      obtain ⟨mark, hstep, huntold⟩ := huntold
      rcases hsteps mark other hstep with hother | ⟨-, htold⟩
      · exact h.ends other hother
      · exact absurd htold huntold
    · exact h.ends file hfile

end Loading

/-! ### Directives -/

/-- What becomes of a directive that leads to a file in memory. -/
theorem MemoryFiles.resolveInclude_cases {path next : String} {directive : IncludeDirective}
    (hnext : files.target? includePaths path directive = some next) (active : List String)
    (finished : List (String × Option Nat)) (text : String) :
    normalize next ∈ active ∧
      resolveInclude files.loader includePaths active finished ⟨path, text⟩ directive =
        .refused (cycleReport directive) ∨
    normalize next ∉ active ∧ (∃ tree, finished.lookup (normalize next) = some tree ∧
      resolveInclude files.loader includePaths active finished ⟨path, text⟩ directive =
        .finished tree) ∨
    ∃ (contents : String) (is_file : normalize next ∈ files.loader.paths)
      (is_new : normalize next ∉ active), files.read next = .ok contents ∧
      resolveInclude files.loader includePaths active finished ⟨path, text⟩ directive =
        .fresh ⟨next, normalize next, contents⟩ is_file is_new := by
  have hfind := files.find_includeCandidates includePaths path directive
  cases hfound : files.loader.find (includeCandidates includePaths path directive) with
  | error error =>
    rw [hfound] at hfind
    cases hnext.symm.trans hfind
  | ok found =>
    obtain ⟨other, canonical⟩ := found
    rw [hfound] at hfind
    obtain ⟨hother, rfl⟩ := hfind
    obtain rfl := Option.some.inj (hnext.symm.trans hother)
    by_cases hactive : normalize next ∈ active
    · exact .inl ⟨hactive, resolveInclude_eq_cycle hfound hactive⟩
    · refine .inr ?_
      cases hlookup : finished.lookup (normalize next) with
      | some tree =>
        exact .inl ⟨hactive, tree, rfl, resolveInclude_eq_finished hfound hactive hlookup⟩
      | none =>
        obtain ⟨contents, hread⟩ := exists_read_of_target? hnext
        have hfresh := @resolveInclude_eq_fresh files.loader includePaths active ⟨path, text⟩
          finished directive next _ contents hfound hactive hlookup hread
        exact .inr ⟨contents, _, hactive, hread, hfresh⟩

namespace Loading.OnWay

variable {file : FoundFile} {parsed : ParsedDocument} {directive : IncludeDirective}
variable {next : String}

theorem document? (h : OnWay files includePaths root active file)
    (hparsed : Source.parse ⟨file.path, file.text⟩ = .ok parsed) :
    files.document? file.path = some parsed.document := by
  rw [MemoryFiles.document?, h.read]
  simp only [hparsed]
  rfl

theorem step (h : OnWay files includePaths root active file)
    (hparsed : Source.parse ⟨file.path, file.text⟩ = .ok parsed)
    (hdirective : directive ∈ parsed.document.includes)
    (hnext : files.target? includePaths file.path directive = some next) :
    files.IncludeStep includePaths root file.canonical (file.canonical, directive)
      (normalize next) := by
  rw [h.canonical]
  exact .mk h.opened (h.document? hparsed) hdirective hnext

theorem exists_trail (h : OnWay files includePaths root active file) {other : String}
    (hother : other ∈ file.canonical :: active) :
    ∃ marks, Trail (files.IncludeStep includePaths root) other marks file.canonical := by
  rcases List.mem_cons.1 hother with rfl | hother
  · exact ⟨[], .nil⟩
  · exact h.way other hother

/-- A directive that leads back to a file on the way closes a cycle. -/
theorem closes (h : OnWay files includePaths root active file)
    (hparsed : Source.parse ⟨file.path, file.text⟩ = .ok parsed)
    (hdirective : directive ∈ parsed.document.includes)
    (hnext : files.target? includePaths file.path directive = some next)
    (hactive : normalize next ∈ file.canonical :: active) :
    files.Closes includePaths root (normalize file.path) directive := by
  obtain ⟨marks, htrail⟩ := h.exists_trail hactive
  rw [← h.canonical]
  exact ⟨_, marks, h.step hparsed hdirective hnext, htrail⟩

theorem follow (h : OnWay files includePaths root active file)
    (hparsed : Source.parse ⟨file.path, file.text⟩ = .ok parsed)
    (hdirective : directive ∈ parsed.document.includes)
    (hnext : files.target? includePaths file.path directive = some next) {text : String}
    (hread : files.read next = .ok text) (is_new : normalize next ∉ file.canonical :: active) :
    OnWay files includePaths root (file.canonical :: active) ⟨next, normalize next, text⟩ where
  canonical := rfl
  read := hread
  opened := by
    refine .next h.opened ⟨_, h.document? hparsed, directive, hdirective, hnext⟩ fun heq => ?_
    exact is_new (heq ▸ h.rooted)
  rooted := List.mem_cons_of_mem _ h.rooted
  way other hother := by
    obtain ⟨marks, htrail⟩ := h.exists_trail hother
    exact ⟨_, htrail.concat (h.step hparsed hdirective hnext)⟩

end Loading.OnWay

namespace IncludeProgress.Follows

variable {path : String} {done : List IncludeDirective} {progress : IncludeProgress}
variable {directive : IncludeDirective}

theorem settle (h : progress.Follows files includePaths root active path start done)
    {outcome : Option Nat × Loading}
    (hexplored : outcome.2.Explored files includePaths root active)
    (hgrown : progress.state.Grows outcome.2)
    {next : String} (htarget : files.target? includePaths path directive = some next)
    (hnext : normalize next ∈ outcome.2.done ∨
      normalize next ∈ active ∧ IsTold outcome.2.diagnostics (normalize path, directive)) :
    (progress.settle directive.package directive outcome).Follows files includePaths root active
      path start (done ++ [directive]) where
  explored := by
    rw [state_settle]
    exact hexplored
  grown := by
    rw [state_settle]
    exact h.grown.trans hgrown
  named edge hedge := by
    rw [List.map_append, List.mem_append]
    obtain ⟨tree | tree, state⟩ := outcome
    · exact .inl (h.named edge hedge)
    · rcases List.mem_append.1 hedge with hedge | hedge
      · exact .inl (h.named edge hedge)
      · obtain rfl := List.mem_singleton.1 hedge
        exact .inr (List.mem_singleton_self _)
  followed other hother := by
    rw [state_settle]
    rcases List.mem_append.1 hother with hother | hother
    · intro next htarget
      refine (h.followed other hother next htarget).imp (hgrown.done ·) fun htold => ?_
      exact ⟨htold.1, htold.2.mono hgrown.diagnostics⟩
    · obtain rfl := List.mem_singleton.1 hother
      intro other hother
      obtain rfl := Option.some.inj (htarget.symm.trans hother)
      exact hnext

/-- No earlier directive of a file has the package name of the next one. -/
theorem find?_eq_none (horderly : files.IsOrderly includePaths root)
    (hopened : files.Opens includePaths root path) {document : Document}
    (hdocument : files.document? path = some document) {rest : List IncludeDirective}
    (hincludes : document.includes = done ++ directive :: rest)
    (h : progress.Follows files includePaths root active path start done) :
    progress.edges.find? (·.name == directive.package) = none := by
  refine List.find?_eq_none.2 fun edge hedge heq => ?_
  have hdistinct := horderly.distinct _ _ hopened hdocument
  rw [hincludes, List.map_append, List.map_cons, List.nodup_append] at hdistinct
  exact hdistinct.2.2 _ (h.named edge hedge) _ List.mem_cons_self (beq_iff_eq.1 heq)

/-- Dealing with one more directive of a file. -/
theorem followInclude (horderly : files.IsOrderly includePaths root) {file : FoundFile}
    (hway : Loading.OnWay files includePaths root active file) {parsed : ParsedDocument}
    (hparsed : Source.parse ⟨file.path, file.text⟩ = .ok parsed)
    {load : (next : FoundFile) → next.canonical ∈ files.loader.paths →
      next.canonical ∉ file.canonical :: active → Loading → Option Nat × Loading}
    (hload : ∀ next is_file is_new state,
      Loading.OnWay files includePaths root (file.canonical :: active) next →
      state.Explored files includePaths root (file.canonical :: active) →
        Loading.ComesTo files includePaths root (file.canonical :: active) next.canonical state
          (load next is_file is_new state).2)
    {rest : List IncludeDirective}
    (hincludes : parsed.document.includes = done ++ directive :: rest)
    (h : progress.Follows files includePaths root (file.canonical :: active) file.path start done) :
    (Idl.followInclude files.loader includePaths (file.canonical :: active) ⟨file.path, file.text⟩
      load progress directive).Follows files includePaths root (file.canonical :: active) file.path
        start (done ++ [directive]) := by
  have hdirective : directive ∈ parsed.document.includes := by simp [hincludes]
  have hdocument := hway.document? hparsed
  obtain ⟨next, hnext⟩ := horderly.resolves _ _ hway.opened hdocument directive hdirective
  have hpackage : packageName (includedFile directive.path.text) = directive.package := rfl
  unfold Idl.followInclude
  simp only [hpackage, h.find?_eq_none horderly hway.opened hdocument hincludes]
  rcases MemoryFiles.resolveInclude_cases hnext (file.canonical :: active) progress.state.finished
    file.text with
    ⟨hactive, hrefused⟩ | ⟨-, tree, hlookup, hfinished⟩ | ⟨_, is_file, is_new, hread, hfresh⟩
  · simp only [hrefused]
    have hcloses := hway.closes hparsed hdirective hnext hactive
    refine h.settle (h.explored.report hparsed hdirective hcloses) (.report _ _ _) hnext
      (.inr ⟨hactive, Source.place ⟨file.path, file.text⟩ (cycleReport directive), ?_,
        Source.tellsCycle_place _ directive⟩)
    rw [Loading.report, Source.diagnose_cycleReport hparsed hdirective]
    exact List.mem_append_right _ (List.mem_singleton_self _)
  · simp only [hfinished]
    exact h.settle h.explored (.refl _) hnext (.inl (Loading.mem_done_of_lookup hlookup))
  · simp only [hfresh]
    have hcomes := hload _ is_file is_new progress.state
      (hway.follow hparsed hdirective hnext hread is_new) h.explored
    exact h.settle hcomes.explored hcomes.grown hnext (.inl hcomes.done)

/-- Dealing with the first directives of a file. -/
theorem followIncludes (horderly : files.IsOrderly includePaths root) {file : FoundFile}
    (hway : Loading.OnWay files includePaths root active file) {parsed : ParsedDocument}
    (hparsed : Source.parse ⟨file.path, file.text⟩ = .ok parsed)
    (hload : ∀ next is_file is_new state,
      Loading.OnWay files includePaths root (file.canonical :: active) next →
      state.Explored files includePaths root (file.canonical :: active) →
        Loading.ComesTo files includePaths root (file.canonical :: active) next.canonical state
          (loadFile files.loader includePaths (file.canonical :: active) next is_file is_new
            state).2)
    (hexplored : start.Explored files includePaths root active) (done rest : List IncludeDirective)
    (hincludes : parsed.document.includes = done ++ rest) :
    (Idl.followIncludes files.loader includePaths (file.canonical :: active)
      ⟨file.path, file.text⟩ start done).Follows files includePaths root (file.canonical :: active)
        file.path start done := by
  induction done using List.reverseRecOn generalizing rest with
  | nil =>
    exact ⟨hexplored.mono (List.subset_cons_self _ _), .refl _,
      fun _ hedge => absurd hedge List.not_mem_nil,
      fun _ hdone => absurd hdone List.not_mem_nil⟩
  | append_singleton done directive hdone =>
    rw [List.append_assoc, List.singleton_append] at hincludes
    rw [followIncludes_concat]
    exact (hdone _ hincludes).followInclude horderly hway hparsed hload hincludes

/-- A file is done when its directives have been followed. -/
theorem finish {file : FoundFile} (hway : Loading.OnWay files includePaths root active file)
    {parsed : ParsedDocument} (hparsed : Source.parse ⟨file.path, file.text⟩ = .ok parsed)
    (h : progress.Follows files includePaths root (file.canonical :: active) file.path start
      parsed.document.includes)
    {outcome : Loading} (hdone : outcome.done = file.canonical :: progress.state.done)
    (hdiagnostics : outcome.diagnostics = progress.state.diagnostics) :
    Loading.ComesTo files includePaths root active file.canonical start outcome := by
  refine ⟨h.explored.done hdone hdiagnostics ?_, ⟨?_, ?_⟩, hdone ▸ List.mem_cons_self⟩
  · rintro ⟨_, directive⟩ other hstep
    rw [hway.canonical] at hstep
    -- the step may come from another spelling of the path
    obtain ⟨rfl, hwritten, next, hnext, rfl⟩ :=
      hstep.exists_target? hway.opened (hway.document? hparsed)
    exact h.followed directive hwritten next hnext
  · rw [hdone]
    exact List.subset_cons_of_subset _ h.grown.done
  · rw [hdiagnostics]
    exact h.grown.diagnostics

end IncludeProgress.Follows

/-! ### Files -/

theorem Loading.OnWay.exists_parse (horderly : files.IsOrderly includePaths root)
    {file : FoundFile} (h : OnWay files includePaths root active file) :
    ∃ parsed, Source.parse ⟨file.path, file.text⟩ = .ok parsed := by
  obtain ⟨document, hdocument⟩ := horderly.parses _ h.opened
  rw [MemoryFiles.document?, h.read] at hdocument
  cases hparsed : Source.parse ⟨file.path, file.text⟩ with
  | ok parsed => exact ⟨parsed, rfl⟩
  | error failure => simp [hparsed, Except.toOption] at hdocument

/-- Loading a file. -/
theorem Loading.OnWay.loadFile (horderly : files.IsOrderly includePaths root) {file : FoundFile}
    (h : OnWay files includePaths root active file)
    (hexplored : state.Explored files includePaths root active)
    (is_file : file.canonical ∈ files.loader.paths) (is_new : file.canonical ∉ active) :
    ComesTo files includePaths root active file.canonical state
      (Idl.loadFile files.loader includePaths active file is_file is_new state).2 := by
  induction hsize : idleFiles files.loader active using Nat.strong_induction_on
    generalizing active file state with
  | h size ih =>
    obtain ⟨parsed, hparsed⟩ := h.exists_parse horderly
    -- there are fewer idle files when a directive is followed
    have hfollows := IncludeProgress.Follows.followIncludes horderly h hparsed
      (fun next next_is_file next_is_new _ hnext hstate =>
        ih _ (hsize ▸ idleFiles_cons_lt is_file is_new) hnext hstate next_is_file next_is_new rfl)
      hexplored _ [] (List.append_nil _).symm
    rw [loadFile_of_parse_eq_ok is_file is_new state hparsed]
    simp only
    split
    · exact hfollows.finish h hparsed rfl rfl
    · exact hfollows.finish h hparsed rfl rfl

/-! ### Whole runs -/

/-- All files that have been opened are done when no file is being loaded. -/
theorem Loading.Explored.mem_done (h : state.Explored files includePaths root [])
    (hroot : normalize root ∈ state.done) {path : String}
    (hpath : files.Opens includePaths root path) : normalize path ∈ state.done := by
  induction hpath with
  | root => exact hroot
  | next opened includes _ ih =>
    obtain ⟨document, hdocument, directive, hwritten, htarget⟩ := includes
    exact (h.met _ ih _ _ (.mk opened hdocument hwritten htarget)).resolve_left List.not_mem_nil

/-- Every cycle passes a directive that is told to close one. -/
theorem Loading.Explored.exists_told (h : state.Explored files includePaths root [])
    (hroot : normalize root ∈ state.done) {file : String} {marks : List (String × IncludeDirective)}
    (htrail : Trail (files.IncludeStep includePaths root) file marks file) (hmarks : marks ≠ []) :
    ∃ mark ∈ marks, IsTold state.diagnostics mark := by
  by_contra hnone
  have huntold := htrail.restrict fun mark hmark htold => hnone ⟨mark, hmark, htold⟩
  have hfile : file ∈ state.done := by
    cases htrail with
    | nil => exact absurd rfl hmarks
    | cons first _ =>
      obtain ⟨opened⟩ := first
      exact h.mem_done hroot opened
  exact hmarks (huntold.eq_nil_of_acc (h.ends file hfile))

/-- Include cycles are reported where they close. If all files that are opened can be parsed and
have their includes in order, then all that is reported is that some directives close cycles, which
they do. Every cycle of includes passes such a directive. So nothing is reported exactly if there is
no cycle. -/
theorem loadProgram_reports_cycles (files : MemoryFiles) (includePaths : List String)
    {root : String} (horderly : files.IsOrderly includePaths root) :
    ∃ program? diagnostics,
      loadProgram files.loader includePaths root = .ok (program?, diagnostics) ∧
      (∀ diagnostic ∈ diagnostics, ∃ file directive, diagnostic.TellsCycle file directive ∧
        files.Closes includePaths root file directive) ∧
      (∀ file marks, Trail (files.IncludeStep includePaths root) file marks file → marks ≠ [] →
        ∃ mark ∈ marks, IsTold diagnostics mark) ∧
      (diagnostics = [] ↔ ∀ file marks,
        Trail (files.IncludeStep includePaths root) file marks file → marks = []) := by
  obtain ⟨document, hdocument⟩ := horderly.parses root .root
  obtain ⟨text, hread⟩ : ∃ text, files.read root = .ok text := by
    cases hread : files.read root with
    | ok text => exact ⟨text, rfl⟩
    | error error => simp [MemoryFiles.document?, hread] at hdocument
  have hcanonical : files.loader.canonicalize root = .ok (normalize root) :=
    MemoryFiles.canonicalize_eq_ok_iff.2 ⟨rfl, text, hread⟩
  have hroot := @loadRoot_eq files.loader includePaths _ _ _ hcanonical hread
  have hway : Loading.OnWay files includePaths root [] ⟨root, normalize root, text⟩ :=
    ⟨rfl, hread, .root, List.mem_cons_self, fun _ hmem => absurd hmem List.not_mem_nil⟩
  obtain ⟨hexplored, -, hdone⟩ := hway.loadFile horderly Loading.explored_empty
    (files.loader.mem_paths hread) List.not_mem_nil
  refine ⟨_, _, by rw [loadProgram, hroot]; rfl, hexplored.closes,
    fun file marks => hexplored.exists_told hdone, fun hnil file marks htrail => ?_,
    fun hacyclic => ?_⟩
  · by_contra hmarks
    obtain ⟨mark, -, diagnostic, hmem, -⟩ := hexplored.exists_told hdone htrail hmarks
    rw [hnil] at hmem
    exact List.not_mem_nil hmem
  · refine List.eq_nil_iff_forall_not_mem.2 fun diagnostic hmem => ?_
    obtain ⟨file, directive, -, other, marks, hstep, htrail⟩ := hexplored.closes diagnostic hmem
    exact absurd (hacyclic _ _ (.cons hstep htrail)) (List.cons_ne_nil _ _)

end

/-! ### Listed files -/

namespace MemoryFiles

variable {files : MemoryFiles} {includePaths : List String} {root path : String}
variable {listed : List (String × Document)}

/-- The root is listed, and every listed file has its includes in order and is listed with its
syntax tree and what it includes. -/
structure Lists (files : MemoryFiles) (includePaths : List String) (root : String)
    (listed : List (String × Document)) : Prop where
  root : root ∈ listed.map Prod.fst
  document : ∀ entry ∈ listed, files.document? entry.1 = some entry.2
  distinct : ∀ entry ∈ listed, (entry.2.includes.map IncludeDirective.package).Nodup
  targets : ∀ entry ∈ listed, ∀ directive ∈ entry.2.includes, ∃ next ∈ listed.map Prod.fst,
    files.target? includePaths entry.1 directive = some next

theorem Lists.mem (h : files.Lists includePaths root listed)
    (hpath : files.Opens includePaths root path) {document : Document}
    (hdocument : files.document? path = some document) : (path, document) ∈ listed := by
  have hlisted : path ∈ listed.map Prod.fst := by
    clear hdocument
    induction hpath with
    | root => exact h.root
    | next _ includes _ ih =>
      obtain ⟨document, hdocument, directive, hwritten, htarget⟩ := includes
      obtain ⟨⟨path, other⟩, hmem, rfl⟩ := List.mem_map.1 ih
      obtain rfl := Option.some.inj ((h.document _ hmem).symm.trans hdocument)
      obtain ⟨next, hnext, hfound⟩ := h.targets _ hmem directive hwritten
      obtain rfl := Option.some.inj (hfound.symm.trans htarget)
      exact hnext
  obtain ⟨⟨path, other⟩, hmem, rfl⟩ := List.mem_map.1 hlisted
  obtain rfl := Option.some.inj ((h.document _ hmem).symm.trans hdocument)
  exact hmem

theorem Lists.isOrderly (h : files.Lists includePaths root listed) :
    files.IsOrderly includePaths root where
  parses path hpath := by
    cases hpath with
    | root =>
      obtain ⟨entry, hentry, rfl⟩ := List.mem_map.1 h.root
      exact ⟨_, h.document entry hentry⟩
    | next opened includes _ =>
      obtain ⟨document, hdocument, directive, hwritten, htarget⟩ := includes
      obtain ⟨next, hnext, hfound⟩ := h.targets _ (h.mem opened hdocument) directive hwritten
      obtain rfl := Option.some.inj (hfound.symm.trans htarget)
      obtain ⟨entry, hentry, rfl⟩ := List.mem_map.1 hnext
      exact ⟨_, h.document entry hentry⟩
  resolves path document hpath hdocument directive hwritten := by
    obtain ⟨next, -, hnext⟩ := h.targets _ (h.mem hpath hdocument) directive hwritten
    exact ⟨next, hnext⟩
  distinct path document hpath hdocument := h.distinct _ (h.mem hpath hdocument)

end MemoryFiles

/-- A file that includes two others, which include each other. -/
def hubFiles : MemoryFiles :=
  .ofList [("a.thrift", "include \"b\" include \"c\""), ("b.thrift", "include \"c\""),
    ("c.thrift", "include \"b\"")]

def hubDocuments : List (String × Document) :=
  [("a.thrift", ⟨[], [⟨⟨"b", ⟨8, 11⟩⟩, ⟨0, 11⟩⟩, ⟨⟨"c", ⟨20, 23⟩⟩, ⟨12, 23⟩⟩], [], ⟨0, 23⟩⟩),
    ("b.thrift", ⟨[], [⟨⟨"c", ⟨8, 11⟩⟩, ⟨0, 11⟩⟩], [], ⟨0, 11⟩⟩),
    ("c.thrift", ⟨[], [⟨⟨"b", ⟨8, 11⟩⟩, ⟨0, 11⟩⟩], [], ⟨0, 11⟩⟩)]

theorem lists_hubDocuments : hubFiles.Lists [] "a.thrift" hubDocuments where
  root := by decide
  document := by
    simp only [hubDocuments, List.forall_mem_cons]
    refine ⟨?_, ?_, ?_, fun _ hmem => absurd hmem List.not_mem_nil⟩
    all_goals decide +kernel
  distinct := by decide
  targets := by decide

theorem ne_of_includeStep_hubFiles {file other : String} {mark : String × IncludeDirective}
    (h : hubFiles.IncludeStep [] "a.thrift" file mark other) : other ≠ "a.thrift" := by
  have htargets : ∀ entry ∈ hubDocuments, ∀ directive ∈ entry.2.includes,
      (hubFiles.target? [] entry.1 directive).map normalize ≠ some "a.thrift" := by decide
  obtain ⟨opened, document_eq, written, target_eq⟩ := h
  intro heq
  refine htargets _ (lists_hubDocuments.mem opened document_eq) _ written ?_
  rw [target_eq, Option.map_some, heq]

/-- One of the two that include each other is reported, and the file that includes both is not. -/
theorem loadProgram_hubFiles :
    hubFiles.IsOrderly [] "a.thrift" ∧ ∃ program? diagnostics,
      loadProgram hubFiles.loader [] "a.thrift" = .ok (program?, diagnostics) ∧
        (IsTold diagnostics ("b.thrift", ⟨⟨"c", ⟨8, 11⟩⟩, ⟨0, 11⟩⟩) ∨
          IsTold diagnostics ("c.thrift", ⟨⟨"b", ⟨8, 11⟩⟩, ⟨0, 11⟩⟩)) ∧
        ∀ directive, ¬ IsTold diagnostics ("a.thrift", directive) := by
  obtain ⟨program?, diagnostics, hload, hcloses, hcycles, -⟩ :=
    loadProgram_reports_cycles hubFiles [] lists_hubDocuments.isOrderly
  obtain ⟨hroot, hdocuments⟩ := List.forall_mem_cons.1 lists_hubDocuments.document
  obtain ⟨hfirst, hdocuments⟩ := List.forall_mem_cons.1 hdocuments
  have hsecond := List.forall_mem_singleton.1 hdocuments
  refine ⟨lists_hubDocuments.isOrderly, program?, diagnostics, hload, ?_, fun directive htold => ?_⟩
  · have hopened : hubFiles.Opens [] "a.thrift" "b.thrift" :=
      .next .root ⟨_, hroot, _, List.mem_cons_self, by decide⟩ (by decide)
    have hopened' : hubFiles.Opens [] "a.thrift" "c.thrift" :=
      .next hopened ⟨_, hfirst, _, List.mem_cons_self, by decide⟩ (by decide)
    have hstep := MemoryFiles.IncludeStep.mk hopened hfirst List.mem_cons_self
      (show hubFiles.target? [] "b.thrift" _ = some "c.thrift" by decide)
    have hback := MemoryFiles.IncludeStep.mk hopened' hsecond List.mem_cons_self
      (show hubFiles.target? [] "c.thrift" _ = some "b.thrift" by decide)
    have hnormal : normalize "b.thrift" = "b.thrift" ∧ normalize "c.thrift" = "c.thrift" := by
      decide
    rw [hnormal.1, hnormal.2] at hstep hback
    obtain ⟨mark, hmark, htold⟩ := hcycles _ _ (.cons hstep (.cons hback .nil)) (by simp)
    rcases List.mem_pair.1 hmark with rfl | rfl
    · exact .inl htold
    · exact .inr htold
  · obtain ⟨diagnostic, hmem, htells⟩ := htold
    obtain ⟨file, other, htells', next, marks, hstep, htrail⟩ := hcloses diagnostic hmem
    obtain rfl : file = "a.thrift" := htells'.file.symm.trans htells.file
    rcases List.eq_nil_or_concat marks with rfl | ⟨before, mark, rfl⟩
    · cases htrail
      exact ne_of_includeStep_hubFiles hstep rfl
    · rw [List.concat_eq_append] at htrail
      obtain ⟨_, -, hlast⟩ := htrail.exists_of_concat
      exact ne_of_includeStep_hubFiles hlast rfl

end Idl
