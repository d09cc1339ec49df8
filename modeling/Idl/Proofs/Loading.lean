import Idl.Proofs.IncludeClosure
import Idl.Proofs.Located

/-!
# What loading finds

A step of the loading deals with one include directive, and a file is done when all its directives
are. What holds of the files and problems found so far: every tree is that of a file in the include
closure of the root, with an edge for every directive that leads to an earlier tree, and once a
file has failed, there is a diagnostic and the root cannot be loaded.
-/
namespace Idl

section

variable (files : MemoryFiles) (includePaths : List String) (root : String)

/-- The edge for a directive of the file at `path` leads to the tree of the file that the directive
leads to. -/
structure IncludeEdge.Fits (trees : List SourceTree) (path : String) (directive : IncludeDirective)
    (edge : IncludeEdge) : Prop where
  name : FilePath.stem? (includedFile directive.path.text) = some edge.name
  origin : edge.directive = directive
  target : ∃ next tree, files.target? includePaths path directive = some next ∧
    trees[edge.tree]? = some tree ∧ FilePath.normalize tree.source.path = FilePath.normalize next

/-- A tree that stands for a file in the include closure. -/
structure SourceTree.Fits (trees : List SourceTree) (number : Nat) (tree : SourceTree) : Prop where
  reached : files.Reaches includePaths root tree.source.path
  read : files.read tree.source.path = .ok tree.source.text
  parsed : ∃ nodes, tree.source.parse = .ok ⟨tree.document, nodes⟩
  package : tree.package = packageName tree.source.path
  edges : List.Forall₂ (IncludeEdge.Fits files includePaths trees tree.source.path)
    tree.document.includes tree.includes
  below : ∀ edge ∈ tree.includes, edge.tree < number
  distinct : (tree.document.includes.map IncludeDirective.package).Nodup

namespace Loading

/-- There is a diagnostic, and rightly so. -/
def IsLost (state : Loading) : Prop :=
  state.diagnostics ≠ [] ∧ ¬ files.IsLoadable includePaths root

/-- What holds of the files and problems found at any time. -/
structure Sound (state : Loading) : Prop where
  fits : ∀ {number : Nat} {tree : SourceTree}, state.trees[number]? = some tree →
    tree.Fits files includePaths root state.trees number
  listed : ∀ {number : Nat} {tree : SourceTree}, state.trees[number]? = some tree →
    state.finished.lookup (FilePath.normalize tree.source.path) = some (some number)
  loaded : ∀ {canonical number}, state.finished.lookup canonical = some (some number) →
    ∃ tree, state.trees[number]? = some tree ∧ FilePath.normalize tree.source.path = canonical
  dropped : ∀ {canonical}, state.finished.lookup canonical = some none → state.failed
  failed : state.failed → state.IsLost files includePaths root

end Loading

end

namespace Loading

/-- Loading has gone on: nothing that was found is gone. -/
structure Extends (start state : Loading) : Prop where
  trees : start.trees <+: state.trees
  diagnostics : start.diagnostics <+: state.diagnostics
  finished : ∀ {canonical outcome}, start.finished.lookup canonical = some outcome →
    state.finished.lookup canonical = some outcome
  failed : start.failed → state.failed

theorem Extends.refl (state : Loading) : Extends state state :=
  ⟨List.prefix_rfl, List.prefix_rfl, id, id⟩

theorem Extends.trans {start middle state : Loading} (h : Extends start middle)
    (h' : Extends middle state) : Extends start state :=
  ⟨h.trees.trans h'.trees, h.diagnostics.trans h'.diagnostics, h'.finished ∘ h.finished,
    h'.failed ∘ h.failed⟩

end Loading

section

variable {files : MemoryFiles} {includePaths : List String} {root : String}

theorem getElem?_of_isPrefix {list more : List SourceTree} (h : list <+: more) {number : Nat}
    {tree : SourceTree} (htree : list[number]? = some tree) : more[number]? = some tree := by
  obtain ⟨rest, rfl⟩ := h
  rw [List.getElem?_append_left (List.getElem?_eq_some_iff.1 htree).1, htree]

theorem IncludeEdge.Fits.name_eq {trees : List SourceTree} {path : String}
    {directive : IncludeDirective} {edge : IncludeEdge}
    (h : edge.Fits files includePaths trees path directive) : edge.name = directive.package :=
  Option.some.inj (h.name.symm.trans directive.stem?_includedFile)

theorem IncludeEdge.Fits.mono {trees more : List SourceTree} {path : String}
    {directive : IncludeDirective} {edge : IncludeEdge}
    (h : edge.Fits files includePaths trees path directive) (hmore : trees <+: more) :
    edge.Fits files includePaths more path directive := by
  obtain ⟨next, tree, htarget, htree, hsame⟩ := h.target
  exact ⟨h.name, h.origin, next, tree, htarget, getElem?_of_isPrefix hmore htree, hsame⟩

/-- From every spelling of the file's path the edge leads to the same tree. -/
theorem IncludeEdge.Fits.respell {trees : List SourceTree} {path other : String}
    {directive : IncludeDirective} {edge : IncludeEdge}
    (h : edge.Fits files includePaths trees path directive)
    (hrespells : FilePath.Respells path other) :
    edge.Fits files includePaths trees other directive := by
  obtain ⟨next, tree, htarget, htree, hsame⟩ := h.target
  obtain ⟨found, hfound, heq⟩ := MemoryFiles.exists_target?_of_respells hrespells htarget
  exact ⟨h.name, h.origin, found, tree, hfound, htree, hsame.trans heq.symm⟩

theorem IncludeEdge.map_name {trees : List SourceTree} {path : String}
    {directives : List IncludeDirective} {edges : List IncludeEdge}
    (h : List.Forall₂ (IncludeEdge.Fits files includePaths trees path) directives edges) :
    edges.map IncludeEdge.name = directives.map IncludeDirective.package := by
  induction h with
  | nil => rfl
  | cons hedge _ ih => rw [List.map_cons, List.map_cons, hedge.name_eq, ih]

theorem IncludeEdge.exists_directive {trees : List SourceTree} {path : String}
    {directives : List IncludeDirective} {edges : List IncludeEdge}
    (h : List.Forall₂ (IncludeEdge.Fits files includePaths trees path) directives edges)
    {edge : IncludeEdge} (hedge : edge ∈ edges) :
    ∃ directive ∈ directives, edge.Fits files includePaths trees path directive := by
  induction h with
  | nil => cases hedge
  | cons hfits _ ih =>
    rcases List.mem_cons.1 hedge with rfl | hedge
    · exact ⟨_, List.mem_cons_self, hfits⟩
    · obtain ⟨directive, hdirective, hfits⟩ := ih hedge
      exact ⟨directive, List.mem_cons_of_mem _ hdirective, hfits⟩

theorem IncludeEdge.exists_edge {trees : List SourceTree} {path : String}
    {directives : List IncludeDirective} {edges : List IncludeEdge}
    (h : List.Forall₂ (IncludeEdge.Fits files includePaths trees path) directives edges)
    {directive : IncludeDirective} (hdirective : directive ∈ directives) :
    ∃ edge ∈ edges, edge.Fits files includePaths trees path directive := by
  induction h with
  | nil => cases hdirective
  | cons hfits _ ih =>
    rcases List.mem_cons.1 hdirective with rfl | hdirective
    · exact ⟨_, List.mem_cons_self, hfits⟩
    · obtain ⟨edge, hedge, hfits⟩ := ih hdirective
      exact ⟨edge, List.mem_cons_of_mem _ hedge, hfits⟩

theorem SourceTree.Fits.mono {trees more : List SourceTree} {number : Nat} {tree : SourceTree}
    (h : tree.Fits files includePaths root trees number) (hmore : trees <+: more) :
    tree.Fits files includePaths root more number :=
  { h with edges := h.edges.imp fun _ _ hedge => hedge.mono hmore }

namespace Loading

theorem IsLost.mono {start state : Loading} (h : start.IsLost files includePaths root)
    (hextends : Extends start state) : state.IsLost files includePaths root := by
  refine ⟨fun hnil => h.1 ?_, h.2⟩
  have hdiagnostics := hextends.diagnostics
  rw [hnil] at hdiagnostics
  exact List.prefix_nil.1 hdiagnostics

/-! ### Steps -/

theorem sound_empty : empty.Sound files includePaths root where
  fits htree := by cases htree
  listed htree := by cases htree
  loaded hlookup := by cases hlookup
  dropped hlookup := by cases hlookup
  failed hfailed := absurd hfailed Bool.false_ne_true

theorem extends_report (state : Loading) (source : Source) (reports : List Report) :
    Extends state (state.report source reports) :=
  ⟨List.prefix_rfl, List.prefix_append _ _, id, id⟩

theorem Sound.report {state : Loading} (h : state.Sound files includePaths root) (source : Source)
    (reports : List Report) : (state.report source reports).Sound files includePaths root :=
  { h with failed := fun hfailed => (h.failed hfailed).mono (extends_report state source reports) }

theorem lookup_cons_of_idle {finished : List (String × Option Nat)} {canonical : String}
    (hidle : finished.lookup canonical = none) (outcome : Option Nat) {other : String}
    {found : Option Nat} (h : finished.lookup other = some found) :
    List.lookup other ((canonical, outcome) :: finished) = some found := by
  have hne : other ≠ canonical := by
    rintro rfl
    rw [hidle] at h
    cases h
  rw [List.lookup_cons, beq_false_of_ne hne]
  exact h

theorem extends_fail {state : Loading} {canonical : String}
    (hidle : state.finished.lookup canonical = none) : Extends state (state.fail canonical) :=
  ⟨List.prefix_rfl, List.prefix_rfl, lookup_cons_of_idle hidle none, fun _ => rfl⟩

theorem extends_finish {state : Loading} {canonical : String}
    (hidle : state.finished.lookup canonical = none) (tree : SourceTree) :
    Extends state (state.finish canonical tree).2 :=
  ⟨List.prefix_append _ _, List.prefix_rfl, lookup_cons_of_idle hidle _, id⟩

theorem Sound.fail {state : Loading} (h : state.Sound files includePaths root)
    {canonical : String} (hidle : state.finished.lookup canonical = none)
    (hlost : state.IsLost files includePaths root) :
    (state.fail canonical).Sound files includePaths root where
  fits := h.fits
  listed htree := lookup_cons_of_idle hidle none (h.listed htree)
  loaded {other number} hlookup := by
    rw [Loading.fail, List.lookup_cons] at hlookup
    by_cases hother : other = canonical
    · simp [hother] at hlookup
    · rw [beq_false_of_ne hother] at hlookup
      exact h.loaded hlookup
  dropped _ := rfl
  failed _ := hlost

theorem getElem?_concat_eq_some {list : List SourceTree} {last tree : SourceTree} {number : Nat}
    (h : (list ++ [last])[number]? = some tree) :
    list[number]? = some tree ∨ number = list.length ∧ tree = last := by
  rcases Nat.lt_trichotomy number list.length with hlt | rfl | hlt
  · rw [List.getElem?_append_left hlt] at h
    exact .inl h
  · rw [List.getElem?_concat_length] at h
    exact .inr ⟨rfl, (Option.some.inj h).symm⟩
  · rw [List.getElem?_eq_none (by simpa using Nat.succ_le_of_lt hlt)] at h
    cases h

theorem Sound.finish {state : Loading} (h : state.Sound files includePaths root)
    {tree : SourceTree}
    (hidle : state.finished.lookup (FilePath.normalize tree.source.path) = none)
    (htree : tree.Fits files includePaths root state.trees state.trees.length) :
    (state.finish (FilePath.normalize tree.source.path) tree).2.Sound files includePaths root where
  fits {number other} hother := by
    have hmore : state.trees <+: state.trees ++ [tree] := List.prefix_append _ _
    rcases getElem?_concat_eq_some hother with hother | ⟨rfl, rfl⟩
    · exact (h.fits hother).mono hmore
    · exact htree.mono hmore
  listed {number other} hother := by
    rcases getElem?_concat_eq_some hother with hother | ⟨rfl, rfl⟩
    · exact lookup_cons_of_idle hidle _ (h.listed hother)
    · simp [Loading.finish]
  loaded {canonical number} hlookup := by
    simp only [Loading.finish, List.lookup_cons] at hlookup ⊢
    by_cases hcanonical : canonical = FilePath.normalize tree.source.path
    · obtain rfl : state.trees.length = number := by simpa [hcanonical] using hlookup
      exact ⟨tree, List.getElem?_concat_length, hcanonical.symm⟩
    · rw [beq_false_of_ne hcanonical] at hlookup
      obtain ⟨other, hother, hsame⟩ := h.loaded hlookup
      exact ⟨other, getElem?_of_isPrefix (List.prefix_append _ _) hother, hsame⟩
  dropped {canonical} hlookup := by
    simp only [Loading.finish, List.lookup_cons] at hlookup
    by_cases hcanonical : canonical = FilePath.normalize tree.source.path
    · simp [hcanonical] at hlookup
    · rw [beq_false_of_ne hcanonical] at hlookup
      exact h.dropped hlookup
  failed := h.failed

end Loading

end

/-! ### Include directives -/

section

variable (files : MemoryFiles) (includePaths : List String) (root : String)

namespace Loading

/-- What holds when a file is about to be loaded. The files that are being loaded are on the way
from the root to it. -/
structure Ready (active : List String) (file : FoundFile) (state : Loading) : Prop where
  sound : state.Sound files includePaths root
  idle : ∀ canonical ∈ file.canonical :: active, state.finished.lookup canonical = none
  canonical : file.canonical = FilePath.normalize file.path
  read : files.read file.path = .ok file.text
  reached : files.Reaches includePaths root file.path
  way : ∀ canonical ∈ active, ∃ path, FilePath.normalize path = canonical ∧
    files.Reaches includePaths root path ∧
      Relation.TransGen (files.Includes includePaths) path file.path

/-- What holds when the loading has led to the file with a canonical path, or to none. -/
structure Leads (active : List String) (canonical : String) (start : Loading)
    (outcome : Option Nat × Loading) : Prop where
  sound : outcome.2.Sound files includePaths root
  extended : Extends start outcome.2
  idle : ∀ other ∈ active, outcome.2.finished.lookup other = none
  lost : outcome.1 = none → outcome.2.IsLost files includePaths root
  found : ∀ {number}, outcome.1 = some number →
    outcome.2.finished.lookup canonical = some (some number) ∧
      (outcome.2.failed = false → outcome.2.diagnostics = start.diagnostics)

end Loading

/-- A file whose include directives are followed. The files that are being loaded, of which it is
one, are on the way from the root to it. -/
structure Visit (active : List String) (source : Source) (document : Document) : Prop where
  read : files.read source.path = .ok source.text
  parsed : ∃ nodes, source.parse = .ok ⟨document, nodes⟩
  reached : files.Reaches includePaths root source.path
  way : ∀ canonical ∈ active, ∃ path, FilePath.normalize path = canonical ∧
    files.Reaches includePaths root path ∧
      Relation.ReflTransGen (files.Includes includePaths) path source.path

/-- What holds after some of the include directives of a file. -/
structure IncludeProgress.Fits (active : List String) (path : String) (start : Loading)
    (done : List IncludeDirective) (progress : IncludeProgress) : Prop where
  sound : progress.state.Sound files includePaths root
  extended : start.Extends progress.state
  idle : ∀ canonical ∈ active, progress.state.finished.lookup canonical = none
  named : ∀ edge ∈ progress.edges, edge.name ∈ done.map IncludeDirective.package
  complete : progress.complete = true →
    List.Forall₂ (IncludeEdge.Fits files includePaths progress.state.trees path) done
        progress.edges ∧
      (done.map IncludeDirective.package).Nodup ∧
      (progress.state.failed = false → progress.state.diagnostics = start.diagnostics)
  incomplete : progress.complete = false → progress.state.IsLost files includePaths root

end

section

variable {files : MemoryFiles} {includePaths : List String} {root : String}
variable {active : List String} {source : Source} {document : Document}

theorem Visit.document? (h : Visit files includePaths root active source document) :
    files.document? source.path = some document := by
  obtain ⟨nodes, hparsed⟩ := h.parsed
  rw [MemoryFiles.document?, h.read]
  change (source.parse.toOption.map _) = _
  rw [hparsed]
  rfl

theorem Visit.includes (h : Visit files includePaths root active source document)
    {directive : IncludeDirective} (hdirective : directive ∈ document.includes) {next : String}
    (hnext : files.target? includePaths source.path directive = some next) :
    files.Includes includePaths source.path next :=
  ⟨document, h.document?, directive, hdirective, hnext⟩

/-- A report about an include directive is seen. -/
theorem Visit.isLost_report (h : Visit files includePaths root active source document)
    {directive : IncludeDirective} (hdirective : directive ∈ document.includes) {report : Report}
    (hspan : report.span = directive.path.span) (state : Loading)
    (hnot : ¬ files.IsLoadable includePaths root) :
    (state.report source [report]).IsLost files includePaths root := by
  obtain ⟨nodes, hparsed⟩ := h.parsed
  have hlocates : source.Locates report.span := by
    rw [hspan]
    exact Source.locates_include hparsed hdirective
  refine ⟨fun hnil => Source.diagnose_ne_nil hlocates [] ?_, hnot⟩
  exact (List.append_eq_nil_iff.1 hnil).2

/-- A directive that leads back to a file that is being loaded closes a circle. -/
theorem Visit.not_isLoadable_of_mem (h : Visit files includePaths root active source document)
    {directive : IncludeDirective} (hdirective : directive ∈ document.includes) {next : String}
    (hnext : files.target? includePaths source.path directive = some next)
    (hactive : FilePath.normalize next ∈ active) : ¬ files.IsLoadable includePaths root := by
  intro hloadable
  obtain ⟨path, hsame, hreached, hway⟩ := h.way _ hactive
  exact hloadable.acyclic path next hreached
    (Relation.TransGen.tail' hway (h.includes hdirective hnext)) hsame

/-- What a resolved include directive tells about the files. -/
theorem Visit.resolveInclude_spec (h : Visit files includePaths root active source document)
    {directive : IncludeDirective} (hdirective : directive ∈ document.includes)
    (finished : List (String × Option Nat)) :
    match resolveInclude files.loader includePaths active finished source directive with
    | .refused report => report.span = directive.path.span ∧ ¬ files.IsLoadable includePaths root
    | .finished tree => ∃ next, files.target? includePaths source.path directive = some next ∧
        finished.lookup (FilePath.normalize next) = some tree
    | .fresh file _ _ => files.target? includePaths source.path directive = some file.path ∧
        file.canonical = FilePath.normalize file.path ∧ files.read file.path = .ok file.text ∧
        finished.lookup file.canonical = none := by
  have hfind := files.find_includeCandidates includePaths source.path directive
  have hresolves :=
    resolves_resolveInclude files.loader includePaths active finished source directive
  generalize resolveInclude files.loader includePaths active finished source directive = outcome
    at hresolves ⊢
  cases hresolves with
  | missing hmissing =>
    rw [hmissing] at hfind
    refine ⟨rfl, fun hloadable => ?_⟩
    obtain ⟨next, hnext⟩ := hloadable.resolves _ _ h.reached h.document? directive hdirective
    cases hfind.symm.trans hnext
  | cycle hfound hactive =>
    rw [hfound] at hfind
    obtain ⟨hnext, rfl⟩ := hfind
    exact ⟨rfl, h.not_isLoadable_of_mem hdirective hnext hactive⟩
  | finished hfound _ hlookup =>
    rw [hfound] at hfind
    obtain ⟨hnext, rfl⟩ := hfind
    exact ⟨_, hnext, hlookup⟩
  | unreadable hfound _ _ herror =>
    -- a path that leads to a file in memory leads to its text
    rw [hfound] at hfind
    obtain ⟨hnext, rfl⟩ := hfind
    obtain ⟨text, htext⟩ := MemoryFiles.exists_read_of_target? hnext
    cases herror.symm.trans htext
  | fresh hfound hlookup hread =>
    rw [hfound] at hfind
    obtain ⟨hnext, hcanonical⟩ := hfind
    exact ⟨hnext, hcanonical, by rwa [MemoryFiles.read, ← hcanonical], hlookup⟩

/-- A file that is done is not loaded again. -/
theorem Loading.Sound.leads {state : Loading} (h : state.Sound files includePaths root)
    (hidle : ∀ canonical ∈ active, state.finished.lookup canonical = none) {canonical : String}
    {tree : Option Nat} (hlookup : state.finished.lookup canonical = some tree) :
    Leads files includePaths root active canonical state (tree, state) where
  sound := h
  extended := .refl state
  idle := hidle
  lost hnone := h.failed (h.dropped (hlookup.trans (congrArg some hnone)))
  found hnumber := ⟨hlookup.trans (congrArg some hnumber), fun _ => rfl⟩

namespace IncludeProgress

variable {path : String} {start state : Loading} {done : List IncludeDirective}
variable {rest : List IncludeDirective} {progress : IncludeProgress} {directive : IncludeDirective}

theorem Fits.settle_none (h : progress.Fits files includePaths root active path start done)
    (hsound : state.Sound files includePaths root) (hextended : progress.state.Extends state)
    (hidle : ∀ canonical ∈ active, state.finished.lookup canonical = none)
    (hlost : state.IsLost files includePaths root) :
    (progress.settle directive.package directive (none, state)).Fits files includePaths root active
      path start (done ++ [directive]) where
  sound := hsound
  extended := h.extended.trans hextended
  idle := hidle
  named edge hedge := by
    rw [List.map_append]
    exact List.mem_append_left _ (h.named edge hedge)
  complete hcomplete := absurd hcomplete Bool.false_ne_true
  incomplete _ := hlost

theorem Fits.settle_some (h : progress.Fits files includePaths root active path start done)
    {next : String} (hnext : files.target? includePaths path directive = some next) {number : Nat}
    (hleads : Loading.Leads files includePaths root active (FilePath.normalize next) progress.state
      (some number, state))
    (hnew : ∀ edge ∈ progress.edges, edge.name ≠ directive.package) :
    (progress.settle directive.package directive (some number, state)).Fits files includePaths root
      active path start (done ++ [directive]) where
  sound := hleads.sound
  extended := h.extended.trans hleads.extended
  idle := hleads.idle
  named edge hedge := by
    rw [List.map_append, List.map_singleton]
    rcases List.mem_append.1 hedge with hedge | hedge
    · exact List.mem_append_left _ (h.named edge hedge)
    · obtain rfl := List.mem_singleton.1 hedge
      exact List.mem_append_right _ List.mem_cons_self
  complete hcomplete := by
    obtain ⟨hedges, hdistinct, hsilent⟩ := h.complete hcomplete
    obtain ⟨hlookup, hunchanged⟩ := hleads.found rfl
    obtain ⟨tree, htree, hsame⟩ := hleads.sound.loaded hlookup
    refine ⟨?_, ?_, ?_⟩
    · apply List.rel_append (hedges.imp fun _ _ hedge => hedge.mono hleads.extended.trees)
      exact .cons ⟨directive.stem?_includedFile, rfl, next, tree, hnext, htree, hsame⟩ .nil
    · rw [List.map_append, List.map_singleton, List.nodup_append]
      refine ⟨hdistinct, List.nodup_singleton _, ?_⟩
      intro name hname other hother hsame
      rw [← IncludeEdge.map_name hedges, List.mem_map] at hname
      obtain ⟨edge, hedge, rfl⟩ := hname
      exact hnew edge hedge (hsame.trans (List.mem_singleton.1 hother))
    · intro hfailed
      have hbefore : progress.state.failed = false := by
        rw [← Bool.not_eq_true]
        exact fun hbefore =>
          Bool.false_ne_true (hfailed.symm.trans (hleads.extended.failed hbefore))
      exact (hunchanged hfailed).trans (hsilent hbefore)
  incomplete hincomplete := (h.incomplete hincomplete).mono hleads.extended

/-- A directive that is reported is one that stands in the way of loading the root. -/
theorem Fits.refuse
    (h : progress.Fits files includePaths root active source.path start done)
    (hvisit : Visit files includePaths root active source document)
    (hdirective : directive ∈ document.includes) {report : Report}
    (hspan : report.span = directive.path.span) (hnot : ¬ files.IsLoadable includePaths root) :
    (progress.settle directive.package directive
      (none, progress.state.report source [report])).Fits files includePaths root active source.path
        start (done ++ [directive]) :=
  h.settle_none (h.sound.report source [report])
    (Loading.extends_report progress.state source [report]) h.idle
    (hvisit.isLost_report hdirective hspan progress.state hnot)

theorem Fits.not_isLoadable_of_find?
    (h : progress.Fits files includePaths root active source.path start done)
    (hvisit : Visit files includePaths root active source document)
    (hincludes : document.includes = done ++ directive :: rest) {first : IncludeEdge}
    (hfind : progress.edges.find? (·.name == directive.package) = some first) :
    ¬ files.IsLoadable includePaths root := by
  intro hloadable
  have hname : first.name = directive.package := by simpa using List.find?_some hfind
  have hmem := h.named first (List.mem_of_find?_eq_some hfind)
  have hdistinct := hloadable.distinct _ _ hvisit.reached hvisit.document?
  rw [hincludes, List.map_append, List.map_cons, List.nodup_append] at hdistinct
  exact hdistinct.2.2 _ hmem _ List.mem_cons_self hname

/-- A file that is met for the first time is ready to be loaded. -/
theorem Fits.ready
    (h : progress.Fits files includePaths root active source.path start done)
    (hvisit : Visit files includePaths root active source document)
    (hdirective : directive ∈ document.includes) {file : FoundFile}
    (hnext : files.target? includePaths source.path directive = some file.path)
    (hcanonical : file.canonical = FilePath.normalize file.path)
    (hread : files.read file.path = .ok file.text)
    (hlookup : progress.state.finished.lookup file.canonical = none) :
    Loading.Ready files includePaths root active file progress.state where
  sound := h.sound
  idle := List.forall_mem_cons.2 ⟨hlookup, h.idle⟩
  canonical := hcanonical
  read := hread
  reached := hvisit.reached.tail (hvisit.includes hdirective hnext)
  way canonical hmem := by
    obtain ⟨path, hsame, hreached, hway⟩ := hvisit.way canonical hmem
    exact ⟨path, hsame, hreached,
      Relation.TransGen.tail' hway (hvisit.includes hdirective hnext)⟩

/-- A directive has led to the file that it is for, which has a tree or not. -/
theorem Fits.settle
    (h : progress.Fits files includePaths root active path start done)
    {next : String} (hnext : files.target? includePaths path directive = some next)
    (hnew : progress.edges.find? (·.name == directive.package) = none)
    {outcome : Option Nat × Loading}
    (hleads : Loading.Leads files includePaths root active (FilePath.normalize next) progress.state
      outcome) :
    (progress.settle directive.package directive outcome).Fits files includePaths root active path
      start (done ++ [directive]) := by
  obtain ⟨number | number, state⟩ := outcome
  · exact h.settle_none hleads.sound hleads.extended hleads.idle (hleads.lost rfl)
  · exact h.settle_some hnext hleads (by simpa using List.find?_eq_none.1 hnew)

/-- Dealing with one more directive of a file. -/
theorem Fits.followInclude
    (hvisit : Visit files includePaths root active source document)
    {load : (file : FoundFile) → file.canonical ∈ files.loader.paths → file.canonical ∉ active →
      Loading → Option Nat × Loading}
    (hload : ∀ file is_file is_new state,
      Loading.Ready files includePaths root active file state →
        Loading.Leads files includePaths root active file.canonical state
          (load file is_file is_new state))
    (hincludes : document.includes = done ++ directive :: rest)
    (h : progress.Fits files includePaths root active source.path start done) :
    (Idl.followInclude files.loader includePaths active source load progress directive).Fits files
      includePaths root active source.path start (done ++ [directive]) := by
  have hdirective : directive ∈ document.includes := by simp [hincludes]
  have hpackage : packageName (includedFile directive.path.text) = directive.package := rfl
  unfold Idl.followInclude
  simp only [hpackage]
  cases hfind : progress.edges.find? (·.name == directive.package) with
  | some first =>
    exact h.refuse hvisit hdirective rfl (h.not_isLoadable_of_find? hvisit hincludes hfind)
  | none =>
    have hspec := hvisit.resolveInclude_spec hdirective progress.state.finished
    simp only
    cases houtcome : resolveInclude files.loader includePaths active progress.state.finished source
        directive with
    | refused report =>
      rw [houtcome] at hspec
      exact h.refuse hvisit hdirective hspec.1 hspec.2
    | finished tree =>
      rw [houtcome] at hspec
      obtain ⟨next, hnext, hlookup⟩ := hspec
      exact h.settle hnext hfind (h.sound.leads h.idle hlookup)
    | fresh file is_file is_new =>
      rw [houtcome] at hspec
      obtain ⟨hnext, hcanonical, hread, hlookup⟩ := hspec
      have hready := h.ready hvisit hdirective hnext hcanonical hread hlookup
      exact h.settle hnext hfind (hcanonical ▸ hload file is_file is_new progress.state hready)

end IncludeProgress

/-- Dealing with the remaining directives of a file. -/
theorem IncludeProgress.Fits.foldl
    (hvisit : Visit files includePaths root active source document)
    {load : (file : FoundFile) → file.canonical ∈ files.loader.paths → file.canonical ∉ active →
      Loading → Option Nat × Loading}
    (hload : ∀ file is_file is_new state,
      Loading.Ready files includePaths root active file state →
        Loading.Leads files includePaths root active file.canonical state
          (load file is_file is_new state))
    {start : Loading} {done rest : List IncludeDirective}
    (hincludes : document.includes = done ++ rest)
    {progress : IncludeProgress}
    (h : progress.Fits files includePaths root active source.path start done) :
    (rest.foldl (Idl.followInclude files.loader includePaths active source load) progress).Fits
      files includePaths root active source.path start document.includes := by
  induction rest generalizing done progress with
  | nil =>
    rw [hincludes, List.append_nil]
    exact h
  | cons directive rest ih =>
    rw [List.foldl_cons]
    have hdone : document.includes = done ++ [directive] ++ rest := by
      rw [hincludes, List.append_assoc, List.singleton_append]
    exact ih hdone (h.followInclude hvisit hload hincludes)

/-! ### Files -/

namespace Loading

variable {file : FoundFile} {state : Loading}

theorem Ready.visit (h : Ready files includePaths root active file state) {parsed : ParsedDocument}
    (hparsed : Source.parse ⟨file.path, file.text⟩ = .ok parsed) :
    Visit files includePaths root (file.canonical :: active) ⟨file.path, file.text⟩
      parsed.document where
  read := h.read
  parsed := ⟨parsed.nodes, hparsed⟩
  reached := h.reached
  way canonical hmem := by
    rcases List.mem_cons.1 hmem with rfl | hmem
    · exact ⟨file.path, h.canonical.symm, h.reached, .refl⟩
    · obtain ⟨path, hsame, hreached, hway⟩ := h.way canonical hmem
      exact ⟨path, hsame, hreached, hway.to_reflTransGen⟩

theorem Ready.start (h : Ready files includePaths root active file state) :
    IncludeProgress.Fits files includePaths root (file.canonical :: active) file.path state []
      ⟨[], true, state⟩ where
  sound := h.sound
  extended := .refl state
  idle := h.idle
  named _ hedge := absurd hedge List.not_mem_nil
  complete _ := ⟨.nil, List.nodup_nil, fun _ => rfl⟩
  incomplete hcomplete := absurd hcomplete.symm Bool.false_ne_true

theorem Leads.fail {start : Loading} {canonical : String} (hextended : start.Extends state)
    (hsound : state.Sound files includePaths root)
    (hidle : ∀ other ∈ canonical :: active, state.finished.lookup other = none)
    (hnew : canonical ∉ active) (hlost : state.IsLost files includePaths root) :
    Leads files includePaths root active canonical start (none, state.fail canonical) where
  sound := hsound.fail (hidle _ List.mem_cons_self) hlost
  extended := hextended.trans (extends_fail (hidle _ List.mem_cons_self))
  idle other hother := by
    have hne : other ≠ canonical := fun heq => hnew (heq ▸ hother)
    rw [Loading.fail, List.lookup_cons, beq_false_of_ne hne]
    exact hidle other (List.mem_cons_of_mem _ hother)
  lost _ := hlost
  found hnumber := absurd hnumber (Option.some_ne_none _).symm

theorem Leads.finish {start : Loading} {canonical : String} (hextended : start.Extends state)
    (hsound : state.Sound files includePaths root)
    (hidle : ∀ other ∈ canonical :: active, state.finished.lookup other = none)
    (hnew : canonical ∉ active) {tree : SourceTree}
    (hcanonical : canonical = FilePath.normalize tree.source.path)
    (htree : tree.Fits files includePaths root state.trees state.trees.length)
    (hsilent : state.failed = false → state.diagnostics = start.diagnostics) :
    Leads files includePaths root active canonical start (state.finish canonical tree) where
  sound := by
    subst hcanonical
    exact hsound.finish (hidle _ List.mem_cons_self) htree
  extended := hextended.trans (extends_finish (hidle _ List.mem_cons_self) tree)
  idle other hother := by
    have hne : other ≠ canonical := fun heq => hnew (heq ▸ hother)
    simp only [Loading.finish, List.lookup_cons, beq_false_of_ne hne]
    exact hidle other (List.mem_cons_of_mem _ hother)
  lost hnone := absurd hnone (Option.some_ne_none _)
  found hnumber := by
    obtain rfl := Option.some.inj hnumber
    exact ⟨by simp [Loading.finish], hsilent⟩

/-- Loading a file leads to its tree, or the root cannot be loaded. -/
theorem Ready.loadFile (is_file : file.canonical ∈ files.loader.paths)
    (is_new : file.canonical ∉ active) (h : Ready files includePaths root active file state) :
    Leads files includePaths root active file.canonical state
      (Idl.loadFile files.loader includePaths active file is_file is_new state) := by
  induction hsize : idleFiles files.loader active using Nat.strong_induction_on
    generalizing active file state with
  | h size ih =>
    cases hparse : Source.parse ⟨file.path, file.text⟩ with
    | error failure =>
      rw [loadFile_of_parse_eq_error is_file is_new state hparse]
      apply Leads.fail (extends_report state _ _) (h.sound.report _ _) h.idle is_new
      refine ⟨fun hnil => ?_, fun hloadable => ?_⟩
      · exact Source.locates_failure hparse (List.append_eq_nil_iff.1 hnil).2
      · obtain ⟨document, hdocument⟩ := hloadable.parses _ h.reached
        rw [MemoryFiles.document?, h.read] at hdocument
        simp [hparse, Except.toOption] at hdocument
    | ok parsed =>
      rw [loadFile_of_parse_eq_ok is_file is_new state hparse]
      have hvisit := h.visit hparse
      -- one file fewer is left for the files that are included from here
      have hload : ∀ next next_is_file next_is_new state,
          Ready files includePaths root (file.canonical :: active) next state →
            Leads files includePaths root (file.canonical :: active) next.canonical state
              (Idl.loadFile files.loader includePaths (file.canonical :: active) next next_is_file
                next_is_new state) :=
        fun next next_is_file next_is_new _ hnext =>
          ih _ (hsize ▸ idleFiles_cons_lt is_file is_new) next_is_file next_is_new hnext rfl
      have hprogress := h.start.foldl hvisit hload (List.nil_append _).symm
      rw [← followIncludes] at hprogress
      generalize followIncludes _ _ _ _ _ _ = progress at hprogress ⊢
      simp only
      cases hcomplete : progress.complete with
      | false =>
        rw [if_neg Bool.false_ne_true]
        exact Leads.fail hprogress.extended hprogress.sound hprogress.idle is_new
          (hprogress.incomplete hcomplete)
      | true =>
        obtain ⟨hedges, hdistinct, hsilent⟩ := hprogress.complete hcomplete
        rw [if_pos rfl]
        refine Leads.finish hprogress.extended hprogress.sound hprogress.idle is_new h.canonical
          ⟨h.reached, h.read, hvisit.parsed, rfl, hedges, ?_, hdistinct⟩ hsilent
        intro edge hedge
        obtain ⟨directive, -, hfits⟩ := IncludeEdge.exists_directive hedges hedge
        obtain ⟨_, _, -, htree, -⟩ := hfits.target
        exact (List.getElem?_eq_some_iff.1 htree).1

/-- Loading that leads to no tree fails. -/
theorem failed_of_loadFile {loader : Loader} {is_file : file.canonical ∈ loader.paths}
    {is_new : file.canonical ∉ active}
    (h : (Idl.loadFile loader includePaths active file is_file is_new state).1 = none) :
    (Idl.loadFile loader includePaths active file is_file is_new state).2.failed = true := by
  rw [Idl.loadFile] at h ⊢
  split at h
  · rfl
  · simp only at h ⊢
    split at h
    · cases h
    · rename_i hcomplete
      rw [if_neg hcomplete]
      rfl

/-- The tree of a file comes after all trees that are found while it is loaded. -/
theorem last_of_loadFile {loader : Loader} {is_file : file.canonical ∈ loader.paths}
    {is_new : file.canonical ∉ active} {number : Nat}
    (h : (Idl.loadFile loader includePaths active file is_file is_new state).1 = some number) :
    ∃ before tree,
      (Idl.loadFile loader includePaths active file is_file is_new state).2.trees =
        before ++ [tree] ∧ number = before.length ∧ tree.source.path = file.path := by
  rw [Idl.loadFile] at h ⊢
  split at h
  · cases h
  · simp only at h ⊢
    split at h
    · rename_i hcomplete
      rw [if_pos hcomplete]
      exact ⟨_, _, rfl, (Option.some.inj h).symm, rfl⟩
    · cases h

end Loading

end

end Idl
