import Idl.Proofs.LoadingSteps
import Idl.Proofs.NameResolution
import Idl.Proofs.PhaseDriver

/-!
# Unused includes

An include is used by a reference that begins with its package name and goes on, unless the file
declares that name itself. Whether the rest of the reference leads anywhere does not matter. Exactly
the other includes are reported, in the order of their directives.
-/
namespace Idl

/-! ### Use -/

namespace Document

/-- A name in the file begins with the package name and goes on. -/
def GoesThrough (document : Document) (package : String) : Prop :=
  ∃ name ∈ document.references, name.head.text = package ∧ name.tail ≠ []

def DeclaresName (document : Document) (name : String) : Prop :=
  ∃ declaration ∈ document.declarations, declaration.name.text = name

instance (document : Document) (package : String) : Decidable (document.GoesThrough package) :=
  inferInstanceAs (Decidable (∃ name ∈ document.references, _))

instance (document : Document) (name : String) : Decidable (document.DeclaresName name) :=
  inferInstanceAs (Decidable (∃ declaration ∈ document.declarations, _))

/-- The directives of the packages that no name goes through or that a declaration hides. -/
def unusedIncludes (document : Document) : List IncludeDirective :=
  document.includes.filter fun directive =>
    ¬ document.GoesThrough directive.package ∨ document.DeclaresName directive.package

end Document

/-- The report about an include that is not used. -/
def unusedReport (directive : IncludeDirective) : Report :=
  .error directive.path.span (.unusedInclude directive.path.text)

theorem reports_checkUnused (tree : SourceTree) (bindings : Bindings) :
    (checkUnused tree bindings).reports =
      ((tree.includes.map fun edge => (edge.name, edge.directive)).filter
        fun edge => edge.1 ∉ bindings.used).map fun edge => unusedReport edge.2 := by
  unfold checkUnused
  induction tree.includes with
  | nil => rfl
  | cons edge edges ih =>
    rw [List.map_cons, List.filter_cons]
    change Reporting.reports _ ++ Reporting.reports (edges.forM _) = _
    rw [ih]
    by_cases hused : edge.name ∈ bindings.used <;> simp [hused, unusedReport]

section

variable {program : Program} {symbols : Table Symbols} {number : Nat} {tree : SourceTree}

theorem lacks_iff_not_declaresName (tree : SourceTree) (name : String) :
    tree.Lacks name ↔ ¬ tree.document.DeclaresName name := by
  rw [tree.lacks_iff, lookup_enterSymbols, List.findIdx?_eq_none_iff]
  simp [Document.DeclaresName]

/-- A name goes through the package that it begins with, if the file does not declare the name. -/
theorem package?_resolveName_iff (hsymbols : program.HasSymbols symbols)
    (htree : program.trees[number]? = some tree) (name : Name) (package : String) :
    (resolveName symbols number tree name).package? = some package ↔
      (name.head.text = package ∧ name.tail ≠ []) ∧ ¬ tree.document.DeclaresName package ∧
        ∃ edge ∈ tree.includes, edge.name = package := by
  have hlacks := lookup_eq_none_iff hsymbols htree name.head.text
  rw [lacks_iff_not_declaresName] at hlacks
  unfold resolveName
  cases hhere : (symbols.lookup number).bind (·.lookup name.head.text) with
  | some index =>
    have hdeclares : tree.document.DeclaresName name.head.text := by
      by_contra hnot
      cases hhere.symm.trans (hlacks.2 hnot)
    refine iff_of_false nofun ?_
    rintro ⟨⟨rfl, -⟩, hnot, -⟩
    exact hnot hdeclares
  | none =>
    have hnot := hlacks.1 hhere
    cases hinclude : tree.include? name.head.text with
    | none =>
      refine iff_of_false (by simp [Resolution.package?]) ?_
      rintro ⟨⟨rfl, -⟩, -, edge, hedge, hname⟩
      simpa [hname] using List.find?_eq_none.1 hinclude edge hedge
    | some edge =>
      have hname := SourceTree.name_of_include? hinclude
      have hmem := List.mem_of_find?_eq_some hinclude
      -- whatever is found in the package, the resolution goes through it
      have hpackage : ∀ resolution : Resolution, resolution.package? = some edge.name →
          (resolution.package? = some package ↔ name.head.text = package ∧
            ¬ tree.document.DeclaresName package ∧
              ∃ edge ∈ tree.includes, edge.name = package) := by
        intro resolution hresolution
        rw [hresolution, hname, Option.some_inj]
        refine ⟨?_, fun h => h.1⟩
        rintro rfl
        exact ⟨rfl, hnot, edge, hmem, hname⟩
      cases htail : name.tail with
      | nil => simp [Resolution.package?]
      | cons member tail =>
        simp only [ne_eq, reduceCtorEq, not_false_eq_true, and_true]
        split <;> exact hpackage _ rfl

/-- A package with an include is used exactly if a name goes through it that is not declared. -/
theorem mem_used_bindNames_iff (hsymbols : program.HasSymbols symbols)
    (htree : program.trees[number]? = some tree) {package : String}
    (hpackage : ∃ edge ∈ tree.includes, edge.name = package) :
    package ∈ (bindNames symbols number tree).value.used ↔
      tree.document.GoesThrough package ∧ ¬ tree.document.DeclaresName package := by
  simp only [mem_used_bindNames, package?_resolveName_iff hsymbols htree, hpackage, and_true]
  constructor
  · rintro ⟨name, hname, hthrough, hnot⟩
    exact ⟨⟨name, hname, hthrough⟩, hnot⟩
  · rintro ⟨⟨name, hname, hthrough⟩, hnot⟩
    exact ⟨name, hname, hthrough, hnot⟩

theorem reports_checkUnused_bindNames (hsymbols : program.HasSymbols symbols)
    (htree : program.trees[number]? = some tree) (hedges : tree.FollowsDirectives) :
    (checkUnused tree (bindNames symbols number tree).value).reports =
      tree.document.unusedIncludes.map unusedReport := by
  rw [reports_checkUnused, hedges, List.filter_map, List.map_map]
  have hfilter : tree.document.includes.filter ((fun edge : String × IncludeDirective =>
      decide (edge.1 ∉ (bindNames symbols number tree).value.used)) ∘
        fun directive => (directive.package, directive)) = tree.document.unusedIncludes := by
    refine List.filter_congr fun directive hdirective => decide_eq_decide.2 ?_
    have hmem : (directive.package, directive) ∈
        tree.includes.map fun edge => (edge.name, edge.directive) := by
      rw [hedges]
      exact List.mem_map_of_mem hdirective
    obtain ⟨edge, hedge, heq⟩ := List.mem_map.1 hmem
    rw [mem_used_bindNames_iff hsymbols htree ⟨edge, hedge, congrArg Prod.fst heq⟩, not_and_or,
      not_not]
  rw [hfilter]
  rfl

end

/-- Unused includes are exact. Once the symbols and the names of all trees are entered and bound,
whatever was reported then, a tree's includes are checked with one report at the text of each
directive whose package no name of the tree goes through or a declaration of the tree hides, in the
order of the directives, and with no other. -/
theorem checkUnused_finds_unusedIncludes {loader : Loader} {includePaths : List String}
    {root : String} {program : Program} {diagnostics : List Diagnostic}
    (hload : loadProgram loader includePaths root = .ok (some program, diagnostics))
    {number : Nat} {tree : SourceTree} (htree : program.trees[number]? = some tree) :
    let entered := (Phase.enterSymbols.run program .empty).1
    let bound := (Phase.bindNames.run program entered).1
    tree.document.toNode.names = tree.document.references.map Name.toNode ∧
      ∃ bindings, bound.bindings.lookup number = some bindings ∧
        (checkUnused tree bindings).reports = tree.document.unusedIncludes.map unusedReport ∧
        tree.source.diagnose (checkUnused tree bindings).reports =
          tree.document.unusedIncludes.map fun directive =>
            ⟨.error, tree.source.path, directive.path.span,
              tree.source.lineColumn directive.path.span.start,
              .unusedInclude directive.path.text, []⟩ := by
  intro entered bound
  have hlinked := isLinked_of_loadProgram hload
  have htables := Program.hasTables hlinked
  have hmem := List.mem_of_getElem? htree
  obtain ⟨nodes, hparsed⟩ := hlinked.parsed tree hmem
  have hsymbols : program.HasSymbols program.symbolTable := fun other found hfound => by
    rw [htables.symbols, hfound, Option.map_some]
  have hreports := reports_checkUnused_bindNames hsymbols htree
    (followsDirectives_of_loadProgram hload tree hmem)
  refine ⟨tree.document.names_toNode, _, (htables.bindings number).trans (by rw [htree]; rfl),
    hreports, ?_⟩
  rw [Source.diagnose_of_within hparsed
    (within_checkUnused _ (hlinked.directives tree hmem)), hreports, List.map_map]
  refine List.map_congr_left fun directive _ => ?_
  rw [Function.comp_apply, unusedReport, Report.error, Source.place, Source.placeAll]

/-- A file that goes through one include to a name that is not there, and hides the other. -/
def hider : Source :=
  ⟨"main.thrift", "include \"c\" include \"d\" struct d \x7b c.X x d.Y y \x7d"⟩

def hiderFiles : MemoryFiles :=
  .ofList [(hider.path, hider.text), ("c.thrift", ""), ("d.thrift", "")]

def hiderDocument : ParsedDocument where
  document :=
    { namespaces := []
      includes := [⟨⟨"c", ⟨8, 11⟩⟩, ⟨0, 11⟩⟩, ⟨⟨"d", ⟨20, 23⟩⟩, ⟨12, 23⟩⟩]
      declarations := [.struct ⟨.struct, ⟨"d", ⟨31, 32⟩⟩, [
        ⟨none, none, .name ⟨⟨"c", ⟨35, 36⟩⟩, [⟨"X", ⟨37, 38⟩⟩], ⟨35, 38⟩⟩, ⟨"x", ⟨39, 40⟩⟩, none,
          ⟨35, 40⟩⟩,
        ⟨none, none, .name ⟨⟨"d", ⟨41, 42⟩⟩, [⟨"Y", ⟨43, 44⟩⟩], ⟨41, 44⟩⟩, ⟨"y", ⟨45, 46⟩⟩, none,
          ⟨41, 46⟩⟩], ⟨24, 48⟩⟩]
      span := ⟨0, 48⟩ }
  nodes := 17

theorem parse_hider : hider.parse = .ok hiderDocument := by
  decide +kernel

def hiderTrees : List SourceTree :=
  [⟨"c", ⟨"c.thrift", ""⟩, emptyDocument.document, []⟩,
    ⟨"d", ⟨"d.thrift", ""⟩, emptyDocument.document, []⟩,
    ⟨"main", hider, hiderDocument.document,
      [⟨"c", ⟨⟨"c", ⟨8, 11⟩⟩, ⟨0, 11⟩⟩, 0⟩, ⟨"d", ⟨⟨"d", ⟨20, 23⟩⟩, ⟨12, 23⟩⟩, 1⟩]⟩]

theorem loadProgram_hiderFiles :
    loadProgram hiderFiles.loader [] "main.thrift" = .ok (some ⟨hiderTrees, 2⟩, []) := by
  have hfirst := followIncludes_concat_of_fresh
    (@followIncludes_nil hiderFiles.loader [] ["main.thrift"] hider .empty)
    ⟨⟨"c", ⟨8, 11⟩⟩, ⟨0, 11⟩⟩ ⟨"c.thrift", "c.thrift", ""⟩ (by decide) (by decide) rfl rfl
    (loadFile_of_includes_eq_nil _ _ _ (parse_empty _) rfl)
  have hsecond := followIncludes_concat_of_fresh hfirst ⟨⟨"d", ⟨20, 23⟩⟩, ⟨12, 23⟩⟩
    ⟨"d.thrift", "d.thrift", ""⟩ (by decide) (by decide) rfl rfl
    (loadFile_of_includes_eq_nil _ _ _ (parse_empty _) rfl)
  exact loadProgram_of_followIncludes rfl rfl parse_hider hsecond rfl

theorem checkUnused_hiderFiles :
    loadProgram hiderFiles.loader [] "main.thrift" = .ok (some ⟨hiderTrees, 2⟩, []) ∧
      ∃ tree, hiderTrees[2]? = some tree ∧
        ∃ bindings, (Phase.bindNames.run ⟨hiderTrees, 2⟩
            (Phase.enterSymbols.run ⟨hiderTrees, 2⟩ .empty).1).1.bindings.lookup 2 =
              some bindings ∧
          tree.source.diagnose (checkUnused tree bindings).reports =
            [⟨.error, "main.thrift", ⟨20, 23⟩, ⟨1, 21⟩, .unusedInclude "d", []⟩] := by
  obtain ⟨-, bindings, hbindings, -, hdiagnostics⟩ :=
    checkUnused_finds_unusedIncludes loadProgram_hiderFiles
      (show (⟨hiderTrees, 2⟩ : Program).trees[2]? = some _ from rfl)
  refine ⟨loadProgram_hiderFiles, _, rfl, bindings, hbindings, hdiagnostics.trans ?_⟩
  rfl

end Idl
