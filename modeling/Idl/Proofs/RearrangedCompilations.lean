import Idl.Proofs.FiniteTypes
import Idl.Proofs.RearrangedAnalyses

/-!
# Compilations of rearranged programs

Files that are the same but for the order of declarations, and for types that are abbreviated by
new typedefs, are compiled to the same.
-/
namespace Idl

namespace Analysis

/-- The value of the constant that is declared at a place. -/
def constant? (analysis : Analysis) (ref : DeclRef) : Option Value :=
  (analysis.values.lookup ref.tree).bind (·.constants.lookup ref.index)

/-- The default of a field of the struct that is declared at a place. -/
def default? (analysis : Analysis) (ref : DeclRef) (field : Nat) : Option Value :=
  (analysis.values.lookup ref.tree).bind (·.defaults.lookup (ref.index, field))

end Analysis

/-- The analyses of two programs give the same values to constants and fields of the same name in
the same file. The declarations of the first program are found at their images in the second. -/
structure SameValues (program program' : Program) (analysis analysis' : Analysis)
    (image : DeclRef → DeclRef) : Prop where
  files : program.trees.map (·.source.path) = program'.trees.map (·.source.path)
  /-- An image is the declaration of the same name in the same file. -/
  named : ∀ (number : Nat) (tree tree' : SourceTree) (name : String) (index : Nat),
    program.trees[number]? = some tree → program'.trees[number]? = some tree' →
      tree.Declares name index →
        ∃ index', tree'.Declares name index' ∧ image ⟨number, index⟩ = ⟨number, index'⟩
  /-- It is the same declaration but for positions and types. -/
  declared : ∀ ref, Option.Rel (Declaration.Matches Name.Alike fun _ _ => True)
    (program.declaration? ref) (program'.declaration? (image ref))
  constants : ∀ ref declaration, program.declaration? ref = some declaration →
    (analysis.constant? ref).map (Value.rename image) = analysis'.constant? (image ref)
  defaults : ∀ ref declaration, program.declaration? ref = some declaration → ∀ field,
    (analysis.default? ref field).map (Value.rename image) = analysis'.default? (image ref) field

/-- Compilations that come to the same phase, and to the same values if they succeed. -/
structure Compilation.SameOutcome (compilation compilation' : Compilation) : Prop where
  completed : compilation.analysis.completed = compilation'.analysis.completed
  succeeded : compilation.succeeded = compilation'.succeeded
  values : compilation.succeeded = true → ∃ program program' image,
    compilation.program = some program ∧ compilation'.program = some program' ∧
      SameValues program program' compilation.analysis compilation'.analysis image

variable {names : List String} {typedefs : Nat → List TypedefDecl} {place : Nat → Nat → Nat}
  {program program' : Program} {analysis analysis' : Analysis}

theorem ValuesCorrespond.sameValues (hvalues : ValuesCorrespond place program analysis analysis')
    (h : program.Abbreviates names typedefs place program') (hdistinct : program.NamesDistinct) :
    SameValues program program' analysis analysis' (DeclRef.placed place) where
  files := by
    refine List.ext_getElem? fun number => ?_
    rw [List.getElem?_map, List.getElem?_map]
    have hpair := h.trees number
    generalize program.trees[number]? = tree at hpair ⊢
    generalize program'.trees[number]? = tree' at hpair ⊢
    cases hpair with
    | none => rfl
    | some hpair => exact congrArg some hpair.path
  named number tree tree' name index htree htree' hdeclares := by
    have hmem := List.mem_of_getElem? htree
    have hplaces := h.places number tree tree' htree htree'
    obtain ⟨declaration, hget, hname⟩ := hdeclares.named
    have hnew : ∀ decl ∈ typedefs number, decl.name.text ≠ name := by
      rintro decl hdecl rfl
      refine (h.avoids tree hmem).declared declaration (List.mem_of_getElem? hget) ?_
      exact hname ▸ h.new number decl hdecl
    refine ⟨place number index, (tree'.declares_iff _ _).2 ?_, rfl⟩
    rw [hplaces.lookup (hdistinct tree hmem) ((h.nodup_iff htree htree').1 (hdistinct tree hmem))
      hnew, (tree.declares_iff _ _).1 hdeclares, Option.map_some]
  declared ref := optionRel_imp_mem (h.declared ref) fun _ _ _ _ hmatches =>
    hmatches.imp (fun _ _ _ _ halike => halike) fun _ _ _ _ _ => trivial
  constants ref declaration hdecl := by
    obtain ⟨tree, htree, -⟩ := Option.bind_eq_some_iff.1 hdecl
    obtain ⟨values, values', hlookup, hlookup', hsame⟩ := hvalues ref.tree tree htree
    have hlookup' : analysis'.values.lookup (ref.placed place).tree = some values' := hlookup'
    rw [Analysis.constant?, Analysis.constant?, hlookup, hlookup', Option.bind_some,
      Option.bind_some]
    exact hsame.constants ref.index
  defaults ref declaration hdecl field := by
    obtain ⟨tree, htree, -⟩ := Option.bind_eq_some_iff.1 hdecl
    obtain ⟨values, values', hlookup, hlookup', hsame⟩ := hvalues ref.tree tree htree
    have hlookup' : analysis'.values.lookup (ref.placed place).tree = some values' := hlookup'
    rw [Analysis.default?, Analysis.default?, hlookup, hlookup', Option.bind_some,
      Option.bind_some]
    exact hsame.defaults ref.index field

section

variable {files files' : MemoryFiles} {includePaths : List String} {root : String}
  {good : List TypedefDecl → Prop}

/-- Documents in which types are abbreviated by good typedefs. -/
def Document.AbbreviatesBy (good : List TypedefDecl → Prop) (document document' : Document) :
    Prop :=
  ∃ typedefs, good typedefs ∧ document.Abbreviates typedefs document'

theorem Document.AbbreviatesBy.keepsIncludes : KeepsIncludes (Document.AbbreviatesBy good) :=
  fun _ _ ⟨_, _, h⟩ => h.rearranges.includes

/-- No name is declared or used in a file that the root reaches. -/
def MemoryFiles.Avoids (files : MemoryFiles) (includePaths : List String) (root : String)
    (names : List String) : Prop :=
  ∀ path document, files.Reaches includePaths root path → files.document? path = some document →
    document.Avoids names

/-- Every file that the root reaches has a tree in the program that is loaded. -/
theorem MemoryFiles.avoids_of_loadProgram {program : Program} {diagnostics : List Diagnostic}
    (hload : loadProgram files.loader includePaths root = .ok (some program, diagnostics))
    (h : ∀ tree ∈ program.trees, tree.document.Avoids names) :
    files.Avoids includePaths root names := by
  intro path document hpath hdocument
  obtain ⟨state, number, rfl, hstate⟩ := exists_isComplete_of_loadProgram hload
  obtain ⟨other, tree, htree, -, htreeDocument⟩ := hstate.exists_respelled hpath
  obtain rfl := Option.some.inj (htreeDocument.symm.trans hdocument)
  exact h tree (List.mem_of_getElem? htree)

theorem analyze_of_pairs {program program' : Program} {diagnostics diagnostics' : List Diagnostic}
    (hload : loadProgram files.loader includePaths root = .ok (some program, diagnostics))
    (hload' : loadProgram files'.loader includePaths root = .ok (some program', diagnostics'))
    (hnil : good [])
    (hnew : ∀ typedefs, good typedefs → (∀ decl ∈ typedefs, decl.name.text ∈ names) ∧
      (typedefs.map (·.name.text)).Nodup)
    (havoids : files.Avoids includePaths root names)
    (hpairs : program.Pairs (Document.AbbreviatesBy good) program') :
    ∃ typedefs place, (∀ number, good (typedefs number)) ∧
      program.Abbreviates names typedefs place program' ∧
        ∀ same : Prop, (same → program.NamesDistinct ∧ ∀ typedefs, good typedefs → typedefs = []) →
          OutcomesCorrespond place program same program.analyze program'.analyze := by
  obtain ⟨state, number, rfl, hstate⟩ := exists_isComplete_of_loadProgram hload
  obtain ⟨state', number', rfl, hstate'⟩ := exists_isComplete_of_loadProgram hload'
  have havoids : ∀ tree ∈ state.trees, tree.document.Avoids names := by
    intro tree htree
    obtain ⟨other, hother⟩ := List.getElem?_of_mem htree
    have hfits := hstate.sound.fits hother
    exact havoids tree.source.path tree.document hfits.reached hfits.document?
  obtain ⟨typedefs, place, hgood, h⟩ := hpairs.exists_abbreviates hnil hnew havoids
  refine ⟨typedefs, place, hgood, h, fun same hsame => ?_⟩
  exact .analyze hstate hstate' h (fun holds number => (hsame holds).2 _ (hgood number))
    fun holds => (hsame holds).1

theorem namesDistinct_of_completed {program : Program} {diagnostics : List Diagnostic}
    (hload : loadProgram files.loader includePaths root = .ok (some program, diagnostics))
    (hcompleted : program.analyze.1.completed = some .checkUnused) : program.NamesDistinct := by
  obtain ⟨state, number, rfl, hstate⟩ := exists_isComplete_of_loadProgram hload
  have hanalysis := Program.isAnalyzed_analyze ⟨state.trees, number⟩ (by simp [hcompleted])
  exact (hstate.isClean hanalysis).namesDistinct

/-- Files in pairs, in which types may be abbreviated by new typedefs, are compiled to the same. -/
theorem compile_of_pairs (hfiles : files.Pairs (Document.AbbreviatesBy good) files')
    (hnil : good [])
    (hnew : ∀ typedefs, good typedefs → (∀ decl ∈ typedefs, decl.name.text ∈ names) ∧
      (typedefs.map (·.name.text)).Nodup)
    (havoids : files.Avoids includePaths root names) :
    (∀ failure, compile files.loader includePaths root = .error failure ↔
      compile files'.loader includePaths root = .error failure) ∧
    ∀ compilation compilation', compile files.loader includePaths root = .ok compilation →
      compile files'.loader includePaths root = .ok compilation' →
        compilation.SameOutcome compilation' ∧
        ((∀ typedefs, good typedefs → typedefs = []) →
          (∀ program, compilation.program = some program → program.NamesDistinct) →
            (compilation.diagnostics.map Diagnostic.gist).Perm
              (compilation'.diagnostics.map Diagnostic.gist)) := by
  have hrefl (document : Document) : document.AbbreviatesBy good document :=
    ⟨[], hnil, (Document.Reorders.refl document).abbreviates⟩
  rcases loadProgram_pairs includePaths Document.AbbreviatesBy.keepsIncludes hrefl hfiles root with
    ⟨failure, hload, hload'⟩ | ⟨_, _, diagnostics, diagnostics', hload, hload', hpairs, hgists⟩
  · have hcompile : compile files.loader includePaths root = .error failure := by
      rw [compile, hload]
    have hcompile' : compile files'.loader includePaths root = .error failure := by
      rw [compile, hload']
    rw [hcompile, hcompile']
    refine ⟨fun _ => Iff.rfl, fun _ _ h => ?_⟩
    cases h
  · rw [compile_of_loadProgram hload, compile_of_loadProgram hload']
    constructor
    · intro failure
      constructor <;> rintro ⟨⟩
    rintro _ _ ⟨⟩ ⟨⟩
    cases hpairs with
    | none => exact ⟨⟨rfl, rfl, fun h => absurd h Bool.false_ne_true⟩, fun _ _ => .of_eq hgists⟩
    | @some program program' hpairs =>
      obtain ⟨typedefs, place, -, h, houtcome⟩ :=
        analyze_of_pairs hload hload' hnil hnew havoids hpairs
      have hcompleted := (houtcome False False.elim).completed
      refine ⟨⟨hcompleted, ?_, fun hsucceeded => ?_⟩, fun hgood hdistinct => ?_⟩
      · exact congrArg (fun completed => true && decide (completed = some Phase.checkUnused))
          hcompleted
      · have hfinished : program.analyze.1.completed = some .checkUnused :=
          (Analysis.succeeded_iff _).1 (Bool.and_eq_true_iff.1 hsucceeded).2
        exact ⟨program, program', DeclRef.placed place, rfl, rfl,
          ((houtcome False False.elim).values hfinished).sameValues h
            (namesDistinct_of_completed hload hfinished)⟩
      · have hperm := (houtcome True fun _ => ⟨hdistinct program rfl, hgood⟩).gists trivial
        simp only [Compilation.ofLoaded, List.map_append, hgists]
        exact hperm.append_left _

end

end Idl
