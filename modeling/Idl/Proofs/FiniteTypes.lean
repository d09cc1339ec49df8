import Idl.Proofs.CompiledValues
import Idl.Proofs.Unfolding

/-!
# Types that can be written out

Compilation refuses typedef chains that come back to themselves, but it lets a typedef stand for a
list or map that holds the typedef again. So the types of a program that compiles can be written out
without typedefs, except those that mention a typedef of this kind.
-/
namespace Idl

open Relation

namespace Resolver

variable {resolver : Resolver}

theorem IsFinite.of_unfolds {type next : LocatedType} (h : resolver.IsFinite type)
    (hstep : ReflTransGen resolver.Unfolds type next) : resolver.IsFinite next := by
  induction hstep with
  | refl => exact h
  | tail _ hstep ih => exact ih.inv hstep

/-- A type that unfolds to itself unfolds forever. -/
theorem not_isFinite_of_cycle {type : LocatedType} (h : TransGen resolver.Unfolds type type) :
    ¬ resolver.IsFinite type := by
  intro hfinite
  induction hfinite with
  | intro type _ ih =>
    obtain ⟨next, hstep, hback⟩ := TransGen.head'_iff.1 h
    exact ih next hstep (TransGen.tail' hback hstep)

/-- A type is finite if the typedefs that it mentions are, going by a list of all of them. -/
theorem isFinite_of_mentions (hend : resolver.TypedefsEnd) (unexpanded : List DeclRef)
    {type : LocatedType} (hmentioned : ∀ typedef, resolver.Mentions type typedef →
      typedef ∈ unexpanded ∧ ¬ resolver.NestsItself typedef) : resolver.IsFinite type := by
  induction hlength : unexpanded.length using Nat.strong_induction_on
    generalizing unexpanded type with
  | _ length ih =>
    obtain ⟨tree, type⟩ := type
    induction type with
    | builtin builtin span => exact .intro _ fun next hstep => absurd hstep not_unfolds_builtin
    | list element span ihElement =>
      refine .intro _ fun next hstep => ?_
      obtain rfl := unfolds_list_iff.1 hstep
      exact ihElement fun typedef h => hmentioned typedef (h.of_unfolds (.single hstep))
    | map key value span ihKey ihValue =>
      refine .intro _ fun next hstep => ?_
      rcases unfolds_map_iff.1 hstep with rfl | rfl
      · exact ihKey fun typedef h => hmentioned typedef (h.of_unfolds (.single hstep))
      · exact ihValue fun typedef h => hmentioned typedef (h.of_unfolds (.single hstep))
    | name name =>
      refine .intro _ fun next hstep => ?_
      obtain ⟨typedef, halias⟩ := unfolds_name_iff.1 hstep
      obtain ⟨hmem, hunnested⟩ := hmentioned typedef (holds_of_refl ⟨next, halias⟩)
      have hfinite : ¬ resolver.Mentions next typedef :=
        fun h => hunnested (nestsItself_of_mentions hend halias.typedef?_eq h)
      refine ih _ (hlength ▸ length_erase_lt hmem) _ (fun other h => ⟨?_, ?_⟩) rfl
      · exact mem_erase_of_mentions (.single hstep) (fun _ h => (hmentioned _ h).1) hfinite h
      · exact (hmentioned other (h.of_unfolds (.single hstep))).2

/-- A type can be written out unless it mentions a typedef that comes back to itself. -/
theorem isFinite_iff (hend : resolver.TypedefsEnd) (type : LocatedType) :
    resolver.IsFinite type ↔
      ∀ typedef, resolver.Mentions type typedef → ¬ resolver.NestsItself typedef := by
  constructor
  · rintro hfinite typedef ⟨part, hpart, next, halias⟩ hnests
    obtain ⟨target, htarget, last, hlast, following, hback⟩ := mentions_of_nestsItself hnests
    obtain rfl := Option.some.inj (halias.typedef?_eq.symm.trans htarget)
    obtain rfl := Option.some.inj (hback.typedef?_eq.symm.trans htarget)
    have hcycle := TransGen.tail' hlast (.typedef ⟨typedef, hback⟩)
    exact not_isFinite_of_cycle hcycle
      (hfinite.of_unfolds (hpart.tail (.typedef ⟨typedef, halias⟩)))
  · intro hunnested
    exact isFinite_of_mentions hend resolver.typedefs fun typedef h =>
      ⟨mem_typedefs_of_mentions h, hunnested typedef h⟩

end Resolver

/-- A successful compilation has gone through all phases without a diagnostic. -/
theorem isAnalyzed_of_compile {files : MemoryFiles} {includePaths : List String} {root : String}
    {compilation : Compilation}
    (hcompile : compile files.loader includePaths root = .ok compilation)
    (hsucceeded : compilation.succeeded = true) :
    ∃ (state : Loading) (number : Nat), compilation.program = some ⟨state.trees, number⟩ ∧
      state.IsComplete files includePaths root number ∧
      Program.IsAnalyzed ⟨state.trees, number⟩ compilation.analysis := by
  obtain ⟨program?, diagnostics, hload, rfl⟩ := exists_ofLoaded_of_compile hcompile
  cases program? with
  | none => cases hsucceeded
  | some program =>
    obtain ⟨state, number, rfl, hstate⟩ := exists_isComplete_of_loadProgram hload
    have hcompleted : (Program.analyze ⟨state.trees, number⟩).1.completed = some .checkUnused :=
      (Analysis.succeeded_iff _).1 hsucceeded
    refine ⟨state, number, rfl, hstate, Program.isAnalyzed_analyze ⟨state.trees, number⟩ ?_⟩
    rw [hcompleted]
    decide

/-- If a program compiles, then the types written in it are finite, except those that mention a
typedef that comes back to itself in a list or map. -/
theorem isFinite_iff_of_compile (files : MemoryFiles) (includePaths : List String) (root : String)
    {compilation : Compilation}
    (hcompile : compile files.loader includePaths root = .ok compilation)
    (hsucceeded : compilation.succeeded = true) :
    ∃ program, compilation.program = some program ∧
      ∀ type, (compilation.analysis.resolver program).IsWritten type →
        ((compilation.analysis.resolver program).IsFinite type ↔
          ∀ typedef, (compilation.analysis.resolver program).Mentions type typedef →
            ¬ (compilation.analysis.resolver program).NestsItself typedef) := by
  obtain ⟨state, number, hprogram, hstate, hanalysis⟩ := isAnalyzed_of_compile hcompile hsucceeded
  have hend := Resolver.typedefsEnd_of_isChecked (hstate.isChecked hanalysis)
  exact ⟨_, hprogram, fun type _ => Resolver.isFinite_iff hend type⟩

/-- A file with a typedef of a map whose parts are given by another typedef, and with a typedef of a
list of itself. -/
def layerSource : Source :=
  ⟨"main.thrift", "typedef i32 T typedef map<T, list<T>> M typedef list<A> A"⟩

def layerFiles : MemoryFiles := .ofList [(layerSource.path, layerSource.text)]

def layerName (text : String) (start : Nat) : Name :=
  ⟨⟨text, ⟨start, start + 1⟩⟩, [], ⟨start, start + 1⟩⟩

def layerMap : TypeRef :=
  .map (.name (layerName "T" 26)) (.list (.name (layerName "T" 34)) ⟨29, 36⟩) ⟨22, 37⟩

def layerList : TypeRef := .list (.name (layerName "A" 53)) ⟨48, 55⟩

def layerTree : SourceTree where
  package := "main"
  source := layerSource
  document :=
    { namespaces := []
      includes := []
      declarations := [
        .typedef ⟨.builtin .i32 ⟨8, 11⟩, ⟨"T", ⟨12, 13⟩⟩, ⟨0, 13⟩⟩,
        .typedef ⟨layerMap, ⟨"M", ⟨38, 39⟩⟩, ⟨14, 39⟩⟩,
        .typedef ⟨layerList, ⟨"A", ⟨56, 57⟩⟩, ⟨40, 57⟩⟩]
      span := ⟨0, 57⟩ }
  includes := []

theorem parse_layerSource : layerSource.parse = .ok ⟨layerTree.document, 17⟩ := by
  decide +kernel

theorem loadProgram_layerFiles :
    loadProgram layerFiles.loader [] "main.thrift" = .ok (some ⟨[layerTree], 0⟩, []) :=
  loadProgram_of_includes_eq_nil layerSource rfl rfl parse_layerSource rfl

theorem completed_layerTree :
    (Program.analyze ⟨[layerTree], 0⟩).1.completed = some .checkUnused := by
  decide +kernel

def layerResolver : Resolver := (Program.analyze ⟨[layerTree], 0⟩).1.resolver ⟨[layerTree], 0⟩

theorem aliases_layerName :
    layerResolver.Aliases ⟨0, .name (layerName "T" 26)⟩ ⟨0, 0⟩ ⟨0, .builtin .i32 ⟨8, 11⟩⟩ ∧
      layerResolver.Aliases ⟨0, .name (layerName "T" 34)⟩ ⟨0, 0⟩ ⟨0, .builtin .i32 ⟨8, 11⟩⟩ ∧
      layerResolver.Aliases ⟨0, .name (layerName "A" 53)⟩ ⟨0, 2⟩ ⟨0, layerList⟩ := by
  refine ⟨⟨_, rfl, ?_, rfl⟩, ⟨_, rfl, ?_, rfl⟩, ⟨_, rfl, ?_, rfl⟩⟩
  all_goals decide +kernel

theorem mentions_layerMap_iff {typedef : DeclRef} :
    layerResolver.Mentions ⟨0, layerMap⟩ typedef ↔ typedef = ⟨0, 0⟩ := by
  obtain ⟨hkey, hvalue, -⟩ := aliases_layerName
  rw [Resolver.mentions_iff_exists_name]
  simp [layerMap, TypeRef.references, Resolver.mentions_aliases_iff hkey,
    Resolver.mentions_aliases_iff hvalue, Resolver.not_mentions_builtin]

/-- The map can be written out, and the list of itself cannot. -/
theorem isFinite_layerFiles :
    ∃ compilation program, compile layerFiles.loader [] "main.thrift" = .ok compilation ∧
      compilation.succeeded = true ∧ compilation.program = some program ∧
      (compilation.analysis.resolver program).IsWritten ⟨0, layerMap⟩ ∧
      (compilation.analysis.resolver program).Mentions ⟨0, layerMap⟩ ⟨0, 0⟩ ∧
      (compilation.analysis.resolver program).IsFinite ⟨0, layerMap⟩ ∧
      (compilation.analysis.resolver program).IsWritten ⟨0, layerList⟩ ∧
      ¬ (compilation.analysis.resolver program).IsFinite ⟨0, layerList⟩ := by
  have hcompile := compile_of_loadProgram loadProgram_layerFiles
  have hsucceeded : (Compilation.ofLoaded [] (some ⟨[layerTree], 0⟩)).succeeded = true :=
    (Analysis.succeeded_iff _).2 completed_layerTree
  obtain ⟨_, hprogram, hiff⟩ :=
    isFinite_iff_of_compile layerFiles [] "main.thrift" hcompile hsucceeded
  obtain rfl := Option.some.inj hprogram
  obtain ⟨hkey, -, hlist⟩ := aliases_layerName
  have hmap : layerResolver.IsWritten ⟨0, layerMap⟩ :=
    ⟨layerTree, rfl, _, List.mem_cons_of_mem _ List.mem_cons_self, List.mem_cons_self⟩
  have hlast : layerResolver.IsWritten ⟨0, layerList⟩ :=
    ⟨layerTree, rfl, _, List.mem_cons_of_mem _ (List.mem_cons_of_mem _ List.mem_cons_self),
      List.mem_cons_self⟩
  refine ⟨_, _, hcompile, hsucceeded, rfl, hmap, mentions_layerMap_iff.2 rfl, (hiff _ hmap).2 ?_,
    hlast, mt (hiff _ hlast).1 fun hunnested => ?_⟩
  · intro typedef hmentions
    obtain rfl := mentions_layerMap_iff.1 hmentions
    rintro ⟨target, htarget, hholds⟩
    obtain rfl := Option.some.inj (hkey.typedef?_eq.symm.trans htarget)
    obtain ⟨part, hpart, -⟩ := Resolver.holds_builtin_iff.1 hholds
    cases hpart
  · have hname : layerResolver.Mentions ⟨0, .name (layerName "A" 53)⟩ ⟨0, 2⟩ :=
      Resolver.holds_of_refl ⟨_, hlist⟩
    exact hunnested _ (Resolver.holds_list_iff.2 (.inr hname))
      ⟨_, hlist.typedef?_eq, _, .refl, _, .element, hname⟩

/-- A file with a typedef of a list of itself. -/
def nestSource : Source := ⟨"main.thrift", "typedef list<A> A"⟩

def nestFiles : MemoryFiles := .ofList [(nestSource.path, nestSource.text)]

/-- The name of the typedef inside its own type. -/
def nestName : Name := ⟨⟨"A", ⟨13, 14⟩⟩, [], ⟨13, 14⟩⟩

def nestDocument : ParsedDocument where
  document :=
    { namespaces := []
      includes := []
      declarations := [.typedef ⟨.list (.name nestName) ⟨8, 15⟩, ⟨"A", ⟨16, 17⟩⟩, ⟨0, 17⟩⟩]
      span := ⟨0, 17⟩ }
  nodes := 6

theorem parse_nestSource : nestSource.parse = .ok nestDocument := by
  decide +kernel

def nestTree : SourceTree where
  package := "main"
  source := nestSource
  document := nestDocument.document
  includes := []

theorem loadProgram_nestFiles :
    loadProgram nestFiles.loader [] "main.thrift" = .ok (some ⟨[nestTree], 0⟩, []) :=
  loadProgram_of_includes_eq_nil nestSource rfl rfl parse_nestSource rfl

theorem compile_nestFiles :
    ∃ compilation, compile nestFiles.loader [] "main.thrift" = .ok compilation ∧
      compilation.succeeded = true ∧ compilation.program = some ⟨[nestTree], 0⟩ ∧
      compilation.analysis = (Program.analyze ⟨[nestTree], 0⟩).1 := by
  have hcompleted : (Program.analyze ⟨[nestTree], 0⟩).1.completed = some .checkUnused := by
    decide +kernel
  exact ⟨_, compile_of_loadProgram loadProgram_nestFiles, (Analysis.succeeded_iff _).2 hcompleted,
    rfl, rfl⟩

theorem aliases_nestTree :
    ((Program.analyze ⟨[nestTree], 0⟩).1.resolver ⟨[nestTree], 0⟩).Aliases
      ⟨0, .name nestName⟩ ⟨0, 0⟩ ⟨0, .list (.name nestName) ⟨8, 15⟩⟩ := by
  refine ⟨nestName, rfl, ?_, rfl⟩
  decide +kernel

/-- A list that has itself as its element: the file compiles, but the type never ends. -/
theorem not_isFinite_nestFiles :
    ∃ compilation program, compile nestFiles.loader [] "main.thrift" = .ok compilation ∧
      compilation.succeeded = true ∧ compilation.program = some program ∧
      ∃ type, (compilation.analysis.resolver program).IsWritten type ∧
        ¬ (compilation.analysis.resolver program).IsFinite type := by
  obtain ⟨compilation, hcompile, hsucceeded, hprogram, hanalysis⟩ := compile_nestFiles
  refine ⟨compilation, _, hcompile, hsucceeded, hprogram, ⟨0, .list (.name nestName) ⟨8, 15⟩⟩,
    ⟨nestTree, rfl, _, List.mem_cons_self, List.mem_cons_self⟩, ?_⟩
  rw [hanalysis]
  exact Resolver.not_isFinite_of_cycle
    (.tail (.single (.part .element)) (.typedef ⟨⟨0, 0⟩, aliases_nestTree⟩))

end Idl
