import Idl.Proofs.EmbeddedPrograms
import Idl.Proofs.RearrangedCompilations

/-!
# Included files on their own

A file that is compiled as part of a program compiles on its own: its program is the part of the
first one that it reaches by includes, and constants and fields have the same values there. The same
file can be reached by another spelling of its path and have another number, but includes are
resolved from the file's canonical place.
-/
namespace Idl

section

variable {files : MemoryFiles} {includePaths : List String} {root path : String}

theorem MemoryFiles.IsLoadable.of_reaches (h : files.IsLoadable includePaths root)
    (hpath : files.Reaches includePaths root path) : files.IsLoadable includePaths path where
  parses other hother := h.parses other (hpath.trans hother)
  resolves other document hother := h.resolves other document (hpath.trans hother)
  distinct other document hother := h.distinct other document (hpath.trans hother)
  acyclic other next hother := h.acyclic other next (hpath.trans hother)

/-- A file of a program can be loaded on its own. -/
theorem exists_isComplete_of_reaches {number : Nat} {state : Loading}
    (h : state.IsComplete files includePaths root number) {text : String}
    (hread : files.read path = .ok text) (hpath : files.Reaches includePaths root path) :
    ∃ (part : Loading) (number' : Nat),
      loadProgram files.loader includePaths path = .ok (some ⟨part.trees, number'⟩, []) ∧
        part.IsComplete files includePaths path number' := by
  obtain ⟨number?, part, hload, hsound, hcomplete⟩ :=
    @loadRoot_spec files includePaths path text hread
  have hfailed : part.failed = false := by
    cases hfailed : part.failed with
    | false => rfl
    | true => exact absurd (h.isLoadable.of_reaches hpath) (hsound.failed hfailed).2
  obtain ⟨number', rfl, hdiagnostics, hpart⟩ := hcomplete hfailed
  refine ⟨part, number', ?_, hpart⟩
  rw [loadProgram, hload]
  simp only [Except.map, hfailed, hdiagnostics, Bool.false_eq_true, if_false, Option.map_some]

/-! ### The part of a program -/

theorem map_eq_of_forall₂ {α β γ : Type} {r : α → β → Prop} {s : α → γ → Prop} {f : β → γ}
    {list : List α} {images : List β} {others : List γ} (h : List.Forall₂ r list images)
    (h' : List.Forall₂ s list others) (hf : ∀ a b c, r a b → s a c → f b = c) :
    images.map f = others := by
  induction h generalizing others with
  | nil =>
    cases h'
    rfl
  | cons head _ ih =>
    cases h' with
    | cons head' tail' => rw [List.map_cons, hf _ _ _ head head', ih tail']

/-- Trees of the part are found in the whole, and the places of other numbers are past its end. -/
structure Loading.Finds (place : Nat → Nat) (part whole : Loading) : Prop where
  found : ∀ {number : Nat} {tree : SourceTree}, part.trees[number]? = some tree →
    ∃ other, whole.trees[place number]? = some other ∧
      FilePath.Respells other.source.path tree.source.path
  outside : ∀ {number : Nat}, part.trees[number]? = none →
    place number = whole.trees.length + number

namespace Loading.IsComplete

variable {whole part : Loading} {number number' : Nat} {place : Nat → Nat}

/-- The trees that are loaded for a file of a program are found in the program. -/
theorem exists_finds (h : whole.IsComplete files includePaths root number)
    (hpart : part.IsComplete files includePaths path number')
    (hpath : files.Reaches includePaths root path) : ∃ place, Loading.Finds place part whole := by
  have hexists (number : Nat) : ∃ found, (∀ tree, part.trees[number]? = some tree →
      ∃ other, whole.trees[found]? = some other ∧
        FilePath.Respells other.source.path tree.source.path) ∧
      (part.trees[number]? = none → found = whole.trees.length + number) := by
    cases htree : part.trees[number]? with
    | none => exact ⟨whole.trees.length + number, nofun, fun _ => rfl⟩
    | some tree =>
      obtain ⟨found, other, hother, hrespells, -⟩ :=
        h.exists_respelled (hpath.trans (hpart.sound.fits htree).reached)
      exact ⟨found, fun _ heq => Option.some.inj heq ▸ ⟨other, hother, hrespells⟩, nofun⟩
  choose place hfound houtside using hexists
  exact ⟨place, hfound _ _, houtside _⟩

/-- Only a tree of the same file is found at the same place. -/
theorem injective_of_finds (hpart : part.IsComplete files includePaths path number')
    (hfinds : Loading.Finds place part whole) : Function.Injective place := by
  have hinside {first second : Nat} {tree : SourceTree} (htree : part.trees[first]? = some tree)
      (hsame : place first = place second) : first = second := by
    obtain ⟨other, hother, hrespells⟩ := hfinds.found htree
    cases htree' : part.trees[second]? with
    | none =>
      have hlt := (List.getElem?_eq_some_iff.1 hother).1
      rw [hsame, hfinds.outside htree'] at hlt
      omega
    | some tree' =>
      obtain ⟨other', hother', hrespells'⟩ := hfinds.found htree'
      obtain rfl := Option.some.inj (hother.symm.trans (hsame ▸ hother'))
      exact hpart.eq_of_normalize_eq htree htree'
        (hrespells.normalize_eq.symm.trans hrespells'.normalize_eq)
  intro first second hsame
  cases hfirst : part.trees[first]? with
  | some tree => exact hinside hfirst hsame
  | none =>
    cases hsecond : part.trees[second]? with
    | some tree => exact (hinside hsecond hsame.symm).symm
    | none =>
      rw [hfinds.outside hfirst, hfinds.outside hsecond] at hsame
      exact Nat.add_left_cancel hsame

/-- A tree that is found has the same document, and its edges lead to trees of the same files. -/
theorem standsFor (h : whole.IsComplete files includePaths root number)
    (hpart : part.IsComplete files includePaths path number')
    (hfinds : Loading.Finds place part whole) {first : Nat} {tree other : SourceTree}
    (htree : part.trees[first]? = some tree) (hother : whole.trees[place first]? = some other)
    (hrespells : FilePath.Respells other.source.path tree.source.path) :
    tree.StandsFor place other := by
  have hfits := hpart.sound.fits htree
  have hfits' := h.sound.fits hother
  have hdocument : tree.document = other.document := by
    have hsame := @MemoryFiles.document?_congr files _ _ hrespells.normalize_eq
    rw [hfits.document?, hfits'.document?] at hsame
    exact (Option.some.inj hsame).symm
  refine ⟨hrespells.normalize_eq.symm, ?_, hdocument, ?_⟩
  · have hsame := @MemoryFiles.read_congr files _ _ hrespells.normalize_eq
    rw [hfits.read, hfits'.read] at hsame
    exact (Except.ok.inj hsame).symm
  · refine map_eq_of_forall₂ hfits.edges (hdocument ▸ hfits'.edges) ?_
    intro directive edge edge' hedge hedge'
    -- both edges lead to the file that the directive leads to
    obtain ⟨next, target, hnext, htarget, hfile⟩ := hedge.target
    obtain ⟨next', target', hnext', htarget', hfile'⟩ := (hedge'.respell hrespells).target
    obtain rfl := Option.some.inj (hnext.symm.trans hnext')
    obtain ⟨found, hfound, hsame⟩ := hfinds.found htarget
    have hnumber : place edge.tree = edge'.tree := h.eq_of_normalize_eq hfound htarget'
      (hsame.normalize_eq.trans (hfile.trans hfile'.symm))
    have hname : edge.name = edge'.name := hedge.name_eq.trans hedge'.name_eq.symm
    have horigin : edge.directive = edge'.directive := hedge.origin.trans hedge'.origin.symm
    rw [IncludeEdge.moved, hnumber, hname, horigin]

/-- The program of an included file is embedded in the program. -/
theorem embeds (h : whole.IsComplete files includePaths root number)
    (hpart : part.IsComplete files includePaths path number')
    (hfinds : Loading.Finds place part whole) :
    Program.Embeds place ⟨part.trees, number'⟩ ⟨whole.trees, number⟩ where
  injective := hpart.injective_of_finds hfinds
  trees first := by
    change Option.Rel _ part.trees[first]? whole.trees[place first]?
    cases htree : part.trees[first]? with
    | none =>
      rw [hfinds.outside htree, List.getElem?_eq_none (Nat.le_add_right _ _)]
      exact .none
    | some tree =>
      obtain ⟨other, hother, hrespells⟩ := hfinds.found htree
      rw [hother]
      exact .some (h.standsFor hpart hfinds htree hother hrespells)

end Loading.IsComplete

end

/-! ### Compiling an included file -/

/-- The values of a program's constants and fields are those that the declarations they stand for
have in another one, up to the numbers of trees. -/
structure Analysis.KeepsValues (place : Nat → Nat) (analysis whole : Analysis) : Prop where
  constants : ∀ ref, (analysis.constant? ref).map (Value.rename (DeclRef.moved place)) =
    whole.constant? (ref.moved place)
  defaults : ∀ ref field,
    (analysis.default? ref field).map (Value.rename (DeclRef.moved place)) =
      whole.default? (ref.moved place) field

namespace Program.Embeds

variable {place : Nat → Nat} {part whole : Program} (h : part.Embeds place whole)
  (hpart : part.IsLinked) (hwhole : whole.IsLinked) (hflawless : whole.IsFlawless)

include h hpart hwhole hflawless

theorem rel_lookup_values (number : Nat) :
    Option.Rel (Values.Corresponds (DeclRef.moved place) id)
      (part.analyze.1.values.lookup number) (whole.analyze.1.values.lookup (place number)) := by
  rw [(h.isFlawless hpart hwhole hflawless).values_analyze hpart, hflawless.values_analyze hwhole,
    (hasTables hpart).values, (hasTables hwhole).values]
  cases htree : part.trees[number]? with
  | none =>
    rw [h.getElem?_eq_none htree]
    exact .none
  | some tree =>
    obtain ⟨other, hother, -⟩ := h.exists_tree htree
    rw [hother]
    exact .some (h.values_correspond hpart hwhole hflawless htree hother)

theorem keepsValues : part.analyze.1.KeepsValues place whole.analyze.1 := by
  have hlookup := h.rel_lookup_values hpart hwhole hflawless
  constructor
  · intro ref
    unfold Analysis.constant?
    rcases optionRel_cases (hlookup ref.tree) with ⟨hnone, hnone'⟩ | ⟨_, _, hsome, hsome', hsame⟩
    · rw [DeclRef.moved, hnone, hnone']
      rfl
    · rw [DeclRef.moved, hsome, hsome']
      exact hsame.constants ref.index
  · intro ref field
    unfold Analysis.default?
    rcases optionRel_cases (hlookup ref.tree) with ⟨hnone, hnone'⟩ | ⟨_, _, hsome, hsome', hsame⟩
    · rw [DeclRef.moved, hnone, hnone']
      rfl
    · rw [DeclRef.moved, hsome, hsome']
      exact hsame.defaults ref.index field

end Program.Embeds

/-- Included files compile on their own. If a compilation succeeds, every tree of its program can be
the root: this compilation succeeds as well, its program has exactly the trees of the files that the
root reaches, which are those that its tree reaches in the first program, and every constant and
every field default has its value, the same as in the first program. -/
theorem compile_included (files : MemoryFiles) (includePaths : List String) {root : String}
    {compilation : Compilation} {program : Program} {number : Nat} {tree : SourceTree}
    (hcompile : compile files.loader includePaths root = .ok compilation)
    (hsucceeded : compilation.succeeded = true) (hprogram : compilation.program = some program)
    (htree : program.trees[number]? = some tree) :
    ∃ compilation' part place,
      compile files.loader includePaths tree.source.path = .ok compilation' ∧
      compilation'.succeeded = true ∧ compilation'.program = some part ∧
      part.Represents files includePaths tree.source.path ∧
      part.Embeds place program ∧
      (∀ other, Relation.ReflTransGen (Links program.trees) number other ↔
        ∃ number' < part.trees.length, place number' = other) ∧
      compilation'.analysis.KeepsValues place compilation.analysis ∧
      ∀ number' tree', part.trees[number']? = some tree' →
        ∃ values, compilation'.analysis.values.lookup number' = some values ∧
          values.IsComplete tree'.document := by
  obtain ⟨diagnostics, hload, hanalysis⟩ := exists_loadProgram_of_compile hcompile hprogram
  have hwhole := isLinked_of_loadProgram hload
  have hflawless : program.IsFlawless := by
    rw [← Program.succeeded_iff_isFlawless hwhole, ← hanalysis]
    exact (Bool.and_eq_true_iff.1 hsucceeded).2
  obtain ⟨state, root', rfl, hstate⟩ := exists_isComplete_of_loadProgram hload
  have hfits := hstate.sound.fits htree
  obtain ⟨part, number', hload', hpart⟩ :=
    exists_isComplete_of_reaches hstate hfits.read hfits.reached
  have hlinked := isLinked_of_loadProgram hload'
  obtain ⟨place, hfinds⟩ := hstate.exists_finds hpart hfits.reached
  have hembeds := hstate.embeds hpart hfinds
  -- both programs find trees by path, and the root of the part is the tree it was loaded for
  have hplace : place number' = number := by
    obtain ⟨tree', htree', hpath⟩ := hpart.root_getElem?
    obtain ⟨other, hother, hrespells⟩ := hfinds.found htree'
    exact hstate.eq_of_normalize_eq hother htree (hpath ▸ hrespells.normalize_eq)
  have hflawless' := hembeds.isFlawless hlinked hwhole hflawless
  refine ⟨_, ⟨part.trees, number'⟩, place, compile_of_loadProgram hload', ?_, rfl,
    hpart.represents, hembeds, fun other => ?_, ?_, ?_⟩
  · exact (Program.succeeded_iff_isFlawless hlinked).2 hflawless'
  · rw [← hplace]
    exact hembeds.reaches_iff hlinked other
  · rw [hanalysis]
    exact hembeds.keepsValues hlinked hwhole hflawless
  · intro other tree' htree'
    refine ⟨_, ?_, Resolver.isComplete_checkTypes (hflawless'.isClean hlinked)
      (hembeds.isChecked hlinked hwhole hflawless) htree'⟩
    change (Program.analyze ⟨part.trees, number'⟩).1.values.lookup other = _
    rw [hflawless'.values_analyze hlinked, (Program.hasTables hlinked).values, htree']
    rfl

/-- A file with a constant of an enum that another file declares. -/
def borrower : Source := ⟨"main.thrift", "include \"e\" const e.E Y = e.E.A"⟩

def borrowerFiles : MemoryFiles :=
  .ofList [(borrower.path, borrower.text), (entrySource.path, entrySource.text)]

def borrowerDocument : ParsedDocument where
  document :=
    { namespaces := []
      includes := [⟨⟨"e", ⟨8, 11⟩⟩, ⟨0, 11⟩⟩]
      declarations := [
        .constant ⟨.name ⟨⟨"e", ⟨18, 19⟩⟩, [⟨"E", ⟨20, 21⟩⟩], ⟨18, 21⟩⟩, ⟨"Y", ⟨22, 23⟩⟩,
          .name ⟨⟨"e", ⟨26, 27⟩⟩, [⟨"E", ⟨28, 29⟩⟩, ⟨"A", ⟨30, 31⟩⟩], ⟨26, 31⟩⟩, ⟨12, 31⟩⟩]
      span := ⟨0, 31⟩ }
  nodes := 12

theorem parse_borrower : borrower.parse = .ok borrowerDocument := by
  decide +kernel

def borrowerTree : SourceTree where
  package := "main"
  source := borrower
  document := borrowerDocument.document
  includes := [⟨"e", ⟨⟨"e", ⟨8, 11⟩⟩, ⟨0, 11⟩⟩, 0⟩]

theorem loadProgram_borrowerFiles :
    loadProgram borrowerFiles.loader [] "main.thrift" =
      .ok (some ⟨[entryTree, borrowerTree], 1⟩, []) := by
  have hinclude := followIncludes_concat_of_fresh
    (@followIncludes_nil borrowerFiles.loader [] ["main.thrift"] borrower .empty)
    ⟨⟨"e", ⟨8, 11⟩⟩, ⟨0, 11⟩⟩ ⟨"e.thrift", "e.thrift", entrySource.text⟩ (by decide) (by decide)
    rfl rfl (loadFile_of_includes_eq_nil _ _ _ parse_entrySource rfl)
  exact loadProgram_of_followIncludes rfl rfl parse_borrower hinclude rfl

theorem completed_borrowerTree :
    (Program.analyze ⟨[entryTree, borrowerTree], 1⟩).1.completed = some .checkUnused := by
  decide +kernel

theorem compile_included_borrowerFiles :
    ∃ compilation, compile borrowerFiles.loader [] "main.thrift" = .ok compilation ∧
      compilation.succeeded = true ∧
      compilation.program = some ⟨[entryTree, borrowerTree], 1⟩ ∧
      [entryTree, borrowerTree][0]? = some entryTree ∧
      ∃ compilation' part place,
        compile borrowerFiles.loader [] "e.thrift" = .ok compilation' ∧
        compilation'.succeeded = true ∧ compilation'.program = some part ∧
        part.Represents borrowerFiles [] "e.thrift" ∧
        part.Embeds place ⟨[entryTree, borrowerTree], 1⟩ ∧
        (∀ other, Relation.ReflTransGen (Links [entryTree, borrowerTree]) 0 other ↔
          ∃ number' < part.trees.length, place number' = other) ∧
        compilation'.analysis.KeepsValues place compilation.analysis ∧
        ∀ number' tree', part.trees[number']? = some tree' →
          ∃ values, compilation'.analysis.values.lookup number' = some values ∧
            values.IsComplete tree'.document := by
  have hcompile := compile_of_loadProgram loadProgram_borrowerFiles
  have hsucceeded : (Compilation.ofLoaded [] (some ⟨[entryTree, borrowerTree], 1⟩)).succeeded =
      true :=
    (Analysis.succeeded_iff _).2 completed_borrowerTree
  refine ⟨_, hcompile, hsucceeded, rfl, rfl, ?_⟩
  exact @compile_included borrowerFiles [] "main.thrift" _ ⟨[entryTree, borrowerTree], 1⟩ 0
    entryTree hcompile hsucceeded rfl rfl

end Idl
