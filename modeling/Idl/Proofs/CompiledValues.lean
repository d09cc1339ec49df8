import Idl.Compilation
import Idl.Proofs.CheckedValues
import Idl.Proofs.LoadedProgram
import Idl.Proofs.Phases
import Idl.Proofs.ReportSpans

/-!
# No value is lost

In a program that comes past the type check, every constant and every field default has its value.
All trees are listed and every report becomes a diagnostic, so the three phases reported nothing
about any tree, and a silent coercion always has a value.
-/
namespace Idl

variable {files : MemoryFiles} {includePaths : List String} {root : String}

theorem exists_isComplete_of_loadProgram {program : Program} {diagnostics : List Diagnostic}
    (h : loadProgram files.loader includePaths root = .ok (some program, diagnostics)) :
    ∃ (state : Loading) (number : Nat), program = ⟨state.trees, number⟩ ∧
      state.IsComplete files includePaths root number := by
  obtain ⟨number, state, hroot, hfailed, rfl⟩ := exists_loadRoot_of_loadProgram h
  obtain ⟨file, hfile, rfl, -⟩ := exists_loadFile_of_loadRoot hroot
  obtain ⟨-, text, hread⟩ := MemoryFiles.canonicalize_eq_ok_iff.1 hfile.found
  obtain ⟨number?, other, hload, -, hcomplete⟩ := loadRoot_spec hread
  obtain ⟨hnumber, rfl⟩ := Prod.mk.inj (Except.ok.inj (hroot.symm.trans hload))
  obtain ⟨found, hfound, -, hstate⟩ := hcomplete hfailed
  obtain rfl := Option.some.inj (hnumber.trans hfound)
  exact ⟨state, number, rfl, hstate⟩

/-- The components that bindings leave over are spelled in the file of the name. -/
theorem Resolver.IsClean.tailsMark {resolver : Resolver} (hclean : resolver.IsClean) {number : Nat}
    {tree : SourceTree} (htree : resolver.program.trees[number]? = some tree) :
    Coercion.TailsMark resolver number tree.document.toNode.inner := by
  intro name binding hbinding member hmember
  obtain ⟨bindings, hbindings, hlookup⟩ := Option.bind_eq_some_iff.1 hbinding
  have htable := hclean.bindings number
  rw [htree, Option.map_some] at htable
  obtain rfl := Option.some.inj (hbindings.symm.trans htable)
  obtain ⟨reference, hreference, hsubset⟩ := tail_of_lookup_bindNames hlookup
  exact Identifier.marks ((Document.contains_reference hreference).trans
    (Name.contains_identifier (hsubset hmember)))

namespace Loading.IsComplete

variable {state : Loading} {number : Nat}

theorem isOrdered (h : state.IsComplete files includePaths root number) :
    Program.IsOrdered ⟨state.trees, number⟩ :=
  fun _ _ htree edge hedge => (h.sound.fits htree).below edge hedge

/-- Every tree is listed, as every file of the closure is reached from the root. -/
theorem mem_flatten (h : state.IsComplete files includePaths root number) {other : Nat}
    {tree : SourceTree} (htree : state.trees[other]? = some tree) :
    other ∈ Program.flatten ⟨state.trees, number⟩ := by
  obtain ⟨last, hlast, -⟩ := h.root_getElem?
  obtain ⟨hroot, hclosed⟩ :=
    Program.lists_flatten h.isOrdered (List.getElem?_eq_some_iff.1 hlast).1
  have hedges : ∀ (parent : Nat) (tree : SourceTree), state.trees[parent]? = some tree →
      parent ∈ Program.flatten ⟨state.trees, number⟩ → ∀ edge ∈ tree.includes,
        edge.tree ∈ Program.flatten ⟨state.trees, number⟩ :=
    fun parent tree htree hparent => hclosed parent hparent tree htree
  obtain ⟨listed, found, hmem, hfound, hsame⟩ :=
    h.exists_tree _ hroot hedges (h.sound.fits htree).reached
  rwa [h.eq_of_normalize_eq htree hfound hsame.normalize_eq.symm]

variable {α : Type} {f : Nat → SourceTree → Reporting α}

theorem lookup_forTrees (h : state.IsComplete files includePaths root number)
    {table : Table α} {diagnostics : List Diagnostic}
    (htable : Program.forTrees ⟨state.trees, number⟩ (Program.flatten ⟨state.trees, number⟩) f =
      (table, diagnostics)) (other : Nat) :
    table.lookup other = state.trees[other]?.map fun tree => (f other tree).value := by
  have hlookup := Program.lookup_forTrees ⟨state.trees, number⟩
    (Program.flatten ⟨state.trees, number⟩) f other
  rw [htable] at hlookup
  rw [hlookup]
  cases htree : state.trees[other]? with
  | none => simp
  | some tree => rw [if_pos (h.mem_flatten htree)]

/-- A phase without diagnostics reported nothing about any tree, if its reports have places. -/
theorem silent_of_forTrees (h : state.IsComplete files includePaths root number)
    {table : Table α}
    (htable : Program.forTrees ⟨state.trees, number⟩ (Program.flatten ⟨state.trees, number⟩) f =
      (table, [])) {other : Nat} {tree : SourceTree} (htree : state.trees[other]? = some tree)
    (hwithin : (f other tree).Within (Node.Marks tree.document.toNode.inner)) :
    (f other tree).Silent := by
  obtain ⟨nodes, hparsed⟩ := (h.sound.fits htree).parsed
  have hnil := Program.diagnose_of_forTrees (congrArg Prod.snd htable) (h.mem_flatten htree) htree
  exact (Source.diagnose_eq_nil_iff fun report hreport =>
    Source.locates_of_marks hparsed
      (hwithin report hreport report.span report.span_mem_spans)).1 hnil

variable {analysis : Analysis}

/-- The resolver whose tables are made without a diagnostic has nothing wrong with them. -/
theorem isClean_of_forTrees (h : state.IsComplete files includePaths root number)
    {symbols : Table Symbols} {bindings : Table Bindings}
    (hsymbols : Program.forTrees ⟨state.trees, number⟩ (Program.flatten ⟨state.trees, number⟩)
      (fun _ tree => enterSymbols tree.document) = (symbols, []))
    (hbindings : Program.forTrees ⟨state.trees, number⟩ (Program.flatten ⟨state.trees, number⟩)
      (bindNames symbols) = (bindings, [])) :
    Resolver.IsClean ⟨⟨state.trees, number⟩, symbols, bindings⟩ where
  symbols other := h.lookup_forTrees hsymbols other
  bindings other := h.lookup_forTrees hbindings other
  entered tree htree := by
    obtain ⟨other, hother⟩ := List.getElem?_of_mem htree
    exact h.silent_of_forTrees hsymbols hother (within_enterSymbols tree.document)
  bound other tree htree :=
    h.silent_of_forTrees hbindings htree (within_bindNames symbols other tree)

theorem isClean (h : state.IsComplete files includePaths root number)
    (hanalysis : Program.IsAnalyzed ⟨state.trees, number⟩ analysis) :
    (analysis.resolver ⟨state.trees, number⟩).IsClean :=
  h.isClean_of_forTrees hanalysis.symbols hanalysis.bindings

theorem tailsMark (h : state.IsComplete files includePaths root number)
    (hanalysis : Program.IsAnalyzed ⟨state.trees, number⟩ analysis) {other : Nat}
    {tree : SourceTree} (htree : state.trees[other]? = some tree) :
    Coercion.TailsMark (analysis.resolver ⟨state.trees, number⟩) other
      tree.document.toNode.inner :=
  (h.isClean hanalysis).tailsMark htree

theorem isChecked (h : state.IsComplete files includePaths root number)
    (hanalysis : Program.IsAnalyzed ⟨state.trees, number⟩ analysis) :
    (analysis.resolver ⟨state.trees, number⟩).IsChecked := by
  intro other tree htree
  exact h.silent_of_forTrees hanalysis.values htree
    (Resolver.within_checkTypes (h.tailsMark hanalysis htree))

end Loading.IsComplete

/-- A file's values are complete: every constant and every field default has one. -/
structure Values.IsComplete (values : Values) (document : Document) : Prop where
  constants : ∀ index decl, document.declarations[index]? = some (.constant decl) →
    (values.constants.lookup index).isSome
  defaults : ∀ index decl, document.declarations[index]? = some (.struct decl) →
    ∀ place field, decl.fields[place]? = some field → field.default.isSome →
      (values.defaults.lookup (index, place)).isSome

namespace Resolver

/-- Nothing that a coercion looks up is missing: names are bound, types come to something, and
enums and structs have their members, with a number for each entry of an enum. -/
structure LacksNothing (resolver : Resolver) : Prop where
  bound : ∀ number tree, resolver.program.trees[number]? = some tree →
    ∀ name ∈ tree.document.references, (resolver.binding? number name).isSome
  unwraps : ∀ type, resolver.IsWritten type →
    ∃ unwrapped, resolver.unwrap type = .ok unwrapped
  numbered : ∀ ref decl, resolver.enum? ref = some decl → ∀ entry ∈ decl.entries,
    ∃ entries values index value, resolver.enumMembers? ref = some (entries, values) ∧
      entries.lookup entry.name.text = some index ∧ values[index]? = some (some value)
  entered : ∀ ref decl, resolver.struct? ref = some decl → (resolver.structMembers? ref).isSome

variable {resolver : Resolver}

theorem lacksNothing (hclean : resolver.IsClean) (hchecked : resolver.IsChecked) :
    resolver.LacksNothing where
  bound number tree htree name hname := isSome_binding? hclean htree hname
  unwraps type htype := by
    have hresolve := typesResolve_of_isChecked hclean hchecked
    obtain ⟨unwrapped, hunwrap, -⟩ := unwrap_ok hresolve (typedefsEnd_of_isChecked hchecked)
      (isProper_of_isWritten hresolve htype)
    exact ⟨unwrapped, hunwrap⟩
  numbered ref decl hdecl entry hentry := by
    have hlookup := enumMembers?_lookup hclean hdecl entry.name.text
    rw [← decl.map_fst_numbered] at hentry
    obtain ⟨numbered, hnumbered, rfl⟩ := List.mem_map.1 hentry
    have hfound : (decl.numbered.find? (·.1.name.text == numbered.1.name.text)).isSome :=
      List.find?_isSome.2 ⟨numbered, hnumbered, beq_self_eq_true _⟩
    obtain ⟨found, hfind⟩ := Option.isSome_iff_exists.1 hfound
    rw [hfind, Option.map_some, Option.bind_eq_some_iff] at hlookup
    obtain ⟨⟨entries, values⟩, hmembers, hvalue⟩ := hlookup
    obtain ⟨index, hindex, hvalue⟩ := Option.map_eq_some_iff.1 hvalue
    exact ⟨entries, values, index, found.2, hmembers, hindex, Option.join_eq_some_iff.1 hvalue⟩
  entered ref decl hdecl := by
    obtain ⟨fields, hfields, -⟩ := structMembers?_lookup hclean hdecl
    rw [hfields]
    rfl

theorem isComplete_checkTypes (hclean : resolver.IsClean) (hchecked : resolver.IsChecked)
    {here : Nat} {tree : SourceTree} (htree : resolver.program.trees[here]? = some tree) :
    (resolver.checkTypes here tree.document).value.IsComplete tree.document where
  constants index decl hdecl := by
    obtain ⟨value, hvalue⟩ := exists_value_checkConstant hclean hchecked htree hdecl
    exact isSome_constants tree.document hdecl hvalue
  defaults index decl hdecl place field hfield hsome := by
    obtain ⟨default, hdefault⟩ := Option.isSome_iff_exists.1 hsome
    obtain ⟨value, hvalue⟩ :=
      exists_value_checkField hclean hchecked htree hdecl hfield hdefault
    exact isSome_defaults tree.document hdecl hfield hvalue

end Resolver

/-- No value is dropped silently. If a compilation comes past the type check, there is a program,
nothing that a coercion looks up in it is missing, and every constant and every field default of
every tree has its value. -/
theorem values_isComplete_of_compile (files : MemoryFiles) (includePaths : List String)
    (root : String) {compilation : Compilation}
    (hcompile : compile files.loader includePaths root = .ok compilation)
    (hcompleted : compilation.analysis.completed ∈
      [some .checkTypes, some .checkCycles, some .checkUnused]) :
    ∃ program, compilation.program = some program ∧
      (compilation.analysis.resolver program).LacksNothing ∧
      ∀ number tree, program.trees[number]? = some tree →
        ∃ values, compilation.analysis.values.lookup number = some values ∧
          values.IsComplete tree.document := by
  obtain ⟨program?, diagnostics, hload, rfl⟩ := exists_ofLoaded_of_compile hcompile
  cases program? with
  | none => simp [Compilation.ofLoaded, Analysis.empty] at hcompleted
  | some program =>
    obtain ⟨state, number, rfl, hstate⟩ := exists_isComplete_of_loadProgram hload
    have hanalysis := Program.isAnalyzed_analyze _ hcompleted
    have hclean := hstate.isClean hanalysis
    have hchecked := hstate.isChecked hanalysis
    refine ⟨_, rfl, Resolver.lacksNothing hclean hchecked, ?_⟩
    intro other tree htree
    have hvalues := hstate.lookup_forTrees hanalysis.values other
    rw [htree, Option.map_some] at hvalues
    exact ⟨_, hvalues, Resolver.isComplete_checkTypes hclean hchecked htree⟩

/-- A file with an enum and a constant of it. -/
def entrySource : Source := ⟨"e.thrift", "enum E \x7b A \x7d const E X = E.A"⟩

def entryFiles : MemoryFiles := .ofList [(entrySource.path, entrySource.text)]

def entryDocument : ParsedDocument where
  document :=
    { namespaces := []
      includes := []
      declarations := [
        .enum ⟨⟨"E", ⟨5, 6⟩⟩, [⟨⟨"A", ⟨9, 10⟩⟩, none, ⟨9, 10⟩⟩], ⟨0, 12⟩⟩,
        .constant ⟨.name ⟨⟨"E", ⟨19, 20⟩⟩, [], ⟨19, 20⟩⟩, ⟨"X", ⟨21, 22⟩⟩,
          .name ⟨⟨"E", ⟨25, 26⟩⟩, [⟨"A", ⟨27, 28⟩⟩], ⟨25, 28⟩⟩, ⟨13, 28⟩⟩]
      span := ⟨0, 28⟩ }
  nodes := 12

theorem parse_entrySource : entrySource.parse = .ok entryDocument := by
  decide +kernel

def entryTree : SourceTree where
  package := "e"
  source := entrySource
  document := entryDocument.document
  includes := []

theorem loadProgram_entryFiles :
    loadProgram entryFiles.loader [] "e.thrift" = .ok (some ⟨[entryTree], 0⟩, []) :=
  loadProgram_of_includes_eq_nil entrySource rfl rfl parse_entrySource rfl

theorem completed_entryTree :
    (Program.analyze ⟨[entryTree], 0⟩).1.completed = some .checkUnused := by
  decide +kernel

theorem values_entryFiles :
    ∃ compilation, compile entryFiles.loader [] "e.thrift" = .ok compilation ∧
      compilation.analysis.completed ∈ [some .checkTypes, some .checkCycles, some .checkUnused] ∧
      ∃ program, compilation.program = some program ∧
        (compilation.analysis.resolver program).LacksNothing ∧
        ∀ number tree, program.trees[number]? = some tree →
          ∃ values, compilation.analysis.values.lookup number = some values ∧
            values.IsComplete tree.document := by
  have hcompile := compile_of_loadProgram loadProgram_entryFiles
  have hcompleted : (Program.analyze ⟨[entryTree], 0⟩).1.completed ∈
      [some .checkTypes, some .checkCycles, some .checkUnused] := by
    rw [completed_entryTree]
    decide
  exact ⟨_, hcompile, hcompleted,
    values_isComplete_of_compile entryFiles [] "e.thrift" hcompile hcompleted⟩

end Idl
