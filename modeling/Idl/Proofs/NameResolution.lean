import Idl.Proofs.CompiledValues
import Idl.Proofs.Nodes
import Idl.Proofs.PlacedReports
import Idl.Proofs.Reports
import Idl.Proofs.SourceOrder
import Idl.Proofs.Symbols

/-!
# What names resolve to

The rules by which a dotted name stands for a declaration, said without tables: the first component
is a declaration of the file or else one of its includes, and in the second case the next component
is a declaration of the included file. Binding a file follows these rules at every name in it, once
and in source order, and keeps nothing else.
-/
namespace Idl

/-- The declaration at a place is the first of its name in the file. -/
structure SourceTree.Declares (tree : SourceTree) (name : String) (index : Nat) : Prop where
  named : ∃ declaration, tree.document.declarations[index]? = some declaration ∧
    declaration.name.text = name
  first : ∀ (earlier : Nat) (declaration : Declaration), earlier < index →
    tree.document.declarations[earlier]? = some declaration → declaration.name.text ≠ name

namespace SourceTree

theorem declares_iff (tree : SourceTree) (name : String) (index : Nat) :
    tree.Declares name index ↔ (enterSymbols tree.document).value.lookup name = some index := by
  rw [lookup_enterSymbols, List.findIdx?_eq_some_iff_getElem]
  constructor
  · rintro ⟨⟨declaration, hget, hname⟩, hfirst⟩
    obtain ⟨hlt, rfl⟩ := List.getElem?_eq_some_iff.1 hget
    refine ⟨hlt, by simp [hname], fun earlier hearlier => ?_⟩
    have hne := hfirst earlier _ hearlier (List.getElem?_eq_getElem (hearlier.trans hlt))
    simpa using hne
  · rintro ⟨hlt, hname, hfirst⟩
    refine ⟨⟨_, List.getElem?_eq_getElem hlt, by simpa using hname⟩, ?_⟩
    intro earlier declaration hearlier hget
    obtain ⟨_, rfl⟩ := List.getElem?_eq_some_iff.1 hget
    simpa using hfirst earlier hearlier

/-- No declaration of the file has the name. -/
def Lacks (tree : SourceTree) (name : String) : Prop :=
  ∀ index, ¬ tree.Declares name index

theorem lacks_iff (tree : SourceTree) (name : String) :
    tree.Lacks name ↔ (enterSymbols tree.document).value.lookup name = none := by
  simp only [Lacks, declares_iff, Option.eq_none_iff_forall_ne_some, ne_eq]

theorem Declares.unique {tree : SourceTree} {name : String} {index other : Nat}
    (h : tree.Declares name index) (h' : tree.Declares name other) : index = other :=
  Option.some.inj (((declares_iff _ _ _).1 h).symm.trans ((declares_iff _ _ _).1 h'))

end SourceTree

/-- What a dotted name in a tree comes to: a binding, or the report of the component that leads
nowhere. -/
inductive Program.Resolves (program : Program) (number : Nat) (tree : SourceTree) :
    List Identifier → Except Report Binding → Prop
  /-- Declarations of the file come before its includes. -/
  | here {head tail index} (declared : tree.Declares head.text index) :
      Resolves program number tree (head :: tail) (.ok ⟨⟨number, index⟩, tail⟩)
  | included {head member tail edge target index} (lacks : tree.Lacks head.text)
      (includes : tree.include? head.text = some edge)
      (leads : program.trees[edge.tree]? = some target)
      (declared : target.Declares member.text index) :
      Resolves program number tree (head :: member :: tail) (.ok ⟨⟨edge.tree, index⟩, tail⟩)
  | unknown {head tail} (lacks : tree.Lacks head.text) (excludes : tree.include? head.text = none) :
      Resolves program number tree (head :: tail)
        (.error (.error head.span (.unresolved head.text)))
  | bare {head edge} (lacks : tree.Lacks head.text)
      (includes : tree.include? head.text = some edge) :
      Resolves program number tree [head] (.error (.error head.span (.nameIsPackage head.text)))
  | missing {head member tail edge target} (lacks : tree.Lacks head.text)
      (includes : tree.include? head.text = some edge)
      (leads : program.trees[edge.tree]? = some target) (absent : target.Lacks member.text) :
      Resolves program number tree (head :: member :: tail)
        (.error (.error member.span (.notFoundInPackage member.text head.text)))

/-- The rules do not overlap. -/
theorem Program.Resolves.unique {program : Program} {number : Nat} {tree : SourceTree}
    {path : List Identifier} {outcome other : Except Report Binding}
    (h : program.Resolves number tree path outcome) (h' : program.Resolves number tree path other) :
    outcome = other := by
  -- each rule states what the others deny: that the name is declared here, that an include leads to
  -- it, or how many components it has
  cases h with
  | here declared =>
    cases h' with
    | here declared' => rw [declared.unique declared']
    | included lacks => exact absurd declared (lacks _)
    | unknown lacks => exact absurd declared (lacks _)
    | bare lacks => exact absurd declared (lacks _)
    | missing lacks => exact absurd declared (lacks _)
  | included lacks includes leads declared =>
    cases h' with
    | here declared' => exact absurd declared' (lacks _)
    | included _ includes' leads' declared' =>
      obtain rfl := Option.some.inj (includes.symm.trans includes')
      obtain rfl := Option.some.inj (leads.symm.trans leads')
      rw [declared.unique declared']
    | unknown _ excludes => cases includes.symm.trans excludes
    | missing _ includes' leads' absent =>
      obtain rfl := Option.some.inj (includes.symm.trans includes')
      obtain rfl := Option.some.inj (leads.symm.trans leads')
      exact absurd declared (absent _)
  | unknown lacks excludes =>
    cases h' with
    | here declared' => exact absurd declared' (lacks _)
    | included _ includes => cases includes.symm.trans excludes
    | unknown => rfl
    | bare _ includes => cases includes.symm.trans excludes
    | missing _ includes => cases includes.symm.trans excludes
  | bare lacks includes =>
    cases h' with
    | here declared' => exact absurd declared' (lacks _)
    | unknown _ excludes => cases includes.symm.trans excludes
    | bare => rfl
  | missing lacks includes leads absent =>
    cases h' with
    | here declared' => exact absurd declared' (lacks _)
    | included _ includes' leads' declared =>
      obtain rfl := Option.some.inj (includes.symm.trans includes')
      obtain rfl := Option.some.inj (leads.symm.trans leads')
      exact absurd declared (absent _)
    | unknown _ excludes => cases includes.symm.trans excludes
    | missing => rfl

/-- The trees of a program are read from their texts, and each include leads to one of them. -/
structure Program.IsRead (program : Program) : Prop where
  parsed : ∀ tree ∈ program.trees, ∃ nodes, tree.source.parse = .ok ⟨tree.document, nodes⟩
  linked : ∀ tree ∈ program.trees, ∀ edge ∈ tree.includes, edge.tree < program.trees.length

/-- Every tree of a program has its symbols. -/
def Program.HasSymbols (program : Program) (symbols : Table Symbols) : Prop :=
  ∀ number tree, program.trees[number]? = some tree →
    symbols.lookup number = some (enterSymbols tree.document).value

theorem Loading.IsComplete.isRead {files : MemoryFiles} {includePaths : List String}
    {root : String} {state : Loading} {number : Nat}
    (h : state.IsComplete files includePaths root number) :
    Program.IsRead ⟨state.trees, number⟩ := by
  constructor
  · intro tree htree
    obtain ⟨other, hother⟩ := List.getElem?_of_mem htree
    exact (h.sound.fits hother).parsed
  · intro tree htree edge hedge
    obtain ⟨other, hother⟩ := List.getElem?_of_mem htree
    have hlt := (List.getElem?_eq_some_iff.1 hother).1
    exact ((h.sound.fits hother).below edge hedge).trans hlt

/-- Programs that are loaded from files are read from their texts. -/
theorem Program.isRead_of_loadProgram {files : MemoryFiles} {includePaths : List String}
    {root : String} {program : Program} {diagnostics : List Diagnostic}
    (h : loadProgram files.loader includePaths root = .ok (some program, diagnostics)) :
    program.IsRead := by
  obtain ⟨state, number, rfl, hstate⟩ := exists_isComplete_of_loadProgram h
  exact hstate.isRead

namespace Resolution

/-- The binding of a name, or the report about it. -/
def outcome (name : Name) : Resolution → Except Report Binding
  | here binding => .ok binding
  | included _ binding => .ok binding
  | unknown => .error (.error name.head.span (.unresolved name.head.text))
  | bare => .error (.error name.head.span (.nameIsPackage name.head.text))
  | missing package member =>
    .error (.error member.span (.notFoundInPackage member.text package))

theorem toOption_outcome (name : Name) (resolution : Resolution) :
    (resolution.outcome name).toOption = resolution.binding? := by
  cases resolution <;> rfl

end Resolution

/-- The report about a name that is not bound. -/
def failure? : Except Report Binding → Option Report
  | .ok _ => none
  | .error report => some report

theorem reports_bindName (symbols : Table Symbols) (number : Nat) (tree : SourceTree)
    (bindings : Bindings) (name : Name) :
    (bindName symbols number tree bindings name).reports =
      (failure? ((resolveName symbols number tree name).outcome name)).toList := by
  unfold bindName
  cases resolveName symbols number tree name <;> rfl

theorem reports_bindNames (symbols : Table Symbols) (number : Nat) (tree : SourceTree) :
    (bindNames symbols number tree).reports =
      tree.document.references.filterMap fun name =>
        failure? ((resolveName symbols number tree name).outcome name) := by
  rw [bindNames, Reporting.reports_foldlM (reports_bindName symbols number tree),
    ← List.filterMap_eq_flatMap_toList]

section

variable {program : Program} {symbols : Table Symbols} {number : Nat} {tree : SourceTree}

theorem lookup_eq_some_iff (hsymbols : program.HasSymbols symbols)
    (htree : program.trees[number]? = some tree) (name : String) (index : Nat) :
    (symbols.lookup number).bind (·.lookup name) = some index ↔ tree.Declares name index := by
  rw [hsymbols number tree htree, tree.declares_iff]
  rfl

theorem lookup_eq_none_iff (hsymbols : program.HasSymbols symbols)
    (htree : program.trees[number]? = some tree) (name : String) :
    (symbols.lookup number).bind (·.lookup name) = none ↔ tree.Lacks name := by
  rw [hsymbols number tree htree, tree.lacks_iff]
  rfl

theorem SourceTree.name_of_include? {name : String} {edge : IncludeEdge}
    (h : tree.include? name = some edge) : edge.name = name := by
  simpa using List.find?_some h

/-- Resolving a name by the tables of symbols follows the rules. -/
theorem resolves_resolveName (hread : program.IsRead) (hsymbols : program.HasSymbols symbols)
    (htree : program.trees[number]? = some tree) (name : Name) :
    program.Resolves number tree name.path
      ((resolveName symbols number tree name).outcome name) := by
  obtain ⟨head, tail, span⟩ := name
  unfold resolveName
  simp only [Name.path]
  cases hhere : (symbols.lookup number).bind (·.lookup head.text) with
  | some index => exact .here ((lookup_eq_some_iff hsymbols htree _ _).1 hhere)
  | none =>
    have hlacks := (lookup_eq_none_iff hsymbols htree _).1 hhere
    cases hinclude : tree.include? head.text with
    | none => exact .unknown hlacks hinclude
    | some edge =>
      cases tail with
      | nil => exact .bare hlacks hinclude
      | cons member tail =>
        have hlt := hread.linked tree (List.mem_of_getElem? htree) edge
          (List.mem_of_find?_eq_some hinclude)
        have htarget := List.getElem?_eq_getElem hlt
        cases hmember : (symbols.lookup edge.tree).bind (·.lookup member.text) with
        | some index =>
          simp only [hmember, Resolution.outcome]
          exact .included hlacks hinclude htarget
            ((lookup_eq_some_iff hsymbols htarget _ _).1 hmember)
        | none =>
          simp only [hmember, Resolution.outcome, SourceTree.name_of_include? hinclude]
          exact .missing hlacks hinclude htarget
            ((lookup_eq_none_iff hsymbols htarget _).1 hmember)

/-- Names that begin at different places do not stand in each other's way. -/
theorem lookup_filterMap_start {names : List Name} {binding? : Name → Option Binding}
    (hnames : names.Pairwise fun name next => name.span.start < next.span.start) {name : Name}
    (hname : name ∈ names) :
    (names.filterMap fun name => (binding? name).map (name.span.start, ·)).lookup name.span.start =
      binding? name := by
  induction names with
  | nil => cases hname
  | cons first names ih =>
    obtain ⟨hfirst, hrest⟩ := List.pairwise_cons.1 hnames
    rw [List.filterMap_cons]
    rcases List.mem_cons.1 hname with rfl | hname
    · cases hbinding : binding? name with
      | some binding => simp
      | none =>
        rw [List.lookup_eq_none_iff]
        intro entry hentry
        obtain ⟨other, hother, hentry⟩ := List.mem_filterMap.1 hentry
        obtain ⟨binding, -, rfl⟩ := Option.map_eq_some_iff.1 hentry
        simpa using (hfirst other hother).ne
    · have hne := beq_false_of_ne (hfirst name hname).ne'
      cases binding? first with
      | none => exact ih hrest hname
      | some binding =>
        simp only [Option.map_some]
        rw [List.lookup_cons, hne]
        exact ih hrest hname

end

/-- What binding makes of the names in a tree, given the outcome of each of them. -/
structure Program.Binds (program : Program) (symbols : Table Symbols) (number : Nat)
    (tree : SourceTree) (outcome : Name → Except Report Binding) : Prop where
  /-- The names that are bound are the name nodes of the tree, wherever they stand. -/
  names : tree.document.toNode.names = tree.document.references.map Name.toNode
  /-- They begin one after the other. -/
  ordered : tree.document.references.Pairwise fun name next => name.span.start < next.span.start
  /-- Each has one outcome by the rules. -/
  resolves : ∀ name ∈ tree.document.references, ∀ result,
    program.Resolves number tree name.path result ↔ result = outcome name
  lookup : ∀ name ∈ tree.document.references,
    (bindNames symbols number tree).value.lookup name = (outcome name).toOption
  /-- The table has an entry for each bound name and no other. -/
  table : (bindNames symbols number tree).value.names =
    tree.document.references.filterMap fun name =>
      (outcome name).toOption.map (name.span.start, ·)
  /-- Each name that is not bound is reported once, in source order. -/
  reports : (bindNames symbols number tree).reports =
    tree.document.references.filterMap fun name => failure? (outcome name)
  diagnostics : tree.source.diagnose (bindNames symbols number tree).reports =
    tree.document.references.filterMap fun name =>
      (failure? (outcome name)).map tree.source.place

/-- Binding a file resolves every name in it by the rules, and leaves none out. -/
theorem bindNames_resolves {program : Program} (hread : program.IsRead) {symbols : Table Symbols}
    (hsymbols : program.HasSymbols symbols) {number : Nat} {tree : SourceTree}
    (htree : program.trees[number]? = some tree) :
    ∃ outcome, program.Binds symbols number tree outcome := by
  obtain ⟨nodes, hparsed⟩ := hread.parsed tree (List.mem_of_getElem? htree)
  have hsorted := Source.pairwise_start_references hparsed
  have hreports := reports_bindNames symbols number tree
  refine ⟨fun name => (resolveName symbols number tree name).outcome name,
    tree.document.names_toNode, hsorted, ?_, ?_, ?_, hreports, ?_⟩
  · intro name _ result
    have hresolves := resolves_resolveName hread hsymbols htree name
    exact ⟨fun h => h.unique hresolves, fun h => h ▸ hresolves⟩
  · intro name hname
    rw [Bindings.lookup, names_bindNames, Resolution.toOption_outcome]
    exact lookup_filterMap_start hsorted hname
  · simp only [names_bindNames, Resolution.toOption_outcome]
  · rw [Source.diagnose_of_within hparsed (within_bindNames symbols number tree), hreports,
      List.map_filterMap]

/-- A file with a name for each of the outcomes, next to the file that it includes. -/
def palette : Source :=
  ⟨"main.thrift", "include \"d\" struct S \x7b d.E a = d.E.A d.B b d c Q q S s \x7d"⟩

def shades : Source := ⟨"d.thrift", "enum E \x7b A \x7d"⟩

def paletteDocument : ParsedDocument where
  document :=
    { namespaces := []
      includes := [⟨⟨"d", ⟨8, 11⟩⟩, ⟨0, 11⟩⟩]
      declarations := [.struct ⟨.struct, ⟨"S", ⟨19, 20⟩⟩, [
        ⟨none, none, .name ⟨⟨"d", ⟨23, 24⟩⟩, [⟨"E", ⟨25, 26⟩⟩], ⟨23, 26⟩⟩, ⟨"a", ⟨27, 28⟩⟩,
          some (.name ⟨⟨"d", ⟨31, 32⟩⟩, [⟨"E", ⟨33, 34⟩⟩, ⟨"A", ⟨35, 36⟩⟩], ⟨31, 36⟩⟩), ⟨23, 36⟩⟩,
        ⟨none, none, .name ⟨⟨"d", ⟨37, 38⟩⟩, [⟨"B", ⟨39, 40⟩⟩], ⟨37, 40⟩⟩, ⟨"b", ⟨41, 42⟩⟩, none,
          ⟨37, 42⟩⟩,
        ⟨none, none, .name ⟨⟨"d", ⟨43, 44⟩⟩, [], ⟨43, 44⟩⟩, ⟨"c", ⟨45, 46⟩⟩, none, ⟨43, 46⟩⟩,
        ⟨none, none, .name ⟨⟨"Q", ⟨47, 48⟩⟩, [], ⟨47, 48⟩⟩, ⟨"q", ⟨49, 50⟩⟩, none, ⟨47, 50⟩⟩,
        ⟨none, none, .name ⟨⟨"S", ⟨51, 52⟩⟩, [], ⟨51, 52⟩⟩, ⟨"s", ⟨53, 54⟩⟩, none, ⟨51, 54⟩⟩],
        ⟨12, 56⟩⟩]
      span := ⟨0, 56⟩ }
  nodes := 31

def shadesDocument : ParsedDocument where
  document :=
    { namespaces := []
      includes := []
      declarations := [.enum ⟨⟨"E", ⟨5, 6⟩⟩, [⟨⟨"A", ⟨9, 10⟩⟩, none, ⟨9, 10⟩⟩], ⟨0, 12⟩⟩]
      span := ⟨0, 12⟩ }
  nodes := 5

theorem parse_palette : palette.parse = .ok paletteDocument := by
  decide +kernel

theorem parse_shades : shades.parse = .ok shadesDocument := by
  decide +kernel

def shadesTree : SourceTree := ⟨"d", shades, shadesDocument.document, []⟩

def paletteTree : SourceTree :=
  ⟨"main", palette, paletteDocument.document, [⟨"d", ⟨⟨"d", ⟨8, 11⟩⟩, ⟨0, 11⟩⟩, 0⟩]⟩

def paletteProgram : Program := ⟨[shadesTree, paletteTree], 1⟩

def paletteSymbols : Table Symbols :=
  paletteProgram.trees.zipIdx.map fun (tree, number) => (number, (enterSymbols tree.document).value)

theorem isRead_paletteProgram : paletteProgram.IsRead where
  parsed tree htree := by
    rcases List.mem_pair.1 htree with rfl | rfl
    · exact ⟨_, parse_shades⟩
    · exact ⟨_, parse_palette⟩
  linked tree htree edge hedge := by
    rcases List.mem_pair.1 htree with rfl | rfl
    · cases hedge
    · obtain rfl := List.mem_singleton.1 hedge
      decide

theorem hasSymbols_paletteProgram : paletteProgram.HasSymbols paletteSymbols := by
  rintro (_ | _ | number) tree htree
  · obtain rfl := Option.some.inj htree
    rfl
  · obtain rfl := Option.some.inj htree
    rfl
  · cases htree

theorem binds_paletteTree :
    paletteProgram.IsRead ∧ paletteProgram.HasSymbols paletteSymbols ∧
      paletteProgram.trees[1]? = some paletteTree ∧
        ∃ outcome, paletteProgram.Binds paletteSymbols 1 paletteTree outcome :=
  ⟨isRead_paletteProgram, hasSymbols_paletteProgram, rfl,
    bindNames_resolves isRead_paletteProgram hasSymbols_paletteProgram rfl⟩

end Idl
