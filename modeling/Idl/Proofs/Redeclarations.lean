import Idl.Proofs.EnteredNames

/-!
# Redeclared names

In each scope of a file a name stands for its first declaration, and every later declaration of it
is reported once, with a note at the first, which lies before it. Entering a file is silent exactly
if no scope declares a name twice and the numbers of all enum entries fit.
-/
namespace Idl
open Node

/-! ### Places -/

section

variable {source : Source} {parsed : ParsedDocument}

/-- Names in nodes that lie one behind the other begin one behind the other. -/
theorem Scope.pairwise_start_placed (h : source.parse = .ok parsed) {α : Type} {toNode : α → Node}
    {name : α → Identifier} (hname : ∀ item, Contains (toNode item).nodes (name item).toNode)
    (kind : α → String) {items : List α}
    (hitems : ∀ item ∈ items, toNode item ∈ parsed.document.toNode.inner)
    (hbehind : (items.map toNode).Pairwise fun node next => node.span.Before next.span) :
    (Scope.placed name kind 0 items).Pairwise fun first item =>
      first.name.span.start < item.name.span.start := by
  have hnames : (Scope.placed name kind 0 items).map (·.name) = items.map name := by
    conv_rhs => rw [← List.zipIdx_map_fst 0 items]
    rw [Scope.placed, List.map_map, List.map_map]
    rfl
  have hstarts : (items.map name).Pairwise
      fun first item => first.span.start < item.span.start := by
    rw [List.pairwise_map] at hbehind ⊢
    refine hbehind.imp_of_mem fun {first item} hfirst hitem hbefore => ?_
    obtain ⟨⟨-, hstop⟩, hnonempty⟩ :=
      Source.within_of_mem_nodes h (hitems first hfirst) (hname first).mem
    obtain ⟨⟨hstart, -⟩, -⟩ := Source.within_of_mem_nodes h (hitems item hitem) (hname item).mem
    change (name first).span.stop ≤ _ at hstop
    change (name first).span.start < (name first).span.stop at hnonempty
    change _ ≤ (name item).span.start at hstart
    unfold Span.Before at hbefore
    omega
  rw [← hnames, List.pairwise_map] at hstarts
  exact hstarts

/-- In each scope of a parsed file the names begin in the order of the scope. -/
theorem Document.pairwise_start_scopes (h : source.parse = .ok parsed) :
    ∀ scope ∈ parsed.document.scopes, scope.Pairwise fun first item =>
      first.name.span.start < item.name.span.start := by
  obtain ⟨hnodes, -, -, hsequence, -⟩ := Source.spansExactly_of_parse h
  have hdeclaration := fun declaration hmem =>
    @Document.contains_declaration parsed.document declaration hmem
  intro scope hscope
  -- the items of a scope are children of one node, and those lie one behind the other
  rcases List.mem_cons.1 hscope with rfl | hscope
  · exact Scope.pairwise_start_placed h Declaration.contains_name _
      (fun declaration hmem => (hdeclaration declaration hmem).mem)
      (hsequence.sublist (List.sublist_append_right _ _))
  · obtain ⟨declaration, hmem, hscope⟩ := List.mem_flatMap.1 hscope
    have hwhole := hdeclaration declaration hmem
    have hbehind := (hnodes _ hwhole.mem).behind
    cases declaration with
    | constant decl => cases hscope
    | typedef decl => cases hscope
    | enum decl =>
      obtain rfl := List.mem_singleton.1 hscope
      refine Scope.pairwise_start_placed h EnumEntry.contains_name _
        (fun entry hentry => (hwhole.trans (EnumDecl.contains_entry hentry)).mem)
        (hbehind.sublist ?_)
      simp [Declaration.toNode, Node.children]
    | struct decl =>
      obtain rfl := List.mem_singleton.1 hscope
      refine Scope.pairwise_start_placed h Field.contains_name _
        (fun field hfield => (hwhole.trans (StructDecl.contains_field hfield)).mem)
        (hbehind.sublist ?_)
      simp [Declaration.toNode, Node.children]
    | service decl =>
      have hmethods : ∀ method ∈ decl.methods,
          Contains parsed.document.toNode.inner method.toNode :=
        fun method hmethod => hwhole.trans (ServiceDecl.contains_method hmethod)
      rcases List.mem_cons.1 hscope with rfl | hscope
      · refine Scope.pairwise_start_placed h Method.contains_name _
          (fun method hmethod => (hmethods method hmethod).mem) (hbehind.sublist ?_)
        simp [Declaration.toNode, Node.children]
      · obtain ⟨method, hmethod, rfl⟩ := List.mem_map.1 hscope
        have hmethod := hmethods method hmethod
        refine Scope.pairwise_start_placed h Argument.contains_name _ (fun argument hargument => ?_)
          ((hnodes _ hmethod.mem).behind.sublist ?_)
        · rcases List.mem_append.1 hargument with hargument | hargument
          · exact (hmethod.trans (Method.contains_argument hargument)).mem
          · exact (hmethod.trans (Method.contains_throws hargument)).mem
        · simp [Method.toNode, Node.children]

end

/-! ### What is kept and what is reported -/

/-- Every kept name stands for its first declaration, and no other name is kept: top-level names,
the entries of each enum and the fields of each struct. -/
structure Symbols.KeepsFirst (symbols : Symbols) (document : Document) : Prop where
  names : ∀ name, symbols.lookup name = document.declarations.findIdx? (·.name.text == name)
  entries : ∀ index decl, document.declarations[index]? = some (.enum decl) →
    ∃ entries values, symbols.enum? index = some (entries, values) ∧
      ∀ name, entries.lookup name = decl.entries.findIdx? (·.name.text == name)
  fields : ∀ index decl, document.declarations[index]? = some (.struct decl) →
    ∃ fields, symbols.struct? index = some fields ∧
      ∀ name, fields.lookup name = decl.fields.findIdx? (·.name.text == name)

theorem keepsFirst_enterSymbols (document : Document) :
    (enterSymbols document).value.KeepsFirst document where
  names := lookup_enterSymbols document
  entries index decl hdecl := by
    obtain ⟨entries, henum, hlookup⟩ := enum?_enterSymbols hdecl
    exact ⟨entries, _, henum, hlookup⟩
  fields index decl hdecl := by
    obtain ⟨fields, hvalue, hlookup⟩ := lookup_enterStruct decl
    have hmembers := members_enterSymbols document index
    rw [hdecl] at hmembers
    exact ⟨fields, Resolver.struct?_of_getElem? (hmembers.trans (congrArg some hvalue)), hlookup⟩

/-- Entering a file is silent exactly if no scope of it declares a name twice and all numbers of
enum entries fit. -/
theorem silent_enterSymbols_iff_scopes (document : Document) :
    (enterSymbols document).Silent ↔
      (∀ scope ∈ document.scopes, (scope.map (·.name.text)).Nodup) ∧
        ∀ decl, .enum decl ∈ document.declarations → ∀ place entry,
          decl.entries[place]? = some entry → FitsI32 (decl.number place entry) := by
  rw [Reporting.Silent, ← List.perm_nil, (perm_reports_enterSymbols document).congr_left,
    List.perm_nil, List.append_eq_nil_iff, misfits_eq_nil_iff, List.flatMap_eq_nil_iff, and_comm]
  simp only [Scope.redeclarations_eq_nil_iff]

/-- Scopes keep the first declaration of a name and report the rest. In every parsed file, a
declaration is reported exactly once if its name was declared before in the same scope, with a note
at the first declaration of the name and with the kind of that; declarations in a scope begin one
behind the other; what is kept of each scope is the first declaration of each name; and nothing at
all is reported exactly if the names in each scope are different and the numbers of all enum entries
fit. -/
theorem enterSymbols_keeps_first {source : Source} {parsed : ParsedDocument}
    (h : source.parse = .ok parsed) :
    ((enterSymbols parsed.document).reports.filter Report.isRedeclaration).Perm
        (parsed.document.scopes.flatMap Scope.redeclarations) ∧
      (∀ scope ∈ parsed.document.scopes, scope.Pairwise fun first item =>
        first.name.span.start < item.name.span.start) ∧
      (enterSymbols parsed.document).value.KeepsFirst parsed.document ∧
      ((enterSymbols parsed.document).Silent ↔
        (∀ scope ∈ parsed.document.scopes, (scope.map (·.name.text)).Nodup) ∧
          ∀ decl, .enum decl ∈ parsed.document.declarations → ∀ place entry,
            decl.entries[place]? = some entry → FitsI32 (decl.number place entry)) :=
  ⟨filter_isRedeclaration_enterSymbols _, Document.pairwise_start_scopes h,
    keepsFirst_enterSymbols _, silent_enterSymbols_iff_scopes _⟩

/-- A file in which every scope repeats a name: one of the arguments is repeated by an exception,
and the second declaration of `S` is of another kind than the first. -/
def crowdedFile : Source :=
  ⟨"c.thrift", "struct S \x7b i32 a i32 a \x7d enum S \x7b A B A \x7d " ++
    "service T \x7b void f(S x) throws (S x) void f() \x7d"⟩

def crowdedDocument : ParsedDocument where
  document :=
    { namespaces := []
      includes := []
      declarations := [
        .struct ⟨.struct, ⟨"S", ⟨7, 8⟩⟩,
          [⟨none, none, .builtin .i32 ⟨11, 14⟩, ⟨"a", ⟨15, 16⟩⟩, none, ⟨11, 16⟩⟩,
            ⟨none, none, .builtin .i32 ⟨17, 20⟩, ⟨"a", ⟨21, 22⟩⟩, none, ⟨17, 22⟩⟩], ⟨0, 24⟩⟩,
        .enum ⟨⟨"S", ⟨30, 31⟩⟩, [⟨⟨"A", ⟨34, 35⟩⟩, none, ⟨34, 35⟩⟩,
          ⟨⟨"B", ⟨36, 37⟩⟩, none, ⟨36, 37⟩⟩, ⟨⟨"A", ⟨38, 39⟩⟩, none, ⟨38, 39⟩⟩], ⟨25, 41⟩⟩,
        .service ⟨⟨"T", ⟨50, 51⟩⟩, none,
          [⟨false, .builtin .void ⟨54, 58⟩, ⟨"f", ⟨59, 60⟩⟩,
              [⟨none, .name ⟨⟨"S", ⟨61, 62⟩⟩, [], ⟨61, 62⟩⟩, ⟨"x", ⟨63, 64⟩⟩, ⟨61, 64⟩⟩],
              [⟨none, .name ⟨⟨"S", ⟨74, 75⟩⟩, [], ⟨74, 75⟩⟩, ⟨"x", ⟨76, 77⟩⟩, ⟨74, 77⟩⟩],
              ⟨54, 78⟩⟩,
            ⟨false, .builtin .void ⟨79, 83⟩, ⟨"f", ⟨84, 85⟩⟩, [], [], ⟨79, 87⟩⟩], ⟨42, 89⟩⟩]
      span := ⟨0, 89⟩ }
  nodes := 33

theorem parse_crowdedFile : crowdedFile.parse = .ok crowdedDocument := by
  decide +kernel

/-- One report for each of the five scopes; the names are kept where they are first declared. -/
theorem redeclarations_crowdedFile :
    crowdedFile.parse = .ok crowdedDocument ∧
      ((enterSymbols crowdedDocument.document).reports.filter Report.isRedeclaration).Perm
        [⟨.error, ⟨30, 31⟩, .redeclared "S" "struct", [⟨.note, ⟨7, 8⟩, .firstDeclared, []⟩]⟩,
          ⟨.error, ⟨21, 22⟩, .redeclared "a" "field", [⟨.note, ⟨15, 16⟩, .firstDeclared, []⟩]⟩,
          ⟨.error, ⟨38, 39⟩, .redeclared "A" "enum entry", [⟨.note, ⟨34, 35⟩, .firstDeclared, []⟩]⟩,
          ⟨.error, ⟨84, 85⟩, .redeclared "f" "method", [⟨.note, ⟨59, 60⟩, .firstDeclared, []⟩]⟩,
          ⟨.error, ⟨76, 77⟩, .redeclared "x" "argument", [⟨.note, ⟨63, 64⟩, .firstDeclared, []⟩]⟩] ∧
      (enterSymbols crowdedDocument.document).value.lookup "S" = some 0 := by
  obtain ⟨hreports, -, hkept, -⟩ := enterSymbols_keeps_first parse_crowdedFile
  exact ⟨parse_crowdedFile, hreports, hkept.names "S"⟩

end Idl
