import Idl.Proofs.Outcomes
import Idl.Proofs.PhaseDriver
import Idl.Proofs.RearrangedPhases

/-!
# Programs that are part of another

A program is embedded in another if each of its trees stands for a tree of the other, of the same
file and with includes that lead to trees that stand for one another. A phase looks at nothing but a
tree and what it includes, so it reports the same about a tree in both programs, and the values are
the same up to the numbers of trees.
-/
namespace Idl

open Reporting

/-! ### Programs without faults -/

theorem Program.IsLinked.isRead {program : Program} (h : program.IsLinked) : program.IsRead where
  parsed := h.parsed
  linked tree htree edge hedge := by
    obtain ⟨number, hnumber⟩ := List.getElem?_of_mem htree
    exact (h.ordered number tree hnumber edge hedge).trans (List.getElem?_eq_some_iff.1 hnumber).1

namespace Program

/-- No phase has anything to report about any tree. -/
def IsFlawless (program : Program) : Prop :=
  ∀ (phase : Phase) (number : Nat) (tree : SourceTree), program.trees[number]? = some tree →
    phase.reportsOn program number tree = []

variable {program : Program}

/-- What a phase reports about a tree lies at nodes of its document. -/
theorem marks_of_mem_reportsOn (h : program.IsLinked) (phase : Phase) {number : Nat}
    {tree : SourceTree} (htree : program.trees[number]? = some tree) :
    ∀ report ∈ phase.reportsOn program number tree, ∀ span ∈ report.spans,
      Node.Marks tree.document.toNode.inner span := by
  cases phase with
  | enterSymbols => exact within_enterSymbols tree.document
  | bindNames => exact within_bindNames _ number tree
  | checkTypes =>
    exact Resolver.within_checkTypes
      (Analysis.tailsMark_bindNames program program.flatten ⟨program.symbolTable, [], [], none⟩
        number tree htree)
  | checkCycles => exact Resolver.within_checkCycles _ number tree.document
  | checkUnused => exact within_checkUnused _ (h.directives tree (List.mem_of_getElem? htree))

/-- What a phase finds in a tree is what it reports about it, each report at its place. -/
theorem found_eq_map (h : program.IsLinked) (phase : Phase) {number : Nat} {tree : SourceTree}
    (htree : program.trees[number]? = some tree) :
    phase.found program number = (phase.reportsOn program number tree).map tree.source.place := by
  obtain ⟨nodes, hparsed⟩ := h.parsed tree (List.mem_of_getElem? htree)
  rw [Phase.found, htree]
  exact Source.diagnose_eq_map fun report hreport span hspan => Source.locates_of_marks hparsed
    (marks_of_mem_reportsOn h phase htree report hreport span hspan)

theorem reportsOn_eq_nil_of_isSilent (h : program.IsLinked) {phase : Phase}
    (hsilent : phase.IsSilent program) {number : Nat} {tree : SourceTree}
    (htree : program.trees[number]? = some tree) : phase.reportsOn program number tree = [] := by
  have hnil := hsilent number ((mem_flatten_iff h number).2 (List.getElem?_eq_some_iff.1 htree).1)
  rw [found_eq_map h phase htree] at hnil
  exact List.map_eq_nil_iff.1 hnil

theorem isFlawless_iff (h : program.IsLinked) :
    program.IsFlawless ↔ ∀ phase : Phase, phase.IsSilent program := by
  constructor
  · intro hflawless phase number _
    unfold Phase.found
    split
    · next tree htree => rw [hflawless phase number tree htree]; rfl
    · rfl
  · intro hsilent phase number tree htree
    exact reportsOn_eq_nil_of_isSilent h (hsilent phase) htree

theorem isSilent_of_runPhases_tables {ran left : List Phase} (h : Phase.all = ran ++ left)
    (hnil : (program.runPhases (program.tables ran ran.getLast?) left).2 = []) :
    ∀ phase ∈ left, phase.IsSilent program := by
  induction left generalizing ran with
  | nil => exact fun _ hmem => absurd hmem List.not_mem_nil
  | cons first left ih =>
    rw [runPhases_tables_cons h] at hnil
    split at hnil
    · next hfirst =>
      refine List.forall_mem_cons.2 ⟨flatMap_found_eq_nil_iff.1 hfirst, ih ?_ hnil⟩
      rw [h, List.append_assoc]
      rfl
    · next hfirst => exact absurd hnil hfirst

/-- An analysis succeeds exactly if no phase has anything to report. -/
theorem succeeded_iff_isFlawless (h : program.IsLinked) :
    program.analyze.1.succeeded = true ↔ program.IsFlawless := by
  rw [succeeded_analyze_iff, isFlawless_iff h]
  constructor
  · intro hnil phase
    refine @isSilent_of_runPhases_tables program [] Phase.all rfl hnil phase ?_
    cases phase <;> decide
  · intro hsilent
    have hrun := (@runPhases_tables program [] Phase.all rfl).2 fun phase _ => hsilent phase
    exact congrArg Prod.snd hrun

theorem IsFlawless.values_analyze (h : program.IsLinked) (hflawless : program.IsFlawless) :
    program.analyze.1.values = program.valueTable := by
  have hrun := (@runPhases_tables program [] Phase.all rfl).2 fun phase _ =>
    (isFlawless_iff h).1 hflawless phase
  exact congrArg (Analysis.values ∘ Prod.fst) hrun

theorem isClean_fullResolver (h : program.IsLinked)
    (hentered : ∀ tree ∈ program.trees, (enterSymbols tree.document).Silent)
    (hbound : ∀ number tree, program.trees[number]? = some tree →
      (bindNames program.symbolTable number tree).Silent) :
    program.fullResolver.IsClean :=
  ⟨(hasTables h).symbols, (hasTables h).bindings, hentered, hbound⟩

theorem IsFlawless.isClean (h : program.IsLinked) (hflawless : program.IsFlawless) :
    program.fullResolver.IsClean := by
  refine isClean_fullResolver h (fun tree htree => ?_) (hflawless .bindNames)
  obtain ⟨number, hnumber⟩ := List.getElem?_of_mem htree
  exact hflawless .enterSymbols number tree hnumber

end Program

/-! ### Trees that stand for others -/

/-- The edge when the trees of the program are found at other numbers. -/
def IncludeEdge.moved (place : Nat → Nat) (edge : IncludeEdge) : IncludeEdge :=
  { edge with tree := place edge.tree }

/-- The place of a declaration when the trees of the program are found at other numbers. -/
def DeclRef.moved (place : Nat → Nat) (ref : DeclRef) : DeclRef :=
  { ref with tree := place ref.tree }

/-- Trees of the same file, with edges to corresponding trees. -/
structure SourceTree.StandsFor (place : Nat → Nat) (tree other : SourceTree) : Prop where
  file : FilePath.normalize tree.source.path = FilePath.normalize other.source.path
  text : tree.source.text = other.source.text
  document : tree.document = other.document
  includes : tree.includes.map (IncludeEdge.moved place) = other.includes

/-- Each tree of the part stands for one of the whole. -/
structure Program.Embeds (place : Nat → Nat) (part whole : Program) : Prop where
  injective : Function.Injective place
  trees : ∀ number : Nat, Option.Rel (SourceTree.StandsFor place) part.trees[number]?
    whole.trees[place number]?

/-- Names in a tree of the part and in the tree it stands for are bound to corresponding
declarations. -/
abbrev Program.NamesMove (place : Nat → Nat) (part whole : Program) (number : Nat) :
    Name → Name → Prop :=
  Resolver.NamesAgree part.fullResolver whole.fullResolver (DeclRef.moved place) number
    (place number)

theorem SourceTree.StandsFor.include? {place : Nat → Nat} {tree other : SourceTree}
    (h : tree.StandsFor place other) (name : String) :
    other.include? name = (tree.include? name).map (IncludeEdge.moved place) := by
  rw [SourceTree.include?, SourceTree.include?, ← h.includes, List.find?_map]
  rfl

namespace Program.Embeds

variable {place : Nat → Nat} {part whole : Program} {number : Nat} {tree other : SourceTree}
  (h : part.Embeds place whole)

include h

theorem injective_moved : Function.Injective (DeclRef.moved place) := by
  rintro ⟨tree, index⟩ ⟨tree', index'⟩ hmoved
  obtain ⟨htree, hindex⟩ := DeclRef.mk.inj hmoved
  exact congrArg₂ DeclRef.mk (h.injective htree) hindex

theorem exists_tree (htree : part.trees[number]? = some tree) :
    ∃ other, whole.trees[place number]? = some other ∧ tree.StandsFor place other :=
  exists_of_optionRel (h.trees number) htree

theorem getElem?_eq_none (hnone : part.trees[number]? = none) :
    whole.trees[place number]? = none := by
  have hisNone := optionRel_isNone (h.trees number)
  rw [hnone] at hisNone
  exact Option.isNone_iff_eq_none.1 hisNone.symm

theorem declaration? (ref : DeclRef) :
    part.declaration? ref = whole.declaration? (ref.moved place) := by
  have htrees := h.trees ref.tree
  rw [Program.declaration?, Program.declaration?, DeclRef.moved]
  generalize part.trees[ref.tree]? = tree at htrees ⊢
  generalize whole.trees[place ref.tree]? = other at htrees ⊢
  cases htrees with
  | none => rfl
  | some hstands => exact congrArg (·.declarations[ref.index]?) hstands.document

/-- The trees that are reached from the root of the part are the trees of the part. -/
theorem reaches_iff (hlinked : part.IsLinked) (other : Nat) :
    Relation.ReflTransGen (Links whole.trees) (place part.root) other ↔
      ∃ number < part.trees.length, place number = other := by
  constructor
  · intro hreached
    induction hreached with
    | refl => exact ⟨part.root, hlinked.rooted, rfl⟩
    | tail _ hlinks ih =>
      obtain ⟨number, hnumber, rfl⟩ := ih
      have htree := List.getElem?_eq_getElem hnumber
      obtain ⟨other, hother, hstands⟩ := h.exists_tree htree
      obtain ⟨found, hfound, edge, hedge, rfl⟩ := hlinks
      obtain rfl := Option.some.inj (hother.symm.trans hfound)
      rw [← hstands.includes] at hedge
      obtain ⟨inner, hinner, rfl⟩ := List.mem_map.1 hedge
      exact ⟨inner.tree, (hlinked.ordered number _ htree inner hinner).trans hnumber, rfl⟩
  · rintro ⟨number, hnumber, rfl⟩
    refine (hlinked.reached number hnumber).lift place fun first second hlinks => ?_
    obtain ⟨tree, htree, edge, hedge, rfl⟩ := hlinks
    obtain ⟨other, hother, hstands⟩ := h.exists_tree htree
    exact ⟨other, hother, edge.moved place, hstands.includes ▸ List.mem_map_of_mem hedge, rfl⟩

/-! ### Symbols and names -/

section

variable {symbols symbols' : Table Symbols} (hsymbols : part.SymbolsOf symbols)
  (hsymbols' : whole.SymbolsOf symbols')

include hsymbols hsymbols'

theorem lookup_symbols (number : Nat) :
    symbols'.lookup (place number) = symbols.lookup number := by
  have htrees := h.trees number
  rw [hsymbols, hsymbols']
  generalize part.trees[number]? = tree at htrees ⊢
  generalize whole.trees[place number]? = other at htrees ⊢
  cases htrees with
  | none => rfl
  | some hstands => rw [Option.map_some, Option.map_some, hstands.document]

variable (hstands : tree.StandsFor place other)

include hstands

/-- A name is resolved to corresponding declarations. -/
theorem resolveName (number : Nat) (name : Name) :
    (Idl.resolveName symbols number tree name).Corresponds (DeclRef.moved place)
      (Idl.resolveName symbols' (place number) other name) := by
  have hlookup := h.lookup_symbols hsymbols hsymbols'
  unfold Idl.resolveName
  rw [hlookup number, hstands.include?]
  cases (symbols.lookup number).bind (·.lookup name.head.text) with
  | some index => exact .here ⟨rfl, rfl⟩
  | none =>
    cases tree.include? name.head.text with
    | none => exact .unknown
    | some edge =>
      cases name.tail with
      | nil => exact .bare
      | cons member tail =>
        have hthere : symbols'.lookup (edge.moved place).tree = symbols.lookup edge.tree :=
          hlookup edge.tree
        simp only [Option.map_some, hthere]
        cases (symbols.lookup edge.tree).bind (·.lookup member.text) with
        | some index => exact .included ⟨rfl, rfl⟩
        | none => exact .missing rfl

theorem silent_bindNames_iff :
    (bindNames symbols number tree).Silent ↔ (bindNames symbols' (place number) other).Silent := by
  rw [Silent, Silent, reports_bindNames, reports_bindNames, ← hstands.document,
    List.filterMap_eq_nil_iff, List.filterMap_eq_nil_iff]
  refine forall₂_congr fun name _ => ?_
  have hresolve := h.resolveName hsymbols hsymbols' hstands number name
  have hgist := hresolve.gist_failure? (Name.Alike.refl name)
  rw [← Option.map_eq_none_iff, hgist, Option.map_eq_none_iff]

theorem mem_used_iff (package : String) :
    package ∈ (bindNames symbols number tree).value.used ↔
      package ∈ (bindNames symbols' (place number) other).value.used := by
  rw [mem_used_bindNames, mem_used_bindNames, ← hstands.document]
  refine exists_congr fun name => and_congr_right fun _ => ?_
  rw [(h.resolveName hsymbols hsymbols' hstands number name).package?_eq]

end

/-! ### Phases -/

section

variable (hpart : part.IsLinked) (hwhole : whole.IsLinked)

include hpart hwhole

/-- If the whole program is flawless, the tables of the part have nothing wrong with them. -/
theorem isClean (hflawless : whole.IsFlawless) : part.fullResolver.IsClean := by
  refine isClean_fullResolver hpart (fun tree htree => ?_) fun number tree htree => ?_
  · obtain ⟨number, hnumber⟩ := List.getElem?_of_mem htree
    obtain ⟨other, hother, hstands⟩ := h.exists_tree hnumber
    rw [hstands.document]
    exact hflawless .enterSymbols _ other hother
  · obtain ⟨other, hother, hstands⟩ := h.exists_tree htree
    have hsilent : (bindNames whole.symbolTable (place number) other).Silent :=
      hflawless .bindNames _ other hother
    exact (h.silent_bindNames_iff (hasTables hpart).symbols (hasTables hwhole).symbols hstands).2
      hsilent

variable (hflawless : whole.IsFlawless)

include hflawless

theorem namesAgree (htree : part.trees[number]? = some tree)
    (hother : whole.trees[place number]? = some other) {name : Name}
    (hname : name ∈ tree.document.references) :
    NamesMove place part whole number name name where
  alike := .refl name
  bindings := by
    have hstands := optionRel_of_some (h.trees number) htree hother
    rw [Resolver.binding?_eq (h.isClean hpart hwhole hflawless) hpart.isRead htree hname,
      Resolver.binding?_eq (hflawless.isClean hwhole) hwhole.isRead hother
        (hstands.document ▸ hname)]
    exact (h.resolveName (hasTables hpart).symbols (hasTables hwhole).symbols hstands number
      name).binding?

theorem matches_declaration (htree : part.trees[number]? = some tree)
    (hother : whole.trees[place number]? = some other) {declaration : Declaration}
    (hmem : declaration ∈ tree.document.declarations) :
    declaration.Matches (NamesMove place part whole number)
      (TypeRef.Matches (NamesMove place part whole number)) declaration := by
  have hnames : ∀ name ∈ declaration.references, ∀ name', name = name' →
      NamesMove place part whole number name name' := by
    rintro name hname _ rfl
    exact h.namesAgree hpart hwhole hflawless htree hother
      (List.mem_flatMap.2 ⟨declaration, hmem, hname⟩)
  have hrefl : declaration.Matches Eq (TypeRef.Matches Eq) declaration :=
    .refl (fun _ => rfl) (TypeRef.Matches.refl fun _ => rfl) declaration
  refine hrefl.imp (fun name hname name' _ => hnames name hname name')
    fun type htype type' _ htypes => ?_
  exact htypes.imp fun name hname name' _ =>
    hnames name (Declaration.references_subset_of_mem_types htype hname) name'

/-- The resolvers agree on every declaration of the part. -/
theorem agrees :
    Resolver.Agrees part.fullResolver whole.fullResolver (DeclRef.moved place) where
  injective := h.injective_moved
  declared ref := by
    have hdeclared : whole.fullResolver.declaration? (ref.moved place) =
      part.fullResolver.declaration? ref := (h.declaration? ref).symm
    rw [hdeclared]
    cases hdecl : part.fullResolver.declaration? ref with
    | none => exact .none
    | some declaration =>
      obtain ⟨tree, htree, hget⟩ := Option.bind_eq_some_iff.1 hdecl
      obtain ⟨other, hother, -⟩ := h.exists_tree htree
      refine .some ((h.matches_declaration hpart hwhole hflawless htree hother
        (List.mem_of_getElem? hget)).imp (fun _ _ _ _ => id) fun _ _ _ _ => ?_)
      exact Resolver.typesAgree_of_matches

theorem matches_checkedAlike (htree : part.trees[number]? = some tree)
    (hother : whole.trees[place number]? = some other) {declaration : Declaration}
    (hmem : declaration ∈ tree.document.declarations) :
    declaration.Matches (NamesMove place part whole number)
      (Resolver.CheckedAlike part.fullResolver whole.fullResolver (DeclRef.moved place) number
        (place number)) declaration :=
  (h.matches_declaration hpart hwhole hflawless htree hother hmem).imp (fun _ _ _ _ => id)
    fun _ _ _ _ => Resolver.checkedAlike_of_matches (h.agrees hpart hwhole hflawless)

theorem isChecked : part.fullResolver.IsChecked := by
  intro number tree htree
  obtain ⟨other, hother, hstands⟩ := h.exists_tree htree
  have hsilent : (whole.fullResolver.checkTypes (place number) other.document).Silent :=
    hflawless .checkTypes _ other hother
  rw [← hstands.document, Resolver.silent_checkTypes_iff] at hsilent
  rw [Resolver.silent_checkTypes_iff]
  intro index declaration hget
  have hmatches := h.matches_checkedAlike hpart hwhole hflawless htree hother
    (List.mem_of_getElem? hget)
  exact (Resolver.agree_checkDeclaration (h.agrees hpart hwhole hflawless)
    (h.isClean hpart hwhole hflawless) (hflawless.isClean hwhole) rfl hmatches .empty
    .empty).silent_iff.2 (hsilent index declaration hget)

theorem silent_checkCycles (htree : part.trees[number]? = some tree) :
    (part.fullResolver.checkCycles number tree.document).Silent := by
  obtain ⟨other, hother, hstands⟩ := h.exists_tree htree
  have hsilent : (whole.fullResolver.checkCycles (place number) other.document).Silent :=
    hflawless .checkCycles _ other hother
  have hclean := h.isClean hpart hwhole hflawless
  have hchecked := h.isChecked hpart hwhole hflawless
  have hchecked' : whole.fullResolver.IsChecked := hflawless .checkTypes
  have hagrees := h.agrees hpart hwhole hflawless
  rw [← hstands.document, Resolver.silent_checkCycles_iff] at hsilent
  rw [Resolver.silent_checkCycles_iff]
  intro index declaration hget
  have hdecl : part.fullResolver.declaration? ⟨number, index⟩ = some declaration :=
    Resolver.declaration?_of_getElem? htree hget
  have hdecl' : whole.fullResolver.declaration? ⟨place number, index⟩ = some declaration :=
    Resolver.declaration?_of_getElem? hother (hstands.document ▸ hget)
  exact (Resolver.agree_checkCycle hagrees (Resolver.typesResolve_of_isChecked hclean hchecked)
    (Resolver.typedefsEnd_of_isChecked hchecked)
    (Resolver.typesResolve_of_isChecked (hflawless.isClean hwhole) hchecked')
    (Resolver.typedefsEnd_of_isChecked hchecked') rfl hdecl hdecl'
    (optionRel_of_some (hagrees.declared ⟨number, index⟩) hdecl hdecl')).silent_iff.2
      (hsilent index declaration hget)

omit hflawless in
theorem agree_checkUnused (htree : part.trees[number]? = some tree)
    (hother : whole.trees[place number]? = some other) :
    Agree (fun _ _ => True)
      (checkUnused tree ((part.bindingTable.lookup number).getD .empty))
      (checkUnused other ((whole.bindingTable.lookup (place number)).getD .empty)) := by
  have hstands := optionRel_of_some (h.trees number) htree hother
  rw [(hasTables hpart).bindings, (hasTables hwhole).bindings, htree, hother]
  refine Idl.agree_checkUnused ?_ fun package =>
    h.mem_used_iff (hasTables hpart).symbols (hasTables hwhole).symbols hstands package
  rw [← hstands.includes, List.forall₂_map_right_iff]
  exact List.forall₂_same.2 fun _ _ => ⟨rfl, rfl⟩

/-- A part of a flawless program is flawless. -/
theorem isFlawless : part.IsFlawless := by
  intro phase number tree htree
  obtain ⟨other, hother, hstands⟩ := h.exists_tree htree
  cases phase with
  | enterSymbols =>
    exact (h.isClean hpart hwhole hflawless).entered tree (List.mem_of_getElem? htree)
  | bindNames => exact (h.isClean hpart hwhole hflawless).bound number tree htree
  | checkTypes => exact h.isChecked hpart hwhole hflawless number tree htree
  | checkCycles => exact h.silent_checkCycles hpart hwhole hflawless htree
  | checkUnused =>
    exact (h.agree_checkUnused hpart hwhole htree hother).silent_iff.2
      (hflawless .checkUnused _ other hother)

/-- Constants and fields have the same values in the part, up to the numbers of trees. -/
theorem values_correspond (htree : part.trees[number]? = some tree)
    (hother : whole.trees[place number]? = some other) :
    (part.fullResolver.checkTypes number tree.document).value.Corresponds (DeclRef.moved place) id
      (whole.fullResolver.checkTypes (place number) other.document).value := by
  have hstands := optionRel_of_some (h.trees number) htree hother
  have hagrees := h.agrees hpart hwhole hflawless
  have hclean := h.isClean hpart hwhole hflawless
  have hclean' := hflawless.isClean hwhole
  rw [← hstands.document]
  constructor
  · intro index
    rw [Resolver.lookup_constants, Resolver.lookup_constants, id]
    cases hget : tree.document.declarations[index]? with
    | none => rfl
    | some declaration =>
      exact Resolver.same_constantValue hagrees hclean hclean'
        (h.matches_checkedAlike hpart hwhole hflawless htree hother (List.mem_of_getElem? hget))
  · intro index field
    rw [Resolver.lookup_defaults, Resolver.lookup_defaults, id]
    cases hget : tree.document.declarations[index]? with
    | none => rfl
    | some declaration =>
      exact Resolver.same_defaultValues hagrees hclean hclean'
        (h.matches_checkedAlike hpart hwhole hflawless htree hother (List.mem_of_getElem? hget))
        field

end

end Program.Embeds

end Idl
