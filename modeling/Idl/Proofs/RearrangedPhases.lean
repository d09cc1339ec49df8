import Idl.Proofs.AgreeingCycles
import Idl.Proofs.RearrangedPrograms

/-!
# Phases over rearranged programs

Each phase reports something about a tree exactly if it does so about the tree with rearranged
declarations. If there are no further typedefs, the same is reported, in another order.
-/
namespace Idl

open Reporting

/-- The same gists in another order. -/
def SameGists (reports reports' : List Report) : Prop :=
  (reports.map Report.gist).Perm (reports'.map Report.gist)

theorem Reporting.silent_flatMap_zipIdx_iff {α β : Type} {x : Reporting α} {items : List β}
    {f : Nat → β → List Report} (h : x.reports = items.zipIdx.flatMap fun item => f item.2 item.1) :
    x.Silent ↔ ∀ index item, items[index]? = some item → f index item = [] := by
  rw [Silent, h, List.flatMap_eq_nil_iff]
  simp only [Prod.forall, List.mem_zipIdx_iff_getElem?]
  exact ⟨fun h index item => h item index, fun h item index => h index item⟩

theorem forall_mem_iff_getElem? {α : Type} {list : List α} {p : α → Prop} :
    (∀ item ∈ list, p item) ↔ ∀ (index : Nat) item, list[index]? = some item → p item :=
  ⟨fun h _ item hitem => h item (List.mem_of_getElem? hitem), fun h item hitem => by
    obtain ⟨index, hindex⟩ := List.getElem?_of_mem hitem
    exact h index item hindex⟩

namespace Document.Places

variable {document document' : Document} {place : Nat → Nat}

/-- Reports about the declarations one by one are the same in another order. -/
theorem sameGists (h : document.Places [] document' place) {f g : Nat → Declaration → List Report}
    (hsame : ∀ index declaration declaration', document.declarations[index]? = some declaration →
      document'.declarations[place index]? = some declaration' →
        (f index declaration).map Report.gist = (g (place index) declaration').map Report.gist) :
    SameGists (document.declarations.zipIdx.flatMap fun item => f item.2 item.1)
      (document'.declarations.zipIdx.flatMap fun item => g item.2 item.1) := by
  rw [SameGists, List.map_flatMap, List.map_flatMap]
  exact h.perm_flatMap (f := fun index declaration => (f index declaration).map Report.gist)
    (g := fun index declaration => (g index declaration).map Report.gist) hsame

end Document.Places

theorem flatMap_eq_flatMap_zipIdx {α β : Type} (list : List α) (f : α → List β) :
    list.flatMap f = list.zipIdx.flatMap fun item => f item.1 := by
  conv_lhs => rw [← List.zipIdx_map_fst 0 list]
  rw [List.flatMap_map]

namespace Program.Abbreviates

variable {names : List String} {typedefs : Nat → List TypedefDecl} {place : Nat → Nat → Nat}
  {program program' : Program} {number : Nat} {tree tree' : SourceTree}
  (h : program.Abbreviates names typedefs place program')
  (htree : program.trees[number]? = some tree) (htree' : program'.trees[number]? = some tree')

include h htree htree'

/-! ### Entering symbols -/

theorem silent_enterSymbols_iff :
    (enterSymbols tree.document).Silent ↔ (enterSymbols tree'.document).Silent := by
  have hplaces := h.places number tree tree' htree htree'
  rw [Idl.silent_enterSymbols_iff, Idl.silent_enterSymbols_iff, h.nodup_iff htree htree',
    forall_mem_iff_getElem?, forall_mem_iff_getElem?]
  refine and_congr_right fun _ => hplaces.forall_iff
    (p := fun _ declaration => (enterMembers declaration).Silent)
    (q := fun _ declaration => (enterMembers declaration).Silent) ?_ fun _ _ _ _ => silent_pure _
  intro index declaration declaration' hdecl hdecl'
  exact (agree_enterMembers (optionRel_of_some (hplaces.declared index) hdecl hdecl')).silent_iff

theorem sameGists_enterSymbols (hnone : typedefs number = [])
    (hnodup : (tree.document.declarations.map (·.name.text)).Nodup) :
    SameGists (enterSymbols tree.document).reports (enterSymbols tree'.document).reports := by
  have hplaces := h.places number tree tree' htree htree'
  rw [hnone] at hplaces
  rw [reports_enterSymbols_of_nodup _ hnodup,
    reports_enterSymbols_of_nodup _ ((h.nodup_iff htree htree').1 hnodup),
    flatMap_eq_flatMap_zipIdx tree.document.declarations,
    flatMap_eq_flatMap_zipIdx tree'.document.declarations]
  refine hplaces.sameGists (f := fun _ declaration => (enterMembers declaration).reports)
    (g := fun _ declaration => (enterMembers declaration).reports) ?_
  intro index declaration declaration' hdecl hdecl'
  exact (agree_enterMembers (optionRel_of_some (hplaces.declared index) hdecl hdecl')).reports

/-! ### Binding names -/

section

variable {symbols symbols' : Table Symbols} (hsymbols : program.SymbolsOf symbols)
  (hsymbols' : program'.SymbolsOf symbols') (hdistinct : program.NamesDistinct)

include hsymbols hsymbols' hdistinct

theorem resolveName_reference {name name' : Name} (hname : name ∈ tree.document.references)
    (halike : name.Alike name') :
    (Idl.resolveName symbols number tree name).Corresponds (DeclRef.placed place)
      (Idl.resolveName symbols' number tree' name') := by
  exact h.resolveName hsymbols hsymbols' hdistinct
    (optionRel_of_some (h.trees number) htree htree') halike
    ((h.avoids tree (List.mem_of_getElem? htree)).referenced name hname)

/-- What resolves in the first tree does so in the second, and the names of typedefs do too. -/
theorem forall_reference_iff {p : Resolution → Prop}
    (hp : ∀ resolution resolution', resolution.Corresponds (DeclRef.placed place) resolution' →
      (p resolution ↔ p resolution')) (hhere : ∀ binding, p (.here binding)) :
    (∀ name ∈ tree.document.references, p (Idl.resolveName symbols number tree name)) ↔
      ∀ name' ∈ tree'.document.references, p (Idl.resolveName symbols' number tree' name') := by
  have hdocument := h.document htree htree'
  have hcorresponds {name name' : Name} (hname : name ∈ tree.document.references)
      (halike : name.Alike name') :=
    hp _ _ (h.resolveName_reference htree htree' hsymbols hsymbols' hdistinct hname halike)
  constructor
  · intro hall name' hname'
    rcases hdocument.exists_reference_back hname' with ⟨name, hname, halike⟩ | ⟨decl, hdecl, hnamed⟩
    · exact (hcorresponds hname halike).1 (hall name hname)
    · obtain ⟨index', hresolve, -⟩ :=
        h.resolveName_typedef hsymbols' hdistinct htree' hdecl hnamed
      rw [hresolve]
      exact hhere _
  · intro hall name hname
    obtain ⟨name', hname', halike⟩ := hdocument.exists_reference hname
    exact (hcorresponds hname halike).2 (hall name' hname')

theorem silent_bindNames_iff :
    (bindNames symbols number tree).Silent ↔ (bindNames symbols' number tree').Silent := by
  have hsilent (symbols : Table Symbols) (tree : SourceTree) :
      (bindNames symbols number tree).Silent ↔ ∀ name ∈ tree.document.references,
        (Idl.resolveName symbols number tree name).binding?.isSome := by
    rw [Silent, reports_bindNames, List.filterMap_eq_nil_iff]
    refine forall₂_congr fun name _ => ?_
    cases Idl.resolveName symbols number tree name <;>
      simp [Resolution.outcome, failure?, Resolution.binding?]
  rw [hsilent, hsilent]
  refine h.forall_reference_iff htree htree' hsymbols hsymbols' hdistinct
    (p := fun resolution => resolution.binding?.isSome) (fun _ _ hcorresponds => ?_) fun _ => rfl
  cases hcorresponds <;> rfl

/-- Names go through the same packages. -/
theorem mem_used_iff (package : String) :
    package ∈ (bindNames symbols number tree).value.used ↔
      package ∈ (bindNames symbols' number tree').value.used := by
  rw [mem_used_bindNames, mem_used_bindNames, ← not_iff_not]
  push Not
  refine h.forall_reference_iff htree htree' hsymbols hsymbols' hdistinct
    (p := fun resolution => resolution.package? ≠ some package) (fun _ _ hcorresponds => ?_)
    fun _ => nofun
  rw [hcorresponds.package?_eq]

theorem sameGists_bindNames (hnone : typedefs number = []) :
    SameGists (bindNames symbols number tree).reports
      (bindNames symbols' number tree').reports := by
  have hplaces := h.places number tree tree' htree htree'
  rw [hnone] at hplaces
  rw [reports_bindNames, reports_bindNames, Document.references, Document.references,
    List.filterMap_flatMap, List.filterMap_flatMap,
    flatMap_eq_flatMap_zipIdx tree.document.declarations,
    flatMap_eq_flatMap_zipIdx tree'.document.declarations]
  refine hplaces.sameGists
    (f := fun _ declaration => declaration.references.filterMap fun name =>
      failure? ((Idl.resolveName symbols number tree name).outcome name))
    (g := fun _ declaration => declaration.references.filterMap fun name =>
      failure? ((Idl.resolveName symbols' number tree' name).outcome name)) ?_
  intro index declaration declaration' hdecl hdecl'
  have hmatches := optionRel_of_some (hplaces.declared index) hdecl hdecl'
  have hreferences : List.Forall₂ (fun name name' => name ∈ tree.document.references ∧
      name.Alike name') declaration.references declaration'.references := by
    have halike := (hmatches.imp (fun _ _ _ _ h => h) fun _ _ _ _ h => h.matches).references
    exact forall₂_imp_mem halike fun name hname _ _ h =>
      ⟨List.mem_flatMap.2 ⟨declaration, List.mem_of_getElem? hdecl, hname⟩, h⟩
  simp only [List.map_filterMap]
  generalize declaration.references = list at hreferences
  generalize declaration'.references = list' at hreferences
  induction hreferences with
  | nil => rfl
  | cons head _ ih =>
    have hgist := (h.resolveName_reference htree htree' hsymbols hsymbols' hdistinct head.1
      head.2).gist_failure? head.2
    rw [List.filterMap_cons, List.filterMap_cons, hgist, ih]

end

end Program.Abbreviates

/-! ### Checks -/

/-- The same values of constants and of fields of structs at corresponding places, up to the places
of enums. -/
structure Values.Corresponds (image : DeclRef → DeclRef) (place : Nat → Nat)
    (values values' : Values) : Prop where
  constants : ∀ index, (values.constants.lookup index).map (Value.rename image) =
    values'.constants.lookup (place index)
  defaults : ∀ index field, (values.defaults.lookup (index, field)).map (Value.rename image) =
    values'.defaults.lookup (place index, field)

namespace Resolver

theorem silent_checkTypes_iff (resolver : Resolver) (here : Nat) (document : Document) :
    (resolver.checkTypes here document).Silent ↔
      ∀ index declaration, document.declarations[index]? = some declaration →
        (resolver.checkDeclaration here index .empty declaration).Silent :=
  silent_flatMap_zipIdx_iff (f := fun index declaration =>
    (resolver.checkDeclaration here index .empty declaration).reports)
    (resolver.reports_checkTypes here document)

theorem silent_checkCycles_iff (resolver : Resolver) (here : Nat) (document : Document) :
    (resolver.checkCycles here document).Silent ↔
      ∀ index declaration, document.declarations[index]? = some declaration →
        (resolver.checkCycle here index declaration).Silent :=
  silent_flatMap_zipIdx_iff (f := fun index declaration =>
    (resolver.checkCycle here index declaration).reports)
    (resolver.reports_checkCycles here document)

theorem typesFit_of_isChecked {resolver : Resolver} (hclean : resolver.IsClean)
    (hchecked : resolver.IsChecked) : resolver.TypesFit := by
  refine IsFaultless.typesFit hclean fun number tree htree report hreport => ?_
  rw [hchecked number tree htree] at hreport
  cases hreport

variable {old new : Resolver} {names : List String} {typedefs : Nat → List TypedefDecl}
  {place : Nat → Nat → Nat} (hold : old.IsClean) (hnew : new.IsClean)
  (hread : old.program.IsRead) (hread' : new.program.IsRead)
  (h : old.program.Abbreviates names typedefs place new.program)

theorem declaration?_of_getElem? {resolver : Resolver} {number : Nat} {tree : SourceTree}
    (htree : resolver.program.trees[number]? = some tree) {index : Nat} {declaration : Declaration}
    (hget : tree.document.declarations[index]? = some declaration) :
    resolver.declaration? ⟨number, index⟩ = some declaration := by
  rw [declaration?, Program.declaration?, htree]
  exact hget

include hold hnew hread hread' h

/-- If types fit in both programs, the types of corresponding declarations are checked alike. -/
theorem matches_checkedAlike_of_typesFit (hfit : old.TypesFit) (hfit' : new.TypesFit)
    {number : Nat} {tree tree' : SourceTree} (htree : old.program.trees[number]? = some tree)
    (htree' : new.program.trees[number]? = some tree') {index : Nat}
    {declaration declaration' : Declaration}
    (hget : tree.document.declarations[index]? = some declaration)
    (hget' : tree'.document.declarations[place number index]? = some declaration') :
    declaration.Matches (NamesAgree old new (DeclRef.placed place) number number)
      (CheckedAlike old new (DeclRef.placed place) number number) declaration' := by
  have hagrees := (abbreviates hold hnew hread hread' h).agrees
  have hdecl := declaration?_of_getElem? htree hget
  have hdecl' : new.declaration? (DeclRef.placed place ⟨number, index⟩) = some declaration' :=
    declaration?_of_getElem? htree' hget'
  exact checkedAlike_of_typesFit hfit hfit' hdecl hdecl'
    (optionRel_of_some (hagrees.declared _) hdecl hdecl')

/-- If types fit in both programs, the type check of a tree finds something in both or in
neither. -/
theorem silent_checkTypes_iff_of_typesFit (hfit : old.TypesFit) (hfit' : new.TypesFit)
    {number : Nat} {tree tree' : SourceTree} (htree : old.program.trees[number]? = some tree)
    (htree' : new.program.trees[number]? = some tree') :
    (old.checkTypes number tree.document).Silent ↔
      (new.checkTypes number tree'.document).Silent := by
  have hagrees := (abbreviates hold hnew hread hread' h).agrees
  rw [silent_checkTypes_iff, silent_checkTypes_iff]
  refine (h.places number tree tree' htree htree').forall_iff
    (p := fun index declaration => (old.checkDeclaration number index .empty declaration).Silent)
    (q := fun index declaration => (new.checkDeclaration number index .empty declaration).Silent)
    ?_ ?_
  · intro index declaration declaration' hget hget'
    have hmatches := matches_checkedAlike_of_typesFit hold hnew hread hread' h hfit hfit' htree
      htree' hget hget'
    exact (agree_checkDeclaration hagrees hold hnew rfl hmatches .empty .empty).silent_iff
  · intro index' decl _ hget'
    have haccepts := (faultless_checkDeclaration_iff index' (.typedef decl)).2
      (hfit'.accepts hnew htree' hget')
    refine (silent_iff_all_not ?_).1 haccepts
    exact (new.all_checkTypedef number coversFaults_faultsType index' decl).bind fun _ => all_pure _

/-- If types fit in both programs, corresponding places of a tree have the same values. -/
theorem values_correspond_of_typesFit (hfit : old.TypesFit) (hfit' : new.TypesFit)
    {number : Nat} {tree tree' : SourceTree} (htree : old.program.trees[number]? = some tree)
    (htree' : new.program.trees[number]? = some tree') :
    (old.checkTypes number tree.document).value.Corresponds (DeclRef.placed place) (place number)
      (new.checkTypes number tree'.document).value := by
  have hagrees := (abbreviates hold hnew hread hread' h).agrees
  have hplaces := h.places number tree tree' htree htree'
  have hvalues {index : Nat} {β : Type} {value value' : Declaration → Option β}
      {rename : β → β} (hvalue : ∀ declaration declaration',
        declaration.Matches (NamesAgree old new (DeclRef.placed place) number number)
          (CheckedAlike old new (DeclRef.placed place) number number) declaration' →
        (value declaration).map rename = value' declaration') :
      (tree.document.declarations[index]?.bind value).map rename =
        tree'.document.declarations[place number index]?.bind value' := by
    cases hget : tree.document.declarations[index]? with
    | some declaration =>
      obtain ⟨declaration', hget', -⟩ := hplaces.exists_matches hget
      rw [hget']
      exact hvalue _ _ (matches_checkedAlike_of_typesFit hold hnew hread hread' h hfit hfit' htree
        htree' hget hget')
    | none =>
      cases hget' : tree'.document.declarations[place number index]? with
      | none => rfl
      | some declaration' =>
        obtain ⟨declaration, hdecl, -⟩ := hplaces.exists_matches_back hget'
        cases hget.symm.trans hdecl
  constructor
  · intro index
    rw [lookup_constants, lookup_constants]
    exact hvalues fun _ _ hmatches => same_constantValue hagrees hold hnew hmatches
  · intro index field
    rw [lookup_defaults, lookup_defaults]
    exact hvalues fun _ _ hmatches => same_defaultValues hagrees hold hnew hmatches field

/-- The type check finds something in both programs or in neither. -/
theorem isChecked_iff : old.IsChecked ↔ new.IsChecked := by
  have habbreviates := abbreviates hold hnew hread hread' h
  have hiff (hfit : old.TypesFit) (hfit' : new.TypesFit) : old.IsChecked ↔ new.IsChecked := by
    constructor
    · intro hchecked number tree' htree'
      obtain ⟨tree, htree, -⟩ := h.exists_tree_back htree'
      exact (silent_checkTypes_iff_of_typesFit hold hnew hread hread' h hfit hfit' htree
        htree').1 (hchecked number tree htree)
    · intro hchecked number tree htree
      obtain ⟨tree', htree', -⟩ := h.exists_tree htree
      exact (silent_checkTypes_iff_of_typesFit hold hnew hread hread' h hfit hfit' htree
        htree').2 (hchecked number tree' htree')
  constructor
  · intro hchecked
    have hfit := typesFit_of_isChecked hold hchecked
    exact (hiff hfit (habbreviates.typesFit hfit)).1 hchecked
  · intro hchecked
    have hfit' := typesFit_of_isChecked hnew hchecked
    exact (hiff (habbreviates.typesFit_back hfit') hfit').2 hchecked

section

variable {number : Nat} {tree tree' : SourceTree}
  (htree : old.program.trees[number]? = some tree)
  (htree' : new.program.trees[number]? = some tree')

include htree htree'

theorem sameGists_checkTypes (hnone : typedefs number = []) :
    SameGists (old.checkTypes number tree.document).reports
      (new.checkTypes number tree'.document).reports := by
  have hagrees := (abbreviates hold hnew hread hread' h).agrees
  have hplaces := h.places number tree tree' htree htree'
  rw [hnone] at hplaces
  rw [reports_checkTypes, reports_checkTypes]
  refine hplaces.sameGists
    (f := fun index declaration => (old.checkDeclaration number index .empty declaration).reports)
    (g := fun index declaration =>
      (new.checkDeclaration number index .empty declaration).reports) ?_
  intro index declaration declaration' hget hget'
  have hmatches := optionRel_of_some (hplaces.declared index) hget hget'
  have hnames : ∀ name ∈ declaration.references, ∀ name' ∈ declaration'.references,
      name.Alike name' → NamesAgree old new (DeclRef.placed place) number number name name' :=
    fun name hname name' hname' halike => namesAgree hold hnew hread hread' h htree htree'
      (List.mem_flatMap.2 ⟨declaration, List.mem_of_getElem? hget, hname⟩)
      (List.mem_flatMap.2 ⟨declaration', List.mem_of_getElem? hget', hname'⟩) halike
  have halike : declaration.Matches (NamesAgree old new (DeclRef.placed place) number number)
      (CheckedAlike old new (DeclRef.placed place) number number) declaration' := by
    refine hmatches.imp hnames fun type htype type' htype' htypes => ?_
    refine checkedAlike_of_matches hagrees (htypes.matches.imp fun name hname name' hname' => ?_)
    exact hnames name (Declaration.references_subset_of_mem_types htype hname) name'
      (Declaration.references_subset_of_mem_types htype' hname')
  exact (agree_checkDeclaration hagrees hold hnew rfl halike .empty .empty).reports

/-! ### Cycles and unused includes -/

variable (hchecked : old.IsChecked)

include hchecked

theorem agree_checkCycle_of_isChecked {index : Nat} {declaration declaration' : Declaration}
    (hget : tree.document.declarations[index]? = some declaration)
    (hget' : tree'.document.declarations[place number index]? = some declaration') :
    Agree (fun _ _ => True) (old.checkCycle number index declaration)
      (new.checkCycle number (place number index) declaration') := by
  have hagrees := (abbreviates hold hnew hread hread' h).agrees
  have hchecked' := (isChecked_iff hold hnew hread hread' h).1 hchecked
  have hdecl := declaration?_of_getElem? htree hget
  have hdecl' := declaration?_of_getElem? htree' hget'
  exact agree_checkCycle hagrees (typesResolve_of_isChecked hold hchecked)
    (typedefsEnd_of_isChecked hchecked) (typesResolve_of_isChecked hnew hchecked')
    (typedefsEnd_of_isChecked hchecked') rfl hdecl hdecl'
    (optionRel_of_some (hagrees.declared ⟨number, index⟩) hdecl hdecl')

theorem silent_checkCycles_iff_of_isChecked :
    (old.checkCycles number tree.document).Silent ↔
      (new.checkCycles number tree'.document).Silent := by
  rw [silent_checkCycles_iff, silent_checkCycles_iff]
  refine (h.places number tree tree' htree htree').forall_iff
    (p := fun index declaration => (old.checkCycle number index declaration).Silent)
    (q := fun index declaration => (new.checkCycle number index declaration).Silent)
    ?_ fun _ _ _ _ => silent_pure _
  intro index declaration declaration' hget hget'
  exact (agree_checkCycle_of_isChecked hold hnew hread hread' h htree htree' hchecked hget
    hget').silent_iff

theorem sameGists_checkCycles (hnone : typedefs number = []) :
    SameGists (old.checkCycles number tree.document).reports
      (new.checkCycles number tree'.document).reports := by
  have hplaces := h.places number tree tree' htree htree'
  rw [hnone] at hplaces
  rw [reports_checkCycles, reports_checkCycles]
  refine hplaces.sameGists
    (f := fun index declaration => (old.checkCycle number index declaration).reports)
    (g := fun index declaration => (new.checkCycle number index declaration).reports) ?_
  intro index declaration declaration' hget hget'
  exact (agree_checkCycle_of_isChecked hold hnew hread hread' h htree htree' hchecked hget
    hget').reports

end

end Resolver

theorem agree_checkUnused {tree tree' : SourceTree}
    (h : List.Forall₂ (fun edge edge' : IncludeEdge => edge.name = edge'.name ∧
      edge.directive.path.text = edge'.directive.path.text) tree.includes tree'.includes)
    {bindings bindings' : Bindings}
    (hused : ∀ package, package ∈ bindings.used ↔ package ∈ bindings'.used) :
    Agree (fun _ _ => True) (checkUnused tree bindings) (checkUnused tree' bindings') := by
  refine agree_forM h fun edge edge' hedge => ?_
  obtain ⟨hname, hpath⟩ := hedge
  refine Agree.ite (by rw [hname, hused]) (fun _ => agree_pure trivial) fun _ => ?_
  exact agree_error (congrArg Message.unusedInclude hpath) trivial

end Idl
