import Idl.Proofs.CheckedValues
import Idl.Proofs.Containment
import Idl.Proofs.Reports

/-!
# Structs that contain themselves

The search for a struct leaves alone the structs that it is inside of, so a way that comes back to
one of them is cut. Nothing is missed: what is reached from a struct is also reached without coming
back to it. So each struct that contains itself is reported, once, and no other.
-/
namespace Idl

open Relation Reporting

/-- A walk that leaves a place leaves it a last time, unless it never does. -/
theorem last_departure {α : Type} {r : α → α → Prop} {a b : α} (h : ReflTransGen r a b)
    (place : α) :
    ReflTransGen (fun x y => x ≠ place ∧ r x y) a b ∨
      ∃ next, r place next ∧ ReflTransGen (fun x y => x ≠ place ∧ r x y) next b := by
  induction h using ReflTransGen.head_induction_on with
  | refl => exact .inl .refl
  | @head a next hstep _ ih =>
    rcases ih with havoids | hleaves
    · by_cases hplace : a = place
      · exact .inr ⟨next, hplace ▸ hstep, havoids⟩
      · exact .inl (havoids.head ⟨hplace, hstep⟩)
    · exact .inr hleaves

theorem Search.first_spec {α : Type} {places : List α} {look : α → Search}
    (h : ∀ place ∈ places, look place ≠ .endless) :
    first places look ≠ .endless ∧
      (first places look = .found ↔ ∃ place ∈ places, look place = .found) := by
  induction places with
  | nil => simp [first]
  | cons place places ih =>
    have hplace := h place List.mem_cons_self
    obtain ⟨hrest, hfound⟩ := ih fun other hother => h other (List.mem_cons_of_mem _ hother)
    rw [first]
    cases hlook : look place with
    | found => simp [hlook]
    | absent => simp [hlook, hrest, hfound]
    | endless => exact absurd hlook hplace

/-- What is found in the items of a list, each in its place, is in order. -/
theorem pairwise_filterMap_zipIdx {α β : Type} {find : α × Nat → Option β} {place : β → Nat}
    (h : ∀ item index found, find (item, index) = some found → place found = index)
    (items : List α) :
    (items.zipIdx.filterMap find).Pairwise fun first second => place first < place second := by
  have hplaces : items.zipIdx.Pairwise fun first second => first.2 < second.2 := by
    rw [← List.pairwise_map, List.zipIdx_map_snd]
    exact List.pairwise_lt_range'
  refine hplaces.filterMap _ fun item other hlt found hfound found' hfound' => ?_
  rw [h _ _ found hfound, h _ _ found' hfound']
  exact hlt

/-- The report says that a struct contains itself. -/
def Report.isCyclicStruct (report : Report) : Bool :=
  report.message matches .cyclicStruct _ _

namespace Resolver

/-- A struct contains another, where the first is one of a list. -/
def ContainsWithin (resolver : Resolver) (idle : List DeclRef) (struct other : DeclRef) : Prop :=
  struct ∈ idle ∧ resolver.Contains struct other

/-- A type holds a struct that is the one asked for or comes to it through structs of a list. -/
def ReachesWithin (resolver : Resolver) (idle : List DeclRef) (type : LocatedType)
    (struct : DeclRef) : Prop :=
  ∃ held, resolver.HoldsStruct type held ∧
    ReflTransGen (resolver.ContainsWithin idle) held struct

/-- A type holds a struct that is the one asked for or contains it by some steps. -/
def Reaches (resolver : Resolver) (type : LocatedType) (struct : DeclRef) : Prop :=
  ∃ held, resolver.HoldsStruct type held ∧ ReflTransGen resolver.Contains held struct

variable {resolver : Resolver}

/-- What is reached from a struct is reached without coming back to it. -/
theorem reachesWithin_erase {idle : List DeclRef} {held origin : DeclRef} (hne : held ≠ origin)
    (h : ReflTransGen (resolver.ContainsWithin idle) held origin) :
    held ∈ idle ∧ ∃ type ∈ resolver.fieldTypes held,
      resolver.ReachesWithin (idle.erase held) type origin := by
  -- the way goes on from where it leaves `held` for the last time
  rcases last_departure h held with havoids | ⟨next, ⟨hidle, type, htype, hholds⟩, hrest⟩
  · rcases havoids.cases_head with heq | ⟨next, ⟨hheld, -⟩, -⟩
    · exact absurd heq hne
    · exact absurd rfl hheld
  · refine ⟨hidle, type, htype, next, hholds, ReflTransGen.mono ?_ _ _ hrest⟩
    rintro struct other ⟨hstruct, hmem, hcontains⟩
    exact ⟨(List.mem_erase_of_ne hstruct).2 hmem, hcontains⟩

theorem reachesWithin_of_erase {idle : List DeclRef} {held origin : DeclRef} (hidle : held ∈ idle)
    {type : LocatedType} (htype : type ∈ resolver.fieldTypes held)
    (h : resolver.ReachesWithin (idle.erase held) type origin) :
    ReflTransGen (resolver.ContainsWithin idle) held origin := by
  obtain ⟨next, hholds, hrest⟩ := h
  refine .head ⟨hidle, type, htype, hholds⟩ (ReflTransGen.mono ?_ _ _ hrest)
  rintro struct other ⟨hmem, hcontains⟩
  exact ⟨List.mem_of_mem_erase hmem, hcontains⟩

/-- What the search makes of a struct that is held. -/
def searchStruct (resolver : Resolver) (origin : DeclRef) (idle : List DeclRef)
    (struct : DeclRef) : Search :=
  if struct = origin then .found
  else if struct ∈ idle then
    Search.first (resolver.fieldTypes struct) (resolver.searchFrom origin (idle.erase struct))
  else .absent

theorem searchFrom_of_complete {origin : DeclRef} {idle : List DeclRef} {type : LocatedType}
    (h : (resolver.directStructs type).complete = true) :
    resolver.searchFrom origin idle type =
      Search.first (resolver.directStructs type).structs (resolver.searchStruct origin idle) := by
  have houtcome := searchFrom.eq_def resolver origin idle type
  simp only [h, if_true] at houtcome
  rw [houtcome]
  split
  · next habsent => exact habsent.symm
  · rfl

/-- The search ends, and finds a struct exactly if it is reached through idle structs. -/
def Decides (resolver : Resolver) (origin : DeclRef) (idle : List DeclRef) (type : LocatedType) :
    Prop :=
  resolver.searchFrom origin idle type ≠ .endless ∧
    (resolver.searchFrom origin idle type = .found ↔ resolver.ReachesWithin idle type origin)

theorem searchStruct_spec {origin : DeclRef} {idle : List DeclRef} (struct : DeclRef)
    (h : struct ∈ idle → ∀ type ∈ resolver.fieldTypes struct,
      resolver.Decides origin (idle.erase struct) type) :
    resolver.searchStruct origin idle struct ≠ .endless ∧
      (resolver.searchStruct origin idle struct = .found ↔
        ReflTransGen (resolver.ContainsWithin idle) struct origin) := by
  unfold searchStruct
  by_cases horigin : struct = origin
  · simp only [if_pos horigin]
    exact ⟨Search.noConfusion, iff_of_true trivial (horigin ▸ .refl)⟩
  · by_cases hidle : struct ∈ idle
    · simp only [if_neg horigin, if_pos hidle]
      obtain ⟨hends, hfound⟩ := Search.first_spec fun type htype => (h hidle type htype).1
      refine ⟨hends, hfound.trans ⟨?_, fun hreach => ?_⟩⟩
      · rintro ⟨type, htype, hfound⟩
        exact reachesWithin_of_erase hidle htype ((h hidle type htype).2.1 hfound)
      · obtain ⟨-, type, htype, hreach⟩ := reachesWithin_erase horigin hreach
        exact ⟨type, htype, (h hidle type htype).2.2 hreach⟩
    · simp only [if_neg horigin, if_neg hidle]
      exact ⟨Search.noConfusion, iff_of_false Search.noConfusion fun hreach =>
        hidle (reachesWithin_erase horigin hreach).1⟩

theorem decides_searchFrom (h : resolver.Unfoldable) (origin : DeclRef) (idle : List DeclRef)
    {type : LocatedType} (hproper : resolver.IsProper type) :
    resolver.Decides origin idle type := by
  -- every struct that is gone into leaves the idle ones
  induction hlength : idle.length using Nat.strong_induction_on generalizing idle type with
  | _ length ih =>
    have hlists := lists_directStructs h hproper
    have hstruct := fun struct => searchStruct_spec struct fun hidle type htype =>
      @ih _ (hlength ▸ length_erase_lt hidle) _ type
        (isProper_of_mem_fieldTypes h.resolve htype) rfl
    rw [Decides, searchFrom_of_complete hlists.complete]
    obtain ⟨hends, hfound⟩ := Search.first_spec fun struct
      (_ : struct ∈ (resolver.directStructs type).structs) => (hstruct struct).1
    refine ⟨hends, hfound.trans (exists_congr fun struct => ?_)⟩
    rw [hlists.mem_iff, (hstruct struct).2]

/-- The search ends, and finds a struct exactly if it is reached. -/
theorem search_spec (h : resolver.Unfoldable) (origin : DeclRef) {type : LocatedType}
    (hproper : resolver.IsProper type) :
    resolver.search origin type ≠ .endless ∧
      (resolver.search origin type = .found ↔ resolver.Reaches type origin) := by
  obtain ⟨hends, hfound⟩ := decides_searchFrom h origin resolver.structs hproper
  refine ⟨hends, hfound.trans (exists_congr fun held => and_congr_right fun _ => ?_)⟩
  exact ⟨ReflTransGen.mono (fun _ _ hstep => hstep.2) _ _,
    ReflTransGen.mono (fun _ _ hstep => ⟨(mem_structs_iff _).2 hstep.isStruct, hstep⟩) _ _⟩

/-! ### Reports -/

/-- A field, in source order the first, from whose type its struct is reached. -/
def IsFirstCyclic (resolver : Resolver) (struct : DeclRef) (fields : List Field) (field : Field) :
    Prop :=
  ∃ before after, fields = before ++ field :: after ∧
    resolver.Reaches ⟨struct.tree, field.type⟩ struct ∧
      ∀ earlier ∈ before, ¬ resolver.Reaches ⟨struct.tree, earlier.type⟩ struct

theorem cyclicField?_eq_find? {struct : DeclRef} {fields : List Field}
    (h : ∀ field ∈ fields, resolver.search struct ⟨struct.tree, field.type⟩ ≠ .endless) :
    resolver.cyclicField? struct fields =
      fields.find? fun field => resolver.search struct ⟨struct.tree, field.type⟩ == .found := by
  induction fields with
  | nil => rfl
  | cons field fields ih =>
    have hfield := h field List.mem_cons_self
    rw [cyclicField?, List.find?_cons,
      ih fun other hother => h other (List.mem_cons_of_mem _ hother)]
    cases hsearch : resolver.search struct ⟨struct.tree, field.type⟩ with
    | found => rfl
    | absent => rfl
    | endless => exact absurd hsearch hfield

theorem cyclicField?_eq_some_iff (h : resolver.Unfoldable) {struct : DeclRef} {fields : List Field}
    (hproper : ∀ field ∈ fields, resolver.IsProper ⟨struct.tree, field.type⟩) (field : Field) :
    resolver.cyclicField? struct fields = some field ↔
      resolver.IsFirstCyclic struct fields field := by
  have hsearch := fun field hfield => search_spec h struct (hproper field hfield)
  rw [cyclicField?_eq_find? fun field hfield => (hsearch field hfield).1,
    List.find?_eq_some_iff_append]
  constructor
  · rintro ⟨hfound, before, after, rfl, hbefore⟩
    refine ⟨before, after, rfl, ?_, fun earlier hearlier hreach => ?_⟩
    · exact (hsearch field (by simp)).2.1 (beq_iff_eq.1 hfound)
    · have hfound := (hsearch earlier (by simp [hearlier])).2.2 hreach
      simpa [hfound] using hbefore earlier hearlier
  · rintro ⟨before, after, rfl, hreach, hbefore⟩
    refine ⟨beq_iff_eq.2 ((hsearch field (by simp)).2.2 hreach), before, after, rfl, ?_⟩
    intro earlier hearlier
    have habsent := mt (hsearch earlier (by simp [hearlier])).2.1 (hbefore earlier hearlier)
    simpa using habsent

/-- A struct has a first cyclic field exactly if it contains itself by some steps. -/
theorem exists_isFirstCyclic_iff {struct : DeclRef} {decl : StructDecl}
    (hdecl : resolver.declaration? struct = some (.struct decl)) :
    (∃ field, resolver.IsFirstCyclic struct decl.fields field) ↔
      TransGen resolver.Contains struct struct := by
  have hfields : resolver.fieldTypes struct =
      decl.fields.map fun field => ⟨struct.tree, field.type⟩ := by
    rw [fieldTypes, hdecl]
  constructor
  · rintro ⟨field, before, after, hsplit, ⟨held, hholds, hreach⟩, -⟩
    have hmem : (⟨struct.tree, field.type⟩ : LocatedType) ∈ resolver.fieldTypes struct := by
      rw [hfields, hsplit]
      simp
    exact .head' ⟨_, hmem, hholds⟩ hreach
  · intro hcycle
    obtain ⟨held, ⟨type, htype, hholds⟩, hreach⟩ := TransGen.head'_iff.1 hcycle
    rw [hfields] at htype
    obtain ⟨field, hfield, rfl⟩ := List.mem_map.1 htype
    classical
    have hsome : (decl.fields.find? fun field =>
        decide (resolver.Reaches ⟨struct.tree, field.type⟩ struct)).isSome :=
      List.find?_isSome.2 ⟨field, hfield, decide_eq_true ⟨held, hholds, hreach⟩⟩
    obtain ⟨first, hfirst⟩ := Option.isSome_iff_exists.1 hsome
    obtain ⟨hreach, before, after, hsplit, hbefore⟩ := List.find?_eq_some_iff_append.1 hfirst
    exact ⟨first, before, after, hsplit, of_decide_eq_true hreach, fun earlier hearlier => by
      simpa using hbefore earlier hearlier⟩

/-- The structs of a file that are reported, each with its place and the field. -/
def cyclicStructs (resolver : Resolver) (here : Nat) (document : Document) :
    List (Nat × StructDecl × Field) :=
  document.declarations.zipIdx.filterMap fun (declaration, index) =>
    match declaration with
    | .struct decl => (resolver.cyclicField? ⟨here, index⟩ decl.fields).map (index, decl, ·)
    | _ => none

/-- What is reported about a struct that contains itself. -/
def cyclicReport (cyclic : Nat × StructDecl × Field) : Report :=
  .error cyclic.2.2.name.span (.cyclicStruct cyclic.2.2.name.text cyclic.2.1.name.text)

theorem filter_reports_checkCycles (here : Nat) (document : Document) :
    (resolver.checkCycles here document).reports.filter Report.isCyclicStruct =
      (resolver.cyclicStructs here document).map cyclicReport := by
  rw [checkCycles, reports_forM, List.filter_flatMap, cyclicStructs, List.map_filterMap,
    List.filterMap_eq_flatMap_toList]
  congr 1
  funext ⟨declaration, index⟩
  cases declaration with
  | struct decl =>
    simp only [checkStructCycle]
    cases resolver.cyclicField? ⟨here, index⟩ decl.fields with
    | none => rfl
    | some field => rfl
  | service decl =>
    simp only [checkServiceCycle]
    cases decl.parent with
    | none => rfl
    | some parent =>
      simp only
      split
      · rfl
      · rfl
  | _ => rfl

theorem mem_cyclicStructs_iff (h : resolver.Unfoldable) {here : Nat} {tree : SourceTree}
    (htree : resolver.program.trees[here]? = some tree) (index : Nat) (decl : StructDecl)
    (field : Field) :
    (index, decl, field) ∈ resolver.cyclicStructs here tree.document ↔
      tree.document.declarations[index]? = some (.struct decl) ∧
        resolver.IsFirstCyclic ⟨here, index⟩ decl.fields field := by
  have hfirst : tree.document.declarations[index]? = some (.struct decl) →
      (resolver.cyclicField? ⟨here, index⟩ decl.fields = some field ↔
        resolver.IsFirstCyclic ⟨here, index⟩ decl.fields field) := by
    intro hdeclaration
    refine cyclicField?_eq_some_iff h (fun other hother => ?_) field
    exact h.resolve here tree htree other.type (List.mem_flatMap.2
      ⟨_, List.mem_of_getElem? hdeclaration, List.mem_map_of_mem hother⟩)
  simp only [cyclicStructs, List.mem_filterMap, Prod.exists, List.mem_zipIdx_iff_getElem?]
  constructor
  · rintro ⟨declaration, place, hdeclaration, hfound⟩
    cases declaration with
    | struct other =>
      obtain ⟨first, hfield, heq⟩ := Option.map_eq_some_iff.1 hfound
      simp only [Prod.mk.injEq] at heq
      obtain ⟨rfl, rfl, rfl⟩ := heq
      exact ⟨hdeclaration, (hfirst hdeclaration).1 hfield⟩
    | _ => cases hfound
  · rintro ⟨hdeclaration, hfield⟩
    refine ⟨.struct decl, index, hdeclaration, ?_⟩
    simp only
    rw [(hfirst hdeclaration).2 hfield, Option.map_some]

theorem pairwise_cyclicStructs (here : Nat) (document : Document) :
    (resolver.cyclicStructs here document).Pairwise fun first second => first.1 < second.1 := by
  refine pairwise_filterMap_zipIdx (fun declaration index cyclic hcyclic => ?_) _
  cases declaration with
  | struct decl =>
    obtain ⟨field, -, rfl⟩ := Option.map_eq_some_iff.1 hcyclic
    rfl
  | _ => cases hcyclic

theorem unfoldable_of_isChecked (hclean : resolver.IsClean) (hchecked : resolver.IsChecked)
    (hunnested : ∀ typedef, ¬ resolver.NestsItself typedef) : resolver.Unfoldable :=
  ⟨typesResolve_of_isChecked hclean hchecked, typedefsEnd_of_isChecked hchecked, hunnested⟩

/-- Struct cycles are found exactly. In a program that passed the type check and whose typedefs do
not come back to themselves, every search of the type of a field ends, and the reports about structs
in a file are one for each struct that contains itself by some steps, in source order, at the first
field from which it is reached. -/
theorem reports_checkCycles_structs (hclean : resolver.IsClean) (hchecked : resolver.IsChecked)
    (hunnested : ∀ typedef, ¬ resolver.NestsItself typedef) :
    (∀ struct origin, ∀ type ∈ resolver.fieldTypes struct,
      resolver.search origin type ≠ .endless) ∧
    ∀ number tree, resolver.program.trees[number]? = some tree →
      ∃ cyclic : List (Nat × StructDecl × Field),
        cyclic.Pairwise (fun first second => first.1 < second.1) ∧
        (∀ index decl field, (index, decl, field) ∈ cyclic ↔
          tree.document.declarations[index]? = some (.struct decl) ∧
            resolver.IsFirstCyclic ⟨number, index⟩ decl.fields field) ∧
        (∀ index decl, tree.document.declarations[index]? = some (.struct decl) →
          ((∃ field, (index, decl, field) ∈ cyclic) ↔
            TransGen resolver.Contains ⟨number, index⟩ ⟨number, index⟩)) ∧
        (resolver.checkCycles number tree.document).reports.filter Report.isCyclicStruct =
          cyclic.map cyclicReport := by
  have h := unfoldable_of_isChecked hclean hchecked hunnested
  refine ⟨fun struct origin type htype =>
    (search_spec h origin (isProper_of_mem_fieldTypes h.resolve htype)).1,
    fun number tree htree => ?_⟩
  have hmem := mem_cyclicStructs_iff h htree
  refine ⟨resolver.cyclicStructs number tree.document, pairwise_cyclicStructs number _, hmem,
    fun index decl hdeclaration => ?_, filter_reports_checkCycles number _⟩
  have hdecl : resolver.declaration? ⟨number, index⟩ = some (.struct decl) := by
    rw [declaration?, Program.declaration?, htree]
    exact hdeclaration
  simp only [hmem, hdeclaration, true_and]
  exact exists_isFirstCyclic_iff hdecl

/-- A struct that holds itself in a map by way of a typedef, and a struct that holds it. -/
def nodeTree : SourceTree where
  package := "node"
  source := ⟨"node.thrift", "struct Node \x7b 1: Index children \x7d " ++
    "typedef map<i32, Node> Index struct Tree \x7b 1: Node root \x7d"⟩
  document :=
    { namespaces := []
      includes := []
      declarations := [
        .struct ⟨.struct, ⟨"Node", ⟨7, 11⟩⟩,
          [⟨some ⟨1, ⟨14, 15⟩⟩, none, .name ⟨⟨"Index", ⟨17, 22⟩⟩, [], ⟨17, 22⟩⟩,
            ⟨"children", ⟨23, 31⟩⟩, none, ⟨14, 31⟩⟩], ⟨0, 33⟩⟩,
        .typedef ⟨.map (.builtin .i32 ⟨46, 49⟩) (.name ⟨⟨"Node", ⟨51, 55⟩⟩, [], ⟨51, 55⟩⟩) ⟨42, 56⟩,
          ⟨"Index", ⟨57, 62⟩⟩, ⟨34, 62⟩⟩,
        .struct ⟨.struct, ⟨"Tree", ⟨70, 74⟩⟩,
          [⟨some ⟨1, ⟨77, 78⟩⟩, none, .name ⟨⟨"Node", ⟨80, 84⟩⟩, [], ⟨80, 84⟩⟩,
            ⟨"root", ⟨85, 89⟩⟩, none, ⟨77, 89⟩⟩], ⟨63, 91⟩⟩]
      span := ⟨0, 91⟩ }
  includes := []

theorem isClean_nodeTree : (ofTree nodeTree).IsClean :=
  isClean_ofTree rfl rfl

theorem isChecked_nodeTree : (ofTree nodeTree).IsChecked := by
  apply forall_tree_ofTree
  change ((ofTree nodeTree).checkTypes 0 nodeTree.document).reports = []
  decide +kernel

theorem not_nestsItself_nodeTree (typedef : DeclRef) : ¬ (ofTree nodeTree).NestsItself typedef := by
  intro hnests
  obtain ⟨target, htarget, hmentions⟩ := mentions_of_nestsItself hnests
  have htypedefs : (ofTree nodeTree).typedefs = [⟨0, 1⟩] := rfl
  have hmem := mem_typedefs_of_mentions hmentions
  obtain rfl := List.mem_singleton.1 (htypedefs ▸ hmem)
  obtain rfl := Option.some.inj htarget
  obtain ⟨name, hname, hmentions⟩ := (mentions_iff_exists_name _ _ _).1 hmentions
  obtain rfl := List.mem_singleton.1 hname
  have hbinding : (ofTree nodeTree).binding? 0 ⟨⟨"Node", ⟨51, 55⟩⟩, [], ⟨51, 55⟩⟩ =
      some ⟨⟨0, 0⟩, []⟩ := rfl
  have hend : ∀ typedef next, ¬ (ofTree nodeTree).Aliases
      ⟨0, .name ⟨⟨"Node", ⟨51, 55⟩⟩, [], ⟨51, 55⟩⟩⟩ typedef next :=
    fun _ _ => Conforms.not_aliases_of_typedef? hbinding rfl
  rcases (holds_iff _).1 hmentions with ⟨next, halias⟩ | ⟨next, hstep, -⟩
  · exact hend _ next halias
  · obtain ⟨typedef, halias⟩ := unfolds_name_iff.1 hstep
    exact hend typedef next halias

theorem reports_nodeTree :
    (ofTree nodeTree).IsClean ∧ (ofTree nodeTree).IsChecked ∧
    (∀ typedef, ¬ (ofTree nodeTree).NestsItself typedef) ∧
    TransGen (ofTree nodeTree).Contains ⟨0, 0⟩ ⟨0, 0⟩ ∧
    ¬ TransGen (ofTree nodeTree).Contains ⟨0, 2⟩ ⟨0, 2⟩ := by
  obtain ⟨-, hcycles⟩ := reports_checkCycles_structs isClean_nodeTree isChecked_nodeTree
    not_nestsItself_nodeTree
  obtain ⟨cyclic, hordered, hmem, hiff, hfilter⟩ := hcycles 0 nodeTree rfl
  have hreports : ((ofTree nodeTree).checkCycles 0 nodeTree.document).reports =
      [.error ⟨23, 31⟩ (.cyclicStruct "children" "Node")] := by
    decide +kernel
  rw [hreports] at hfilter
  obtain ⟨⟨index, decl, field⟩, rfl, hreport⟩ := List.map_eq_singleton_iff.1 hfilter.symm
  obtain ⟨hdecl, -⟩ := (hmem index decl field).1 List.mem_cons_self
  have hname : decl.name.text = "Node" := by
    injection hreport with _ _ hmessage
    injection hmessage
  rcases index with _ | _ | _ | _
  · refine ⟨isClean_nodeTree, isChecked_nodeTree, not_nestsItself_nodeTree,
      (hiff 0 decl hdecl).1 ⟨field, List.mem_cons_self⟩, fun htree => ?_⟩
    obtain ⟨other, hother⟩ := (hiff 2 _ rfl).2 htree
    simp at hother
  · cases hdecl
  · obtain rfl := Declaration.struct.inj (Option.some.inj hdecl)
    simp at hname
  · cases hdecl

end Resolver
end Idl
