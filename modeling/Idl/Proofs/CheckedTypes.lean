import Idl.Proofs.CheckedValues
import Idl.Proofs.Reports
import Idl.Proofs.Unfolding

/-!
# What the type check says about types

The type check of a whole program finds no fault with a type exactly if every name in a type stands
for one, typedef chains end, `void` is nowhere but in the place of a return type, methods throw
exceptions only, and parents are services. Single checks look at a name or a chain and skip what
another check has refused; together, over all files, they leave nothing out.
-/
namespace Idl

open Relation Reporting

namespace Declaration

/-- The types of which values are stored or passed. -/
def storedTypes : Declaration → List TypeRef
  | constant d => [d.type]
  | typedef d => [d.type]
  | enum _ => []
  | struct d => d.fields.map (·.type)
  | service d => d.methods.flatMap fun method => method.arguments.map (·.type)

def thrownTypes : Declaration → List TypeRef
  | service d => d.methods.flatMap fun method => method.throws.map (·.type)
  | _ => []

def returnTypes : Declaration → List TypeRef
  | service d => d.methods.map (·.returns)
  | _ => []

/-- The name after `extends`. -/
def parents : Declaration → List Name
  | service d => d.parent.toList
  | _ => []

theorem mem_types_iff {declaration : Declaration} {type : TypeRef} :
    type ∈ declaration.types ↔
      type ∈ declaration.storedTypes ++ declaration.thrownTypes ∨
        type ∈ declaration.returnTypes := by
  cases declaration with
  | service d =>
    simp only [types, storedTypes, thrownTypes, returnTypes, List.mem_append, List.mem_flatMap,
      List.mem_cons, List.map_append, List.mem_map, and_or_left, exists_or, or_comm, eq_comm]
  | _ => simp [types, storedTypes, thrownTypes, returnTypes]

theorem parents_subset_references (declaration : Declaration) :
    declaration.parents ⊆ declaration.references := by
  cases declaration with
  | service d => exact List.subset_append_left _ _
  | _ => exact List.nil_subset _

end Declaration

namespace Resolver

/-- The type is `void` or unfolds to it. -/
def HoldsVoid (resolver : Resolver) (type : LocatedType) : Prop :=
  resolver.Holds (fun part => ∃ span, part.type = .builtin .void span) type

/-- The typedef chain of a type ends at the name of a struct that is declared as an exception. -/
def IsException (resolver : Resolver) (type : LocatedType) : Prop :=
  ∃ last name ref decl, ReflTransGen resolver.AliasStep type last ∧ last.type = .name name ∧
    resolver.binding? last.tree name = some ⟨ref, []⟩ ∧
      resolver.declaration? ref = some (.struct decl) ∧ decl.kind = .exception

/-- The name, in tree `number`, stands for a service. -/
def NamesService (resolver : Resolver) (number : Nat) (name : Name) : Prop :=
  ∃ ref decl, resolver.binding? number name = some ⟨ref, []⟩ ∧
    resolver.declaration? ref = some (.service decl)

/-- Every declaration of every tree has a property. -/
def Everywhere (resolver : Resolver) (p : Nat → Declaration → Prop) : Prop :=
  ∀ number tree, resolver.program.trees[number]? = some tree →
    ∀ declaration ∈ tree.document.declarations, p number declaration

/-- All types of a program are what their places ask for. -/
structure TypesFit (resolver : Resolver) : Prop where
  resolve : resolver.TypesResolve
  typedefsEnd : resolver.TypedefsEnd
  noVoid : resolver.Everywhere fun number declaration =>
    ∀ type ∈ declaration.storedTypes ++ declaration.thrownTypes,
      ¬ resolver.HoldsVoid ⟨number, type⟩
  returns : resolver.Everywhere fun number declaration =>
    ∀ type ∈ declaration.returnTypes, resolver.HoldsVoid ⟨number, type⟩ →
      ∃ span, type = .builtin .void span
  throws : resolver.Everywhere fun number declaration =>
    ∀ type ∈ declaration.thrownTypes, resolver.IsException ⟨number, type⟩
  parents : resolver.Everywhere fun number declaration =>
    ∀ name ∈ declaration.parents, resolver.NamesService number name

variable {resolver : Resolver} {here : Nat}

/-! ### One type -/

theorem coversFaults_faultsType : CoversFaults Report.FaultsType :=
  fun _ _ h => h

theorem coversOthers_not_faultsType : CoversOthers fun report => ¬ report.FaultsType :=
  fun _ _ h => h

/-- Where only faults with types are reported, finding none is being silent. -/
theorem silent_iff_all_not {α : Type} {x : Reporting α} (h : x.All Report.FaultsType) :
    (x.All fun report => ¬ report.FaultsType) ↔ x.Silent :=
  ⟨silent_of_all h, Silent.all⟩

theorem affirmType_of_isProper {type : TypeRef} (h : resolver.IsProper ⟨here, type⟩) :
    (resolver.affirmType here type).Silent ∧ (resolver.affirmType here type).value = true := by
  induction type with
  | builtin type span => exact ⟨rfl, rfl⟩
  | list element span ih => exact ih h
  | map key value span ihKey ihValue =>
    obtain ⟨hkey, hkeyValue⟩ := ihKey fun name hname => h name (List.mem_append_left _ hname)
    obtain ⟨hvalue, hvalueValue⟩ := ihValue fun name hname => h name (List.mem_append_right _ hname)
    unfold affirmType
    exact ⟨(silent_bind_iff _ _).2 ⟨hkey, (silent_bind_iff _ _).2 ⟨hvalue, silent_pure _⟩⟩,
      by simp [hkeyValue, hvalueValue]⟩
  | name name =>
    obtain ⟨target, declaration, hbinding, hdeclaration, hkind⟩ := h name (List.mem_singleton.2 rfl)
    unfold affirmType
    simp only [hbinding, hdeclaration, Option.any_some, hkind, and_self, if_true]
    exact ⟨silent_pure _, rfl⟩

theorem silent_affirmType_iff (hclean : resolver.IsClean) {tree : SourceTree}
    (htree : resolver.program.trees[here]? = some tree) {type : TypeRef}
    (htype : type ∈ tree.document.types) :
    (resolver.affirmType here type).Silent ↔ resolver.IsProper ⟨here, type⟩ := by
  refine ⟨fun h => ?_, fun h => (affirmType_of_isProper h).1⟩
  have hbound : ∀ name ∈ type.references, (resolver.binding? here name).isSome :=
    fun name hname => isSome_binding? hclean htree
      (tree.document.references_subset_of_mem_types htype hname)
  exact (isProper_of_silent_affirmType hbound h).2

/-- A silent check for `void` of every typedef leaves it no way into a type that is checked
silently. -/
theorem not_holdsVoid_of_silent
    (htypedefs : ∀ typedef target, resolver.typedef? typedef = some target →
      (resolver.checkVoid target.tree false target.type).Silent)
    {type : LocatedType} (h : (resolver.checkVoid type.tree false type.type).Silent) :
    ¬ resolver.HoldsVoid type := by
  rintro ⟨last, hlast, span, hvoid⟩
  induction hlast using ReflTransGen.head_induction_on with
  | refl =>
    rw [hvoid] at h
    exact not_silent_error _ _ h
  | head step _ ih =>
    apply ih
    cases step with
    | typedef step =>
      obtain ⟨typedef, name, hname, hbinding, htarget⟩ := step
      exact htypedefs typedef _ htarget
    | part step =>
      cases step with
      | element => exact h
      | key => exact h.first
      | value => exact h.rest

/-- Such a type may be `void` itself where that is allowed. -/
theorem eq_void_of_silent
    (htypedefs : ∀ typedef target, resolver.typedef? typedef = some target →
      (resolver.checkVoid target.tree false target.type).Silent)
    {type : TypeRef} (h : (resolver.checkVoid here true type).Silent)
    (hvoid : resolver.HoldsVoid ⟨here, type⟩) : ∃ span, type = .builtin .void span := by
  cases type with
  | builtin type span => exact holds_builtin_iff.1 hvoid
  | list element span => exact absurd hvoid (not_holdsVoid_of_silent htypedefs (by exact h))
  | map key value span => exact absurd hvoid (not_holdsVoid_of_silent htypedefs (by exact h))
  | name name =>
    rcases (holds_iff _).1 hvoid with hvoid | ⟨next, hstep, hvoid⟩
    · exact hvoid
    · obtain ⟨typedef, -, -, -, htarget⟩ := unfolds_name_iff.1 hstep
      exact absurd hvoid (not_holdsVoid_of_silent htypedefs (htypedefs typedef next htarget))

theorem silent_checkVoid_of_not_holdsVoid (allowed : Bool) {type : TypeRef}
    (h : resolver.HoldsVoid ⟨here, type⟩ → allowed = true ∧ ∃ span, type = .builtin .void span) :
    (resolver.checkVoid here allowed type).Silent := by
  induction type generalizing allowed with
  | builtin type span =>
    unfold checkVoid
    split
    · next hvoid =>
      obtain ⟨rfl, hallowed⟩ := hvoid
      obtain ⟨htrue, -⟩ := h (holds_of_refl ⟨span, rfl⟩)
      exact absurd (htrue.symm.trans hallowed) Bool.true_eq_false.mp
    · exact silent_pure _
  | list element span ih =>
    -- parts may not be `void` even where the type may
    refine ih false fun hvoid => ?_
    obtain ⟨-, span, hspan⟩ := h (holds_list_iff.2 (.inr hvoid))
    cases hspan
  | map key value span ihKey ihValue =>
    refine (silent_bind_iff _ _).2 ⟨ihKey false fun hvoid => ?_, ihValue false fun hvoid => ?_⟩
    · obtain ⟨-, span, hspan⟩ := h (holds_map_iff.2 (.inr (.inl hvoid)))
      cases hspan
    · obtain ⟨-, span, hspan⟩ := h (holds_map_iff.2 (.inr (.inr hvoid)))
      cases hspan
  | name name =>
    unfold checkVoid
    cases allowed with
    | true => exact silent_pure _
    | false =>
      simp only [Bool.false_eq_true, if_false]
      split
      · next tree span typedef hunwrap =>
        have hchain := (endsChain_of_unwrapFrom hunwrap).chain
        obtain ⟨hfalse, -⟩ := h ⟨_, unfolds_chain hchain, span, rfl⟩
        cases hfalse
      · exact silent_pure _

/-- A typedef chain has one end. -/
theorem chain_end_unique {type last last' : LocatedType}
    (h : ReflTransGen resolver.AliasStep type last)
    (hlast : ∀ next, ¬ resolver.AliasStep last next)
    (h' : ReflTransGen resolver.AliasStep type last')
    (hlast' : ∀ next, ¬ resolver.AliasStep last' next) : last = last' := by
  have hunique : Relator.RightUnique resolver.AliasStep :=
    fun _ _ _ ⟨_, halias⟩ ⟨_, halias'⟩ => Conforms.aliases_unique halias halias'
  rcases ReflTransGen.total_of_right_unique hunique h h' with hrest | hrest
  · rcases hrest.cases_head with heq | ⟨next, hstep, -⟩
    · exact heq
    · exact absurd hstep (hlast next)
  · rcases hrest.cases_head with heq | ⟨next, hstep, -⟩
    · exact heq.symm
    · exact absurd hstep (hlast' next)

/-- A type that must be an exception is checked silently exactly if it comes to one. -/
theorem silent_checkException_iff (hresolve : resolver.TypesResolve)
    (hend : resolver.TypedefsEnd) {type : TypeRef} (hproper : resolver.IsProper ⟨here, type⟩) :
    (resolver.checkException here type).Silent ↔ resolver.IsException ⟨here, type⟩ := by
  obtain ⟨unwrapped, hunwrap, hchain, hunwrapped⟩ := unwrap_ok hresolve hend hproper
  have hkind : (resolver.checkException here type).Silent ↔
      resolver.nonExceptionKind? unwrapped = none := by
    unfold checkException
    simp only [hunwrap]
    cases resolver.nonExceptionKind? unwrapped with
    | none => exact iff_of_true (silent_pure _) rfl
    | some kind => exact iff_of_false (not_silent_error _ _) (Option.some_ne_none _)
  rw [hkind]
  constructor
  · intro hnone
    unfold nonExceptionKind? at hnone
    split at hnone
    · next decl hdecl =>
      split at hnone
      · next hexception =>
        obtain ⟨ref, href, hdeclaration⟩ := Option.bind_eq_some_iff.1 hdecl
        obtain ⟨name, tail, hname, -⟩ := (endsChain_of_unwrapFrom hunwrap).target ref href
        obtain ⟨target, hbinding, htarget⟩ := hunwrapped.target name hname
        obtain rfl := Option.some.inj (href.symm.trans htarget)
        exact ⟨unwrapped.type, name, ref, decl, hchain, hname, hbinding, hdeclaration, hexception⟩
      · cases hnone
    all_goals cases hnone
  · rintro ⟨last, name, ref, decl, hlast, hname, hbinding, hdeclaration, hexception⟩
    -- the chain has one end, so unwrapping comes to the exception
    obtain rfl : unwrapped.type = last :=
      chain_end_unique hchain (fun next ⟨typedef, halias⟩ => hunwrapped.noAlias typedef next halias)
        hlast fun next ⟨typedef, halias⟩ =>
          not_aliases_of_struct hname hbinding hdeclaration typedef next halias
    obtain ⟨target, hbinding', htarget⟩ := hunwrapped.target name hname
    obtain rfl := (Binding.mk.inj (Option.some.inj (hbinding.symm.trans hbinding'))).1
    rw [nonExceptionKind?, htarget, Option.bind_some, hdeclaration]
    exact if_pos hexception

/-- An exception is not `void`. -/
theorem not_holdsVoid_of_isException {type : LocatedType} (h : resolver.IsException type) :
    ¬ resolver.HoldsVoid type := by
  obtain ⟨last, name, ref, decl, hchain, hname, hbinding, hdeclaration, -⟩ := h
  have hvoid : ∀ part typedef next, resolver.Aliases part typedef next →
      ¬ ∃ span, part.type = .builtin .void span := by
    rintro part typedef next ⟨other, hother, -⟩ ⟨span, hspan⟩
    cases hother.symm.trans hspan
  rw [HoldsVoid, holds_chain_iff hvoid hchain, holds_iff]
  obtain ⟨tree, type⟩ := last
  obtain rfl : type = .name name := hname
  rintro (⟨span, hspan⟩ | ⟨next, hstep, -⟩)
  · cases hspan
  · obtain ⟨typedef, halias⟩ := unfolds_name_iff.1 hstep
    exact not_aliases_of_struct rfl hbinding hdeclaration typedef next halias

theorem silent_checkParent_iff {name : Name} (hbound : (resolver.binding? here name).isSome) :
    (resolver.checkParent here name).Silent ↔ resolver.NamesService here name := by
  obtain ⟨⟨target, tail⟩, hbinding⟩ := Option.isSome_iff_exists.1 hbound
  unfold checkParent
  simp only [hbinding]
  split
  · next decl hdecl => exact iff_of_true (silent_pure _) ⟨target, decl, hbinding, hdecl⟩
  · next hother =>
    refine iff_of_false (not_silent_error _ _) ?_
    rintro ⟨ref, decl, hbinding', hdecl⟩
    obtain ⟨rfl, rfl⟩ := Binding.mk.inj (Option.some.inj (hbinding.symm.trans hbinding'))
    exact hother decl hdecl rfl

/-! ### One declaration -/

/-- What the type check demands of the types of a declaration. -/
@[mk_iff]
structure Accepts (resolver : Resolver) (here index : Nat) (declaration : Declaration) : Prop where
  acyclic : ∀ decl, declaration = .typedef decl → resolver.typedefIsCyclic ⟨here, index⟩ = false
  stored : ∀ type ∈ declaration.storedTypes, (resolver.affirmType here type).Silent ∧
    ((resolver.affirmType here type).value = true → (resolver.checkVoid here false type).Silent)
  returns : ∀ type ∈ declaration.returnTypes, (resolver.affirmType here type).Silent ∧
    (resolver.checkVoid here true type).Silent
  thrown : ∀ type ∈ declaration.thrownTypes, (resolver.affirmType here type).Silent ∧
    ((resolver.affirmType here type).value = true → (resolver.checkException here type).Silent)
  parents : ∀ name ∈ declaration.parents, (resolver.checkParent here name).Silent

theorem faultless_checkValueType_iff (type : TypeRef) :
    ((resolver.checkValueType here type).All fun report => ¬ report.FaultsType) ↔
      (resolver.affirmType here type).Silent ∧
        ((resolver.affirmType here type).value = true →
          (resolver.checkVoid here false type).Silent) := by
  rw [all_checkValueType_iff, silent_iff_all_not (all_affirmType _ _ coversFaults_faultsType _),
    silent_iff_all_not (all_checkVoid _ _ coversFaults_faultsType _ _)]

theorem faultless_checkMethod_iff (method : Method) :
    ((resolver.checkMethod here method).All fun report => ¬ report.FaultsType) ↔
      ((resolver.affirmType here method.returns).Silent ∧
        (resolver.checkVoid here true method.returns).Silent) ∧
      (∀ argument ∈ method.arguments, (resolver.affirmType here argument.type).Silent ∧
        ((resolver.affirmType here argument.type).value = true →
          (resolver.checkVoid here false argument.type).Silent)) ∧
      ∀ thrown ∈ method.throws, (resolver.affirmType here thrown.type).Silent ∧
        ((resolver.affirmType here thrown.type).value = true →
          (resolver.checkException here thrown.type).Silent) := by
  have hcovers := coversOthers_not_faultsType
  simp only [all_checkMethod_iff, faultless_checkValueType_iff, all_checkOrdering hcovers,
    all_checkOneway hcovers, silent_iff_all_not (all_affirmType _ _ coversFaults_faultsType _),
    silent_iff_all_not (all_checkVoid _ _ coversFaults_faultsType _ _),
    silent_iff_all_not (all_checkException _ _ coversFaults_faultsType _),
    implies_true, true_and, and_true, and_assoc]

theorem faultless_checkService_iff (index : Nat) (decl : ServiceDecl) :
    ((resolver.checkService here decl).All fun report => ¬ report.FaultsType) ↔
      resolver.Accepts here index (.service decl) := by
  rw [all_checkService_iff]
  simp only [faultless_checkMethod_iff,
    silent_iff_all_not (all_checkParent _ _ coversFaults_faultsType _)]
  constructor
  · rintro ⟨hparent, hmethods⟩
    refine ⟨fun _ h => Declaration.noConfusion h, fun type htype => ?_, fun type htype => ?_,
      fun type htype => ?_, fun name hname => hparent name (Option.mem_toList.1 hname)⟩
    · obtain ⟨method, hmethod, hargument⟩ := List.mem_flatMap.1 htype
      obtain ⟨argument, hmem, rfl⟩ := List.mem_map.1 hargument
      exact (hmethods method hmethod).2.1 argument hmem
    · obtain ⟨method, hmethod, rfl⟩ := List.mem_map.1 htype
      exact (hmethods method hmethod).1
    · obtain ⟨method, hmethod, hthrown⟩ := List.mem_flatMap.1 htype
      obtain ⟨thrown, hmem, rfl⟩ := List.mem_map.1 hthrown
      exact (hmethods method hmethod).2.2 thrown hmem
  · intro h
    refine ⟨fun parent hparent => h.parents parent (Option.mem_toList.2 hparent),
      fun method hmethod => ⟨h.returns _ (List.mem_map_of_mem hmethod),
        fun argument hargument => ?_, fun thrown hthrown => ?_⟩⟩
    · exact h.stored _ (List.mem_flatMap.2 ⟨method, hmethod, List.mem_map_of_mem hargument⟩)
    · exact h.thrown _ (List.mem_flatMap.2 ⟨method, hmethod, List.mem_map_of_mem hthrown⟩)

theorem faultless_checkDeclaration_iff (index : Nat) (declaration : Declaration) :
    ((resolver.checkDeclaration here index .empty declaration).All fun report =>
      ¬ report.FaultsType) ↔ resolver.Accepts here index declaration := by
  have hcovers := coversOthers_not_faultsType
  have hcyclic : ∀ span text, ¬ ¬ Report.FaultsType (.error span (.cyclicTypedef text)) :=
    fun _ _ h => h trivial
  cases declaration with
  | enum decl =>
    refine iff_of_true (all_pure _) ?_
    simp [accepts_iff, Declaration.storedTypes, Declaration.returnTypes, Declaration.thrownTypes,
      Declaration.parents]
  | typedef decl =>
    unfold checkDeclaration
    rw [all_bind_iff, and_iff_left (all_pure _), all_checkTypedef_iff,
      faultless_checkValueType_iff]
    cases hcycle : resolver.typedefIsCyclic ⟨here, index⟩ <;>
    simp [accepts_iff, hcycle, hcyclic, Declaration.storedTypes, Declaration.returnTypes,
      Declaration.thrownTypes, Declaration.parents]
  | constant decl =>
    unfold checkDeclaration
    rw [all_bind_iff, and_iff_left (all_pure _), all_checkConstant_iff _ _ hcovers,
      faultless_checkValueType_iff]
    simp [accepts_iff, Declaration.storedTypes, Declaration.returnTypes, Declaration.thrownTypes,
      Declaration.parents]
  | struct decl =>
    unfold checkDeclaration
    rw [all_bind_iff, and_iff_left (all_pure _), all_checkStruct_iff _ _ hcovers]
    simp [accepts_iff, faultless_checkValueType_iff, Declaration.storedTypes,
      Declaration.returnTypes, Declaration.thrownTypes, Declaration.parents]
  | service decl =>
    unfold checkDeclaration
    rw [all_bind_iff, and_iff_left (all_pure _)]
    exact faultless_checkService_iff index decl

/-! ### Whole programs -/

/-- No report of the type check of any file finds fault with a type. -/
def IsFaultless (resolver : Resolver) : Prop :=
  ∀ number tree, resolver.program.trees[number]? = some tree →
    ∀ report ∈ (resolver.checkTypes number tree.document).reports, ¬ report.FaultsType

theorem isFaultless_iff : resolver.IsFaultless ↔
    ∀ number tree, resolver.program.trees[number]? = some tree →
      ∀ index declaration, tree.document.declarations[index]? = some declaration →
        resolver.Accepts number index declaration := by
  simp only [← faultless_checkDeclaration_iff, ← all_checkTypes_iff]
  rfl

theorem IsFaultless.exists_accepts (h : resolver.IsFaultless) {number : Nat} {tree : SourceTree}
    (htree : resolver.program.trees[number]? = some tree) {declaration : Declaration}
    (hmem : declaration ∈ tree.document.declarations) :
    ∃ index, resolver.Accepts number index declaration := by
  obtain ⟨index, hindex⟩ := List.getElem?_of_mem hmem
  exact ⟨index, isFaultless_iff.1 h number tree htree index declaration hindex⟩

theorem isSome_binding?_of_mem_parents (hclean : resolver.IsClean) {number : Nat}
    {tree : SourceTree} (htree : resolver.program.trees[number]? = some tree)
    {declaration : Declaration} (hmem : declaration ∈ tree.document.declarations) {name : Name}
    (hname : name ∈ declaration.parents) : (resolver.binding? number name).isSome :=
  isSome_binding? hclean htree
    (List.mem_flatMap.2 ⟨declaration, hmem, declaration.parents_subset_references hname⟩)

theorem Accepts.silent_affirmType {index : Nat} {declaration : Declaration}
    (h : resolver.Accepts here index declaration) {type : TypeRef}
    (htype : type ∈ declaration.types) : (resolver.affirmType here type).Silent := by
  rcases Declaration.mem_types_iff.1 htype with hvalue | hreturn
  · rcases List.mem_append.1 hvalue with hstored | hthrown
    · exact (h.stored type hstored).1
    · exact (h.thrown type hthrown).1
  · exact (h.returns type hreturn).1

namespace IsFaultless

theorem typesResolve (hclean : resolver.IsClean) (h : resolver.IsFaultless) :
    resolver.TypesResolve := by
  intro number tree htree type htype
  obtain ⟨declaration, hmem, hdeclared⟩ := List.mem_flatMap.1 htype
  obtain ⟨index, haccepts⟩ := h.exists_accepts htree hmem
  exact (silent_affirmType_iff hclean htree htype).1 (haccepts.silent_affirmType hdeclared)

theorem typedefsEnd (h : resolver.IsFaultless) : resolver.TypedefsEnd := by
  apply typedefsEnd_of_forall
  intro typedef htypedef
  obtain ⟨type, htype⟩ := Option.isSome_iff_exists.1 ((mem_typedefs_iff typedef).1 htypedef)
  obtain ⟨decl, hdecl, -⟩ := (typedef?_eq_some_iff typedef type).1 htype
  obtain ⟨tree, htree, hget⟩ := Option.bind_eq_some_iff.1 hdecl
  exact (isFaultless_iff.1 h typedef.tree tree htree typedef.index _ hget).acyclic decl rfl

/-- Types that resolve are checked for `void`. -/
theorem silent_checkVoid (h : resolver.IsFaultless) (hresolve : resolver.TypesResolve)
    {number : Nat} {tree : SourceTree} (htree : resolver.program.trees[number]? = some tree)
    {declaration : Declaration} (hmem : declaration ∈ tree.document.declarations) {type : TypeRef}
    (htype : type ∈ declaration.storedTypes) :
    (resolver.checkVoid number false type).Silent := by
  obtain ⟨index, haccepts⟩ := h.exists_accepts htree hmem
  have htypes : type ∈ declaration.types :=
    Declaration.mem_types_iff.2 (.inl (List.mem_append_left _ htype))
  have hproper := hresolve number tree htree type (List.mem_flatMap.2 ⟨declaration, hmem, htypes⟩)
  exact (haccepts.stored type htype).2 (affirmType_of_isProper hproper).2

theorem silent_checkVoid_typedef (h : resolver.IsFaultless) (hresolve : resolver.TypesResolve)
    {typedef : DeclRef} {target : LocatedType} (htarget : resolver.typedef? typedef = some target) :
    (resolver.checkVoid target.tree false target.type).Silent := by
  obtain ⟨decl, hdecl, rfl⟩ := (typedef?_eq_some_iff typedef target).1 htarget
  obtain ⟨tree, htree, hmem⟩ := exists_tree_of_declaration? hdecl
  have htype : decl.type ∈ (Declaration.typedef decl).storedTypes := List.mem_cons_self
  exact h.silent_checkVoid hresolve htree hmem htype

theorem throws (h : resolver.IsFaultless) (hresolve : resolver.TypesResolve) :
    resolver.Everywhere fun number declaration =>
      ∀ type ∈ declaration.thrownTypes, resolver.IsException ⟨number, type⟩ := by
  intro number tree htree declaration hmem type htype
  obtain ⟨index, haccepts⟩ := h.exists_accepts htree hmem
  have htypes : type ∈ declaration.types :=
    Declaration.mem_types_iff.2 (.inl (List.mem_append_right _ htype))
  have hproper := hresolve number tree htree type (List.mem_flatMap.2 ⟨declaration, hmem, htypes⟩)
  exact (silent_checkException_iff hresolve h.typedefsEnd hproper).1
    ((haccepts.thrown type htype).2 (affirmType_of_isProper hproper).2)

theorem noVoid (h : resolver.IsFaultless) (hresolve : resolver.TypesResolve) :
    resolver.Everywhere fun number declaration =>
      ∀ type ∈ declaration.storedTypes ++ declaration.thrownTypes,
        ¬ resolver.HoldsVoid ⟨number, type⟩ := by
  intro number tree htree declaration hmem type htype
  rcases List.mem_append.1 htype with htype | htype
  · exact not_holdsVoid_of_silent (fun _ _ => h.silent_checkVoid_typedef hresolve)
      (h.silent_checkVoid hresolve htree hmem htype)
  · exact not_holdsVoid_of_isException
      (h.throws hresolve number tree htree declaration hmem type htype)

theorem typesFit (hclean : resolver.IsClean) (h : resolver.IsFaultless) : resolver.TypesFit where
  resolve := h.typesResolve hclean
  typedefsEnd := h.typedefsEnd
  noVoid := h.noVoid (h.typesResolve hclean)
  returns number tree htree declaration hmem type htype := by
    obtain ⟨index, haccepts⟩ := h.exists_accepts htree hmem
    exact eq_void_of_silent (fun _ _ => h.silent_checkVoid_typedef (h.typesResolve hclean))
      (haccepts.returns type htype).2
  throws := h.throws (h.typesResolve hclean)
  parents number tree htree declaration hmem name hname := by
    obtain ⟨index, haccepts⟩ := h.exists_accepts htree hmem
    exact (silent_checkParent_iff (isSome_binding?_of_mem_parents hclean htree hmem hname)).1
      (haccepts.parents name hname)

end IsFaultless

theorem TypesFit.accepts (hclean : resolver.IsClean) (h : resolver.TypesFit) {tree : SourceTree}
    (htree : resolver.program.trees[here]? = some tree) {index : Nat} {declaration : Declaration}
    (hdeclaration : tree.document.declarations[index]? = some declaration) :
    resolver.Accepts here index declaration := by
  have hmem := List.mem_of_getElem? hdeclaration
  have hproper : ∀ type ∈ declaration.types, resolver.IsProper ⟨here, type⟩ :=
    fun type htype => h.resolve here tree htree type
      (List.mem_flatMap.2 ⟨declaration, hmem, htype⟩)
  have hvalue : ∀ type ∈ declaration.storedTypes ++ declaration.thrownTypes,
      resolver.IsProper ⟨here, type⟩ :=
    fun type htype => hproper type (Declaration.mem_types_iff.2 (.inl htype))
  refine ⟨?_, fun type htype => ?_, fun type htype => ?_, fun type htype => ?_,
    fun name hname => ?_⟩
  · rintro decl -
    have hcycle := h.typedefsEnd ⟨here, index⟩
    rwa [← typedefIsCyclic_iff, Bool.not_eq_true] at hcycle
  · have htype := List.mem_append_left declaration.thrownTypes htype
    refine ⟨(affirmType_of_isProper (hvalue type htype)).1, fun _ => ?_⟩
    exact silent_checkVoid_of_not_holdsVoid false fun hvoid =>
      absurd hvoid (h.noVoid here tree htree declaration hmem type htype)
  · refine ⟨(affirmType_of_isProper (hproper type
      (Declaration.mem_types_iff.2 (.inr htype)))).1, ?_⟩
    exact silent_checkVoid_of_not_holdsVoid true fun hvoid =>
      ⟨rfl, h.returns here tree htree declaration hmem type htype hvoid⟩
  · have hproper := hvalue type (List.mem_append_right _ htype)
    refine ⟨(affirmType_of_isProper hproper).1, fun _ => ?_⟩
    exact (silent_checkException_iff h.resolve h.typedefsEnd hproper).2
      (h.throws here tree htree declaration hmem type htype)
  · exact (silent_checkParent_iff (isSome_binding?_of_mem_parents hclean htree hmem hname)).2
      (h.parents here tree htree declaration hmem name hname)

/-- The type check polices types completely: for a program whose symbols were entered and whose
names were bound without a report, it finds no fault with a type in any file exactly if all types
are what their places ask for. -/
theorem isFaultless_iff_typesFit (hclean : resolver.IsClean) :
    resolver.IsFaultless ↔ resolver.TypesFit :=
  ⟨IsFaultless.typesFit hclean, fun h =>
    isFaultless_iff.2 fun _ _ htree _ _ hdeclaration => h.accepts hclean htree hdeclaration⟩

/-- A service that throws an exception by way of a typedef, and a service that extends it. -/
def guardTree : SourceTree where
  package := "guard"
  source := ⟨"guard.thrift", "exception Denied \x7b \x7d typedef Denied Refusal " ++
    "service Guard \x7b void pass() throws (1: Refusal r) \x7d " ++
    "service Gate extends Guard \x7b \x7d"⟩
  document :=
    { namespaces := []
      includes := []
      declarations := [
        .struct ⟨.exception, ⟨"Denied", ⟨10, 16⟩⟩, [], ⟨0, 20⟩⟩,
        .typedef ⟨.name ⟨⟨"Denied", ⟨29, 35⟩⟩, [], ⟨29, 35⟩⟩, ⟨"Refusal", ⟨36, 43⟩⟩, ⟨21, 43⟩⟩,
        .service ⟨⟨"Guard", ⟨52, 57⟩⟩, none,
          [⟨false, .builtin .void ⟨60, 64⟩, ⟨"pass", ⟨65, 69⟩⟩, [],
            [⟨some ⟨1, ⟨80, 81⟩⟩, .name ⟨⟨"Refusal", ⟨83, 90⟩⟩, [], ⟨83, 90⟩⟩, ⟨"r", ⟨91, 92⟩⟩,
              ⟨80, 92⟩⟩], ⟨60, 93⟩⟩], ⟨44, 95⟩⟩,
        .service ⟨⟨"Gate", ⟨104, 108⟩⟩, some ⟨⟨"Guard", ⟨117, 122⟩⟩, [], ⟨117, 122⟩⟩, [],
          ⟨96, 126⟩⟩]
      span := ⟨0, 126⟩ }
  includes := []

theorem typesFit_guardTree :
    (ofTree guardTree).IsClean ∧ (ofTree guardTree).IsFaultless ∧ (ofTree guardTree).TypesFit := by
  have hclean : (ofTree guardTree).IsClean := isClean_ofTree rfl rfl
  have hfaultless : (ofTree guardTree).IsFaultless := by
    apply forall_tree_ofTree
    have hsilent : ((ofTree guardTree).checkTypes 0 guardTree.document).reports = [] := by
      decide +kernel
    simp [hsilent]
  exact ⟨hclean, hfaultless, (isFaultless_iff_typesFit hclean).1 hfaultless⟩

end Resolver
end Idl
