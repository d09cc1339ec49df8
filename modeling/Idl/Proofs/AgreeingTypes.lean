import Idl.Proofs.AgreeingChecks

/-!
# Types that fit under resolvers that agree

A program that has further typedefs for types that are written in another program, and uses them
in their place, has types that fit exactly if the other does. If they do, declarations of the two
are checked alike.
-/
namespace Idl

open Relation Reporting

/-! ### Parts of declarations that match -/

namespace Declaration.Matches

variable {names : Name → Name → Prop} {alike : TypeRef → TypeRef → Prop}
  {declaration other : Declaration}

theorem types (h : declaration.Matches names alike other) :
    List.Forall₂ alike declaration.types other.types := by
  cases h with
  | constant h => exact .cons h.type .nil
  | typedef h => exact .cons h.type .nil
  | enum h => exact .nil
  | struct h =>
    rw [Declaration.types, Declaration.types, List.forall₂_map_left_iff, List.forall₂_map_right_iff]
    exact h.fields.imp fun _ _ hfield => hfield.type
  | service h =>
    refine List.rel_flatMap h.methods fun _ _ hmethod => .cons hmethod.returns ?_
    rw [List.forall₂_map_left_iff, List.forall₂_map_right_iff]
    exact (List.rel_append hmethod.arguments hmethod.throws).imp fun _ _ h => h.type

theorem thrownTypes (h : declaration.Matches names alike other) :
    List.Forall₂ alike declaration.thrownTypes other.thrownTypes := by
  cases h with
  | service h =>
    refine List.rel_flatMap h.methods fun _ _ hmethod => ?_
    rw [List.forall₂_map_left_iff, List.forall₂_map_right_iff]
    exact hmethod.throws.imp fun _ _ h => h.type
  | _ => exact .nil

theorem storedTypes (h : declaration.Matches names alike other) :
    List.Forall₂ alike declaration.storedTypes other.storedTypes := by
  cases h with
  | constant h => exact .cons h.type .nil
  | typedef h => exact .cons h.type .nil
  | enum h => exact .nil
  | struct h =>
    rw [Declaration.storedTypes, Declaration.storedTypes, List.forall₂_map_left_iff,
      List.forall₂_map_right_iff]
    exact h.fields.imp fun _ _ hfield => hfield.type
  | service h =>
    refine List.rel_flatMap h.methods fun _ _ hmethod => ?_
    rw [List.forall₂_map_left_iff, List.forall₂_map_right_iff]
    exact hmethod.arguments.imp fun _ _ h => h.type

theorem returnTypes (h : declaration.Matches names alike other) :
    List.Forall₂ alike declaration.returnTypes other.returnTypes := by
  cases h with
  | service h =>
    rw [Declaration.returnTypes, Declaration.returnTypes, List.forall₂_map_left_iff,
      List.forall₂_map_right_iff]
    exact h.methods.imp fun _ _ hmethod => hmethod.returns
  | _ => exact .nil

theorem parents (h : declaration.Matches names alike other) :
    List.Forall₂ names declaration.parents other.parents := by
  cases h with
  | service h => exact forall₂_toList h.parent
  | _ => exact .nil

end Declaration.Matches

namespace Resolver

variable {resolver old new : Resolver} {image : DeclRef → DeclRef} {type type' : LocatedType}

theorem everywhere_iff {p : Nat → Declaration → Prop} :
    resolver.Everywhere p ↔ ∀ ref declaration,
      resolver.declaration? ref = some declaration → p ref.tree declaration := by
  constructor
  · intro h ref declaration hdeclaration
    obtain ⟨tree, htree, hmem⟩ := exists_tree_of_declaration? hdeclaration
    exact h ref.tree tree htree declaration hmem
  · intro h number tree htree declaration hmem
    obtain ⟨index, hlt, rfl⟩ := List.getElem_of_mem hmem
    refine h ⟨number, index⟩ _ ?_
    simp [declaration?, Program.declaration?, htree, hlt]

theorem typesResolve_iff :
    resolver.TypesResolve ↔ ∀ ref declaration, resolver.declaration? ref = some declaration →
      ∀ type ∈ declaration.types, resolver.IsProper ⟨ref.tree, type⟩ := by
  refine Iff.trans ?_ (everywhere_iff (p := fun number declaration =>
    ∀ type ∈ declaration.types, resolver.IsProper ⟨number, type⟩))
  simp only [TypesResolve, Everywhere, Document.types, List.mem_flatMap, forall_exists_index,
    and_imp]
  exact forall_congr' fun number => forall_congr' fun tree => forall_congr' fun htree =>
    ⟨fun h declaration hmem type htype => h type declaration hmem htype,
      fun h type declaration hmem htype => h declaration hmem type htype⟩

/-- Typedefs end if and only if the chain of each has an end. -/
theorem typedefsEnd_iff (hresolve : resolver.TypesResolve) :
    resolver.TypedefsEnd ↔ ∀ typedef type, resolver.typedef? typedef = some type →
      ∃ last, resolver.Ends type last := by
  constructor
  · intro hend typedef type htypedef
    obtain ⟨decl, hdecl, rfl⟩ := (typedef?_eq_some_iff _ _).1 htypedef
    obtain ⟨unwrapped, hunwrap, -⟩ := unwrap_ok hresolve hend
      (isProper_of_declaration? hresolve hdecl List.mem_cons_self)
    exact ⟨unwrapped.type, unwrap_iff_ends.1 ⟨unwrapped, hunwrap, rfl⟩⟩
  · intro h typedef hloop
    obtain ⟨type, part, next, htypedef, hchain, halias⟩ := transGen_leadsTo_iff.1 hloop
    obtain rfl := Option.some.inj (halias.typedef?_eq.symm.trans htypedef)
    obtain ⟨last, hlast⟩ := h typedef next htypedef
    exact hlast.not_transGen (TransGen.tail' hchain ⟨typedef, halias⟩)

/-- A resolver that agrees with another one and has no further declarations than typedefs for
types that are written there, other than `void`. -/
structure Abbreviates (old new : Resolver) (image : DeclRef → DeclRef) : Prop where
  agrees : Agrees old new image
  declarations : ∀ ref' declaration', new.declaration? ref' = some declaration' →
    (∃ ref, image ref = ref') ∨ ∃ decl' type, declaration' = .typedef decl' ∧
      old.IsWritten type ∧ (∀ span, type.type ≠ .builtin .void span) ∧
        TypesAgree old new image type ⟨ref'.tree, decl'.type⟩

/-! ### Agreement -/

namespace Agrees

variable (h : Agrees old new image)

include h

theorem exists_declaration? {ref : DeclRef} {declaration : Declaration}
    (hdecl : old.declaration? ref = some declaration) :
    ∃ declaration', new.declaration? (image ref) = some declaration' ∧
      DeclarationsAgree old new image ref.tree (image ref).tree declaration declaration' :=
  exists_of_optionRel (h.declared ref) hdecl

theorem exists_declaration?_back {ref : DeclRef} {declaration' : Declaration}
    (hdecl' : new.declaration? (image ref) = some declaration') :
    ∃ declaration, old.declaration? ref = some declaration ∧
      DeclarationsAgree old new image ref.tree (image ref).tree declaration declaration' :=
  exists_of_optionRel_back (h.declared ref) hdecl'

theorem namesType_iff {here here' : Nat} {name name' : Name}
    (hnames : NamesAgree old new image here here' name name') :
    old.NamesType here name ↔ new.NamesType here' name' := by
  have hsome (resolver : Resolver) (target : DeclRef) :
      (resolver.declaration? target).any isTypeDeclaration = true ↔
        ∃ declaration, resolver.declaration? target = some declaration ∧
          isTypeDeclaration declaration = true := by
    cases resolver.declaration? target <;> simp
  constructor
  · rintro ⟨target, declaration, hbinding, hdecl, htype⟩
    have hany := (hsome old target).2 ⟨declaration, hdecl, htype⟩
    rw [h.any_isTypeDeclaration] at hany
    obtain ⟨declaration', hdecl', htype'⟩ := (hsome new (image target)).1 hany
    exact ⟨image target, declaration', hnames.binding? hbinding, hdecl', htype'⟩
  · rintro ⟨target', declaration', hbinding', hdecl', htype'⟩
    obtain ⟨target, hbinding, rfl⟩ := hnames.binding?_back hbinding'
    have hany := (hsome new (image target)).2 ⟨declaration', hdecl', htype'⟩
    rw [← h.any_isTypeDeclaration] at hany
    obtain ⟨declaration, hdecl, htype⟩ := (hsome old target).1 hany
    exact ⟨target, declaration, hbinding, hdecl, htype⟩

theorem isProper (htypes : TypesAgree old new image type type') (hproper : old.IsProper type) :
    new.IsProper type' := by
  induction htypes with
  | builtin => exact nofun
  | list _ ih => exact ih hproper
  | map _ _ ihKeys ihValues =>
    rw [IsProper, TypeRef.references, List.forall_mem_append] at hproper ⊢
    exact ⟨ihKeys hproper.1, ihValues hproper.2⟩
  | name related =>
    rw [IsProper, TypeRef.references, List.forall_mem_singleton] at hproper ⊢
    exact (h.namesType_iff related).1 hproper
  | @typedef type type' typedef next _ _ step _ _ =>
    obtain ⟨name, hname, hbinding, htypedef⟩ := step
    obtain ⟨decl, hdecl, -⟩ := (typedef?_eq_some_iff _ _).1 htypedef
    rw [IsProper, hname, TypeRef.references, List.forall_mem_singleton]
    exact ⟨typedef, .typedef decl, hbinding, hdecl, rfl⟩

theorem isProper_back (hresolve : new.TypesResolve) (htypes : TypesAgree old new image type type')
    (hproper : new.IsProper type') : old.IsProper type := by
  induction htypes with
  | builtin => exact nofun
  | list _ ih => exact ih hproper
  | map _ _ ihKeys ihValues =>
    rw [IsProper, TypeRef.references, List.forall_mem_append] at hproper ⊢
    exact ⟨ihKeys hproper.1, ihValues hproper.2⟩
  | name related =>
    rw [IsProper, TypeRef.references, List.forall_mem_singleton] at hproper ⊢
    exact (h.namesType_iff related).2 hproper
  | typedef _ _ step _ ih => exact ih (isProper_of_aliases hresolve step)

/-! #### Unfolding -/

theorem unfolds {next : LocatedType} (htypes : TypesAgree old new image type type')
    (step : old.Unfolds type next) :
    ∃ next', ReflTransGen new.Unfolds type' next' ∧ TypesAgree old new image next next' := by
  cases step with
  | typedef step =>
    obtain ⟨typedef, halias⟩ := step
    obtain ⟨last', next', hchain, hstep, hnext⟩ := h.aliases htypes halias
    exact ⟨next', (unfolds_chain hchain).tail (.typedef ⟨_, hstep⟩), hnext⟩
  | part step =>
    obtain ⟨last', hchain, hheads⟩ := htypes.exists_heads
    cases step with
    | element =>
      cases hheads with
      | list elements => exact ⟨_, (unfolds_chain hchain).tail (.part .element), elements⟩
    | key =>
      cases hheads with
      | map keys values => exact ⟨_, (unfolds_chain hchain).tail (.part .key), keys⟩
    | value =>
      cases hheads with
      | map keys values => exact ⟨_, (unfolds_chain hchain).tail (.part .value), values⟩

theorem unfolds_back {next' : LocatedType} (htypes : TypesAgree old new image type type')
    (step : new.Unfolds type' next') :
    TypesAgree old new image type next' ∨
      ∃ next, old.Unfolds type next ∧ TypesAgree old new image next next' := by
  cases step with
  | typedef step =>
    obtain ⟨typedef', halias⟩ := step
    rcases h.aliases_back htypes halias with ⟨hnext, -⟩ | ⟨typedef, next, hstep, -, hnext⟩
    · exact .inl hnext
    · exact .inr ⟨next, .typedef ⟨typedef, hstep⟩, hnext⟩
  | part step =>
    rcases htypes.heads_or_step with hheads | ⟨typedef, next, -, ⟨name, hname, -⟩, -⟩
    · right
      cases step with
      | element =>
        cases hheads with
        | list elements => exact ⟨_, .part .element, elements⟩
      | key =>
        cases hheads with
        | map keys values => exact ⟨_, .part .key, keys⟩
      | value =>
        cases hheads with
        | map keys values => exact ⟨_, .part .value, values⟩
    · cases step <;> cases hname

theorem holdsVoid_iff (htypes : TypesAgree old new image type type') :
    old.HoldsVoid type ↔ new.HoldsVoid type' := by
  constructor
  · rintro ⟨part, hreach, hvoid⟩
    suffices hpart : ∃ part', ReflTransGen new.Unfolds type' part' ∧
        TypesAgree old new image part part' by
      obtain ⟨part', hreach', hpart⟩ := hpart
      exact ⟨part', hreach', hpart.void_iff.1 hvoid⟩
    clear hvoid
    induction hreach with
    | refl => exact ⟨type', .refl, htypes⟩
    | tail _ step ih =>
      obtain ⟨part', hreach', hpart⟩ := ih
      obtain ⟨next', hnext', hnext⟩ := h.unfolds hpart step
      exact ⟨next', hreach'.trans hnext', hnext⟩
  · rintro ⟨part', hreach', hvoid⟩
    suffices hpart : ∃ part, ReflTransGen old.Unfolds type part ∧
        TypesAgree old new image part part' by
      obtain ⟨part, hreach, hpart⟩ := hpart
      exact ⟨part, hreach, hpart.void_iff.2 hvoid⟩
    clear hvoid
    induction hreach' with
    | refl => exact ⟨type, .refl, htypes⟩
    | tail _ step ih =>
      obtain ⟨part, hreach, hpart⟩ := ih
      rcases h.unfolds_back hpart step with hnext | ⟨next, hstep, hnext⟩
      · exact ⟨part, hreach, hnext⟩
      · exact ⟨next, hreach.tail hstep, hnext⟩

theorem isException_iff (htypes : TypesAgree old new image type type') :
    old.IsException type ↔ new.IsException type' := by
  constructor
  · rintro ⟨last, name, ref, decl, hchain, hname, hbinding, hdecl, hkind⟩
    obtain ⟨part', hpart', hpart⟩ := h.chain htypes hchain
    obtain ⟨last', hlast', hheads⟩ := hpart.exists_heads
    obtain ⟨declaration', hdecl', hmatches⟩ := h.exists_declaration? hdecl
    cases hheads with
    | name related =>
      obtain rfl := TypeRef.name.inj hname
      cases hmatches with
      | struct hmatches =>
        exact ⟨_, _, image ref, _, hpart'.trans hlast', rfl, related.binding? hbinding, hdecl',
          hmatches.kind.symm.trans hkind⟩
    | _ => cases hname
  · rintro ⟨last', name', ref', decl', hchain', hname', hbinding', hdecl', hkind⟩
    obtain ⟨last, hchain, hlast⟩ := h.chain_back htypes hchain'
    rcases hlast.heads_or_step with hheads | ⟨typedef, next, -, halias, -⟩
    · cases hheads with
      | name related =>
        obtain rfl := TypeRef.name.inj hname'
        obtain ⟨ref, hbinding, rfl⟩ := related.binding?_back hbinding'
        obtain ⟨declaration, hdecl, hmatches⟩ := h.exists_declaration?_back hdecl'
        cases hmatches with
        | struct hmatches =>
          exact ⟨_, _, ref, _, hchain, rfl, hbinding, hdecl, hmatches.kind.trans hkind⟩
      | _ => cases hname'
    · exact absurd halias (not_aliases_of_struct hname' hbinding' hdecl' typedef next)

theorem namesService_iff {here here' : Nat} {name name' : Name}
    (hnames : NamesAgree old new image here here' name name') :
    old.NamesService here name ↔ new.NamesService here' name' := by
  constructor
  · rintro ⟨ref, decl, hbinding, hdecl⟩
    obtain ⟨declaration', hdecl', hmatches⟩ := h.exists_declaration? hdecl
    cases hmatches with
    | service _ => exact ⟨image ref, _, hnames.binding? hbinding, hdecl'⟩
  · rintro ⟨ref', decl', hbinding', hdecl'⟩
    obtain ⟨ref, hbinding, rfl⟩ := hnames.binding?_back hbinding'
    obtain ⟨declaration, hdecl, hmatches⟩ := h.exists_declaration?_back hdecl'
    cases hmatches with
    | service _ => exact ⟨ref, _, hbinding, hdecl⟩

end Agrees

/-! ### Types that fit -/

theorem unfolds_of_mem_parts {tree : Nat} {whole part : TypeRef} (hpart : part ∈ whole.parts) :
    ReflTransGen resolver.Unfolds ⟨tree, whole⟩ ⟨tree, part⟩ := by
  induction whole with
  | builtin builtin span =>
    obtain rfl := List.mem_singleton.1 hpart
    exact .refl
  | list element span ih =>
    rcases List.mem_cons.1 hpart with rfl | hpart
    · exact .refl
    · exact .head (.part .element) (ih hpart)
  | map key value span ihKey ihValue =>
    rcases List.mem_cons.1 hpart with rfl | hpart
    · exact .refl
    · rcases List.mem_append.1 hpart with hpart | hpart
      · exact .head (.part .key) (ihKey hpart)
      · exact .head (.part .value) (ihValue hpart)
  | name name =>
    obtain rfl := List.mem_singleton.1 hpart
    exact .refl

/-- Where types fit, no type that is written but `void` itself holds `void`. -/
theorem TypesFit.not_holdsVoid (hfit : resolver.TypesFit) {type : LocatedType}
    (hwritten : resolver.IsWritten type) (hstored : ∀ span, type.type ≠ .builtin .void span) :
    ¬ resolver.HoldsVoid type := by
  rintro ⟨void, hreach, hvoid⟩
  obtain ⟨tree, htree, whole, hwhole, hpart⟩ := hwritten
  obtain ⟨declaration, hmem, hwhole⟩ := List.mem_flatMap.1 hwhole
  have hholds : resolver.HoldsVoid ⟨type.tree, whole⟩ :=
    ⟨void, (unfolds_of_mem_parts hpart).trans hreach, hvoid⟩
  rcases Declaration.mem_types_iff.1 hwhole with hwhole | hwhole
  · exact hfit.noVoid type.tree tree htree declaration hmem whole hwhole hholds
  · obtain ⟨span, rfl⟩ := hfit.returns type.tree tree htree declaration hmem whole hwhole hholds
    exact hstored span (List.mem_singleton.1 hpart)

namespace Abbreviates

variable (h : Abbreviates old new image)

include h

/-- A declaration of the second resolver comes from one of the first or is a further typedef. -/
theorem exists_declaration? {ref' : DeclRef} {declaration' : Declaration}
    (hdecl' : new.declaration? ref' = some declaration') :
    (∃ ref declaration, image ref = ref' ∧ old.declaration? ref = some declaration ∧
      DeclarationsAgree old new image ref.tree ref'.tree declaration declaration') ∨
    ∃ decl' type, declaration' = .typedef decl' ∧ old.IsWritten type ∧
      (∀ span, type.type ≠ .builtin .void span) ∧
        TypesAgree old new image type ⟨ref'.tree, decl'.type⟩ := by
  rcases h.declarations ref' declaration' hdecl' with ⟨ref, rfl⟩ | hextra
  · obtain ⟨declaration, hdecl, hmatches⟩ := h.agrees.exists_declaration?_back hdecl'
    exact .inl ⟨ref, declaration, rfl, hdecl, hmatches⟩
  · exact .inr hextra

theorem typesResolve (hresolve : old.TypesResolve) : new.TypesResolve := by
  refine typesResolve_iff.2 fun ref' declaration' hdecl' type' htype' => ?_
  rcases h.exists_declaration? hdecl' with ⟨ref, declaration, rfl, hdecl, hmatches⟩ |
    ⟨decl', type, rfl, hwritten, -, htypes⟩
  · obtain ⟨type, htype, htypes⟩ := forall₂_mem_right hmatches.types htype'
    exact h.agrees.isProper htypes (isProper_of_declaration? hresolve hdecl htype)
  · obtain rfl := List.mem_singleton.1 htype'
    exact h.agrees.isProper htypes (isProper_of_isWritten hresolve hwritten)

theorem typesResolve_back (hresolve : new.TypesResolve) : old.TypesResolve := by
  refine typesResolve_iff.2 fun ref declaration hdecl type htype => ?_
  obtain ⟨declaration', hdecl', hmatches⟩ := h.agrees.exists_declaration? hdecl
  obtain ⟨type', htype', htypes⟩ := forall₂_mem_left hmatches.types htype
  exact h.agrees.isProper_back hresolve htypes (isProper_of_declaration? hresolve hdecl' htype')

theorem typedefsEnd (hresolve : old.TypesResolve) (hend : old.TypedefsEnd) : new.TypedefsEnd := by
  refine (typedefsEnd_iff (h.typesResolve hresolve)).2 fun ref' type' htypedef' => ?_
  obtain ⟨decl', hdecl', rfl⟩ := (typedef?_eq_some_iff _ _).1 htypedef'
  have hends {type : LocatedType} (hproper : old.IsProper type)
      (htypes : TypesAgree old new image type ⟨ref'.tree, decl'.type⟩) :
      ∃ last', new.Ends ⟨ref'.tree, decl'.type⟩ last' := by
    obtain ⟨unwrapped, hunwrap, -⟩ := unwrap_ok hresolve hend hproper
    obtain ⟨last', hlast', -⟩ :=
      h.agrees.ends htypes (unwrap_iff_ends.1 ⟨unwrapped, hunwrap, rfl⟩)
    exact ⟨last', hlast'⟩
  rcases h.exists_declaration? hdecl' with ⟨ref, declaration, rfl, hdecl, hmatches⟩ |
    ⟨_, type, heq, hwritten, -, htypes⟩
  · cases hmatches with
    | typedef hmatches =>
      exact hends (isProper_of_declaration? hresolve hdecl List.mem_cons_self) hmatches.type
  · obtain rfl := Declaration.typedef.inj heq
    exact hends (isProper_of_isWritten hresolve hwritten) htypes

theorem typedefsEnd_back (hresolve : new.TypesResolve) (hend : new.TypedefsEnd) :
    old.TypedefsEnd := by
  refine (typedefsEnd_iff (h.typesResolve_back hresolve)).2 fun ref type htypedef => ?_
  obtain ⟨decl, hdecl, rfl⟩ := (typedef?_eq_some_iff _ _).1 htypedef
  obtain ⟨declaration', hdecl', hmatches⟩ := h.agrees.exists_declaration? hdecl
  cases hmatches with
  | typedef hmatches =>
    obtain ⟨unwrapped', hunwrap', -⟩ :=
      unwrap_ok hresolve hend (isProper_of_declaration? hresolve hdecl' List.mem_cons_self)
    obtain ⟨last, hlast, -⟩ :=
      h.agrees.ends_back hmatches.type (unwrap_iff_ends.1 ⟨unwrapped', hunwrap', rfl⟩)
    exact ⟨last, hlast⟩

theorem typesFit (hfit : old.TypesFit) : new.TypesFit where
  resolve := h.typesResolve hfit.resolve
  typedefsEnd := h.typedefsEnd hfit.resolve hfit.typedefsEnd
  noVoid := by
    refine everywhere_iff.2 fun ref' declaration' hdecl' type' htype' hvoid' => ?_
    -- a new declaration is an old one or a typedef of a type that was written before
    rcases h.exists_declaration? hdecl' with ⟨ref, declaration, rfl, hdecl, hmatches⟩ |
      ⟨decl', type, rfl, hwritten, hstored, htypes⟩
    · obtain ⟨type, htype, htypes⟩ :=
        forall₂_mem_right (List.rel_append hmatches.storedTypes hmatches.thrownTypes) htype'
      exact everywhere_iff.1 hfit.noVoid ref declaration hdecl type htype
        ((h.agrees.holdsVoid_iff htypes).2 hvoid')
    · obtain rfl := List.mem_singleton.1 htype'
      exact hfit.not_holdsVoid hwritten hstored ((h.agrees.holdsVoid_iff htypes).2 hvoid')
  returns := by
    refine everywhere_iff.2 fun ref' declaration' hdecl' type' htype' hvoid' => ?_
    rcases h.exists_declaration? hdecl' with ⟨ref, declaration, rfl, hdecl, hmatches⟩ |
      ⟨decl', type, rfl, -⟩
    · obtain ⟨type, htype, htypes⟩ := forall₂_mem_right hmatches.returnTypes htype'
      exact htypes.void_iff.1 (everywhere_iff.1 hfit.returns ref declaration hdecl type htype
        ((h.agrees.holdsVoid_iff htypes).2 hvoid'))
    · cases htype'
  throws := by
    refine everywhere_iff.2 fun ref' declaration' hdecl' type' htype' => ?_
    rcases h.exists_declaration? hdecl' with ⟨ref, declaration, rfl, hdecl, hmatches⟩ |
      ⟨decl', type, rfl, -⟩
    · obtain ⟨type, htype, htypes⟩ := forall₂_mem_right hmatches.thrownTypes htype'
      exact (h.agrees.isException_iff htypes).1
        (everywhere_iff.1 hfit.throws ref declaration hdecl type htype)
    · cases htype'
  parents := by
    refine everywhere_iff.2 fun ref' declaration' hdecl' name' hname' => ?_
    rcases h.exists_declaration? hdecl' with ⟨ref, declaration, rfl, hdecl, hmatches⟩ |
      ⟨decl', type, rfl, -⟩
    · obtain ⟨name, hname, hnames⟩ := forall₂_mem_right hmatches.parents hname'
      exact (h.agrees.namesService_iff hnames).1
        (everywhere_iff.1 hfit.parents ref declaration hdecl name hname)
    · cases hname'

theorem typesFit_back (hfit : new.TypesFit) : old.TypesFit where
  resolve := h.typesResolve_back hfit.resolve
  typedefsEnd := h.typedefsEnd_back hfit.resolve hfit.typedefsEnd
  noVoid := by
    refine everywhere_iff.2 fun ref declaration hdecl type htype hvoid => ?_
    obtain ⟨declaration', hdecl', hmatches⟩ := h.agrees.exists_declaration? hdecl
    obtain ⟨type', htype', htypes⟩ :=
      forall₂_mem_left (List.rel_append hmatches.storedTypes hmatches.thrownTypes) htype
    exact everywhere_iff.1 hfit.noVoid (image ref) declaration' hdecl' type' htype'
      ((h.agrees.holdsVoid_iff htypes).1 hvoid)
  returns := by
    refine everywhere_iff.2 fun ref declaration hdecl type htype hvoid => ?_
    obtain ⟨declaration', hdecl', hmatches⟩ := h.agrees.exists_declaration? hdecl
    obtain ⟨type', htype', htypes⟩ := forall₂_mem_left hmatches.returnTypes htype
    exact htypes.void_iff.2 (everywhere_iff.1 hfit.returns (image ref) declaration' hdecl' type'
      htype' ((h.agrees.holdsVoid_iff htypes).1 hvoid))
  throws := by
    refine everywhere_iff.2 fun ref declaration hdecl type htype => ?_
    obtain ⟨declaration', hdecl', hmatches⟩ := h.agrees.exists_declaration? hdecl
    obtain ⟨type', htype', htypes⟩ := forall₂_mem_left hmatches.thrownTypes htype
    exact (h.agrees.isException_iff htypes).2
      (everywhere_iff.1 hfit.throws (image ref) declaration' hdecl' type' htype')
  parents := by
    refine everywhere_iff.2 fun ref declaration hdecl name hname => ?_
    obtain ⟨declaration', hdecl', hmatches⟩ := h.agrees.exists_declaration? hdecl
    obtain ⟨name', hname', hnames⟩ := forall₂_mem_left hmatches.parents hname
    exact (h.agrees.namesService_iff hnames).2
      (everywhere_iff.1 hfit.parents (image ref) declaration' hdecl' name' hname')

end Abbreviates

/-- Where types fit, corresponding types are checked alike, as nothing is said about either or
both are `void`. -/
theorem checkedAlike_of_typesFit (hfit : old.TypesFit) (hfit' : new.TypesFit) {ref : DeclRef}
    {declaration declaration' : Declaration} (hdecl : old.declaration? ref = some declaration)
    (hdecl' : new.declaration? (image ref) = some declaration')
    (hmatches : DeclarationsAgree old new image ref.tree (image ref).tree declaration
      declaration') :
    declaration.Matches (NamesAgree old new image ref.tree (image ref).tree)
      (CheckedAlike old new image ref.tree (image ref).tree) declaration' := by
  refine hmatches.imp (fun _ _ _ _ h => h) fun type htype type' htype' htypes => ⟨htypes, ?_, ?_⟩
  · obtain ⟨hsilent, hvalue⟩ :=
      affirmType_of_isProper (isProper_of_declaration? hfit.resolve hdecl htype)
    obtain ⟨hsilent', hvalue'⟩ :=
      affirmType_of_isProper (isProper_of_declaration? hfit'.resolve hdecl' htype')
    exact ⟨by rw [hsilent, hsilent'], hvalue.trans hvalue'.symm⟩
  · intro allowed
    by_cases hvoid : ∃ span, type = .builtin .void span
    · obtain ⟨span, rfl⟩ := hvoid
      obtain ⟨span', hspan'⟩ := htypes.void_iff.1 ⟨span, rfl⟩
      obtain rfl : type' = .builtin .void span' := hspan'
      exact Agree.ite Iff.rfl (fun _ => agree_error rfl trivial) fun _ => agree_pure trivial
    · have hvoid' : ¬ ∃ span, type' = .builtin .void span := fun h =>
        hvoid (htypes.void_iff.2 h)
      have hwritten {resolver : Resolver} {ref : DeclRef} {declaration : Declaration}
          (hdecl : resolver.declaration? ref = some declaration) {type : TypeRef}
          (htype : type ∈ declaration.types) : resolver.IsWritten ⟨ref.tree, type⟩ := by
        obtain ⟨tree, htree, hmem⟩ := exists_tree_of_declaration? hdecl
        exact ⟨tree, htree, type, List.mem_flatMap.2 ⟨declaration, hmem, htype⟩, type.mem_parts⟩
      have hsilent : (old.checkVoid ref.tree allowed type).Silent :=
        silent_checkVoid_of_not_holdsVoid allowed fun h =>
          absurd h (hfit.not_holdsVoid (hwritten hdecl htype) fun span h => hvoid ⟨span, h⟩)
      have hsilent' : (new.checkVoid (image ref).tree allowed type').Silent :=
        silent_checkVoid_of_not_holdsVoid allowed fun h =>
          absurd h (hfit'.not_holdsVoid (hwritten hdecl' htype') fun span h => hvoid' ⟨span, h⟩)
      exact ⟨by rw [hsilent, hsilent'], trivial⟩

end Resolver

end Idl
