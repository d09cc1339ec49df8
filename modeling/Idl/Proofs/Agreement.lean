import Idl.Proofs.CheckedTypes
import Idl.Proofs.Matching

/-!
# Resolvers that agree

Two resolvers agree if an injective image takes each declaration of the first to one of the second
that matches it: names have the same components and are bound to corresponding declarations, and
types are the same except that the second may go through further typedefs. Types that agree come
to the same.
-/
namespace Idl.Resolver

open Relation

section

variable (resolver : Resolver)

/-- The end of the typedef chain of a type. -/
structure Ends (type last : LocatedType) : Prop where
  chain : ReflTransGen resolver.AliasStep type last
  noAlias : ∀ next, ¬ resolver.AliasStep last next
  bound : ∀ name, last.type = .name name → (resolver.binding? last.tree name).isSome

end

section

variable {resolver : Resolver} {type next last : LocatedType}

theorem aliasStep_unique {next' : LocatedType} (h : resolver.AliasStep type next)
    (h' : resolver.AliasStep type next') : next = next' := by
  obtain ⟨_, halias⟩ := h
  obtain ⟨_, halias'⟩ := h'
  exact Conforms.aliases_unique halias halias'

theorem Ends.head (step : resolver.AliasStep type next) (h : resolver.Ends next last) :
    resolver.Ends type last :=
  ⟨h.chain.head step, h.noAlias, h.bound⟩

theorem Ends.not_transGen (h : resolver.Ends type last) :
    ¬ TransGen resolver.AliasStep type type := by
  induction h.chain using ReflTransGen.head_induction_on with
  | refl =>
    intro hloop
    obtain ⟨next, hstep, -⟩ := TransGen.head'_iff.1 hloop
    exact h.noAlias next hstep
  | head step hrest ih =>
    intro hloop
    obtain ⟨next, hstep, hback⟩ := TransGen.head'_iff.1 hloop
    obtain rfl := aliasStep_unique step hstep
    exact ih ⟨hrest, h.noAlias, h.bound⟩ (TransGen.tail' hback step)

theorem unwrapFrom_of_ends {unvisited : List DeclRef} (typedef? : Option DeclRef)
    (h : resolver.Ends type last)
    (hunvisited : ∀ part typedef next, ReflTransGen resolver.AliasStep type part →
      resolver.Aliases part typedef next → typedef ∈ unvisited) :
    ∃ unwrapped, resolver.unwrapFrom unvisited typedef? type = .ok unwrapped := by
  induction h.chain using ReflTransGen.head_induction_on generalizing unvisited typedef? with
  | refl =>
    rw [unwrapFrom]
    split
    · next name hname =>
      obtain ⟨binding, hbinding⟩ := Option.isSome_iff_exists.1 (h.bound name hname)
      simp only [hbinding]
      split
      · exact ⟨_, rfl⟩
      · next next hnext =>
        by_cases htail : binding.tail = []
        · obtain ⟨target, tail⟩ := binding
          obtain rfl : tail = [] := htail
          exact absurd ⟨target, name, hname, hbinding, hnext⟩ (h.noAlias next)
        · rw [if_pos htail]
          exact ⟨_, rfl⟩
    · exact ⟨_, rfl⟩
  | @head type next step hrest ih =>
    obtain ⟨typedef, halias⟩ := step
    have hnext : resolver.Ends next last := ⟨hrest, h.noAlias, h.bound⟩
    rw [unwrapFrom_of_aliases halias, if_pos (hunvisited type typedef next .refl halias)]
    refine ih _ hnext fun part other following hpart hother => ?_
    have hmem := hunvisited part other following (hpart.head ⟨typedef, halias⟩) hother
    -- a chain that comes back to the typedef just taken would never end
    have hne : other ≠ typedef := by
      rintro rfl
      obtain rfl : following = next :=
        Option.some.inj (hother.typedef?_eq.symm.trans halias.typedef?_eq)
      exact hnext.not_transGen (TransGen.tail' hpart ⟨other, hother⟩)
    exact (List.mem_erase_of_ne hne).2 hmem

/-- A typedef leads to those on the chain of typedefs that starts with what it stands for. -/
theorem transGen_leadsTo_iff {typedef other : DeclRef} :
    TransGen resolver.LeadsTo typedef other ↔ ∃ type part next,
      resolver.typedef? typedef = some type ∧ ReflTransGen resolver.AliasStep type part ∧
        resolver.Aliases part other next := by
  constructor
  · intro h
    induction h with
    | single step =>
      obtain ⟨type, next, htypedef, halias⟩ := step
      exact ⟨type, type, next, htypedef, .refl, halias⟩
    | tail _ step ih =>
      obtain ⟨type, part, middle, htypedef, hchain, halias⟩ := ih
      obtain ⟨target, next, htarget, hnext⟩ := step
      obtain rfl := Option.some.inj (halias.typedef?_eq.symm.trans htarget)
      exact ⟨type, middle, next, htypedef, hchain.tail ⟨_, halias⟩, hnext⟩
  · rintro ⟨type, part, next, htypedef, hchain, halias⟩
    exact leadsTo_of_chain htypedef hchain halias

/-- Unwrapping goes through exactly for types whose chain of typedefs ends. -/
theorem unwrap_iff_ends :
    (∃ unwrapped, resolver.unwrap type = .ok unwrapped ∧ unwrapped.type = last) ↔
      resolver.Ends type last := by
  constructor
  · rintro ⟨unwrapped, hunwrap, rfl⟩
    have hends := endsChain_of_unwrapFrom hunwrap
    refine ⟨hends.chain, fun next ⟨typedef, halias⟩ => hends.noAlias typedef next halias,
      fun name hname => ?_⟩
    cases htarget : unwrapped.target with
    | none => exact absurd hname (hends.noTarget htarget name)
    | some ref =>
      obtain ⟨other, tail, hother, hbinding⟩ := hends.target ref htarget
      obtain rfl := TypeRef.name.inj (hname.symm.trans hother)
      simp [hbinding]
  · intro h
    obtain ⟨unwrapped, hunwrap⟩ := unwrapFrom_of_ends none h
      fun part typedef next _ halias => (mem_typedefs_iff typedef).2
        (Option.isSome_iff_exists.2 ⟨next, halias.typedef?_eq⟩)
    refine ⟨unwrapped, hunwrap, ?_⟩
    have hends := endsChain_of_unwrapFrom hunwrap
    exact chain_end_unique hends.chain (fun next ⟨typedef, halias⟩ =>
      hends.noAlias typedef next halias) h.chain h.noAlias

end

/-! ### Agreement -/

section

variable (old new : Resolver) (image : DeclRef → DeclRef)

/-- Names with the same components that are bound to corresponding declarations, or not at all. -/
structure NamesAgree (here here' : Nat) (name name' : Name) : Prop where
  alike : name.Alike name'
  bindings : Option.Rel (fun binding binding' : Binding =>
    image binding.target = binding'.target ∧
      binding.tail.map (·.text) = binding'.tail.map (·.text))
    (old.binding? here name) (new.binding? here' name')

/-- Types that are the same, except that some parts of the second are typedefs, none of them an
image, for what stands in the first. The type `void` itself is not behind such a typedef. -/
inductive TypesAgree : LocatedType → LocatedType → Prop
  | builtin {here here' type span span'} :
      TypesAgree ⟨here, .builtin type span⟩ ⟨here', .builtin type span'⟩
  | list {here here' element element' span span'}
      (elements : TypesAgree ⟨here, element⟩ ⟨here', element'⟩) :
      TypesAgree ⟨here, .list element span⟩ ⟨here', .list element' span'⟩
  | map {here here' key key' value value' span span'}
      (keys : TypesAgree ⟨here, key⟩ ⟨here', key'⟩)
      (values : TypesAgree ⟨here, value⟩ ⟨here', value'⟩) :
      TypesAgree ⟨here, .map key value span⟩ ⟨here', .map key' value' span'⟩
  | name {here here' name name'} (related : NamesAgree old new image here here' name name') :
      TypesAgree ⟨here, .name name⟩ ⟨here', .name name'⟩
  | typedef {type type' typedef next} (stored : ∀ span, type.type ≠ .builtin .void span)
      (extra : ∀ ref, image ref ≠ typedef) (step : new.Aliases type' typedef next)
      (rest : TypesAgree type next) : TypesAgree type type'

/-- Types that agree without a further typedef in front. -/
inductive HeadsAgree : LocatedType → LocatedType → Prop
  | builtin {here here' type span span'} :
      HeadsAgree ⟨here, .builtin type span⟩ ⟨here', .builtin type span'⟩
  | list {here here' element element' span span'}
      (elements : TypesAgree old new image ⟨here, element⟩ ⟨here', element'⟩) :
      HeadsAgree ⟨here, .list element span⟩ ⟨here', .list element' span'⟩
  | map {here here' key key' value value' span span'}
      (keys : TypesAgree old new image ⟨here, key⟩ ⟨here', key'⟩)
      (values : TypesAgree old new image ⟨here, value⟩ ⟨here', value'⟩) :
      HeadsAgree ⟨here, .map key value span⟩ ⟨here', .map key' value' span'⟩
  | name {here here' name name'} (related : NamesAgree old new image here here' name name') :
      HeadsAgree ⟨here, .name name⟩ ⟨here', .name name'⟩

/-- Declarations in trees `here` and `here'` that are the same but for positions and typedefs. -/
def DeclarationsAgree (here here' : Nat) (declaration declaration' : Declaration) : Prop :=
  declaration.Matches (NamesAgree old new image here here')
    (fun type type' => TypesAgree old new image ⟨here, type⟩ ⟨here', type'⟩) declaration'

/-- The second resolver has an image of each declaration of the first, with which it agrees. -/
structure Agrees : Prop where
  injective : Function.Injective image
  declared : ∀ ref, Option.Rel (DeclarationsAgree old new image ref.tree (image ref).tree)
    (old.declaration? ref) (new.declaration? (image ref))

/-- Outcomes of unwrapping that agree: both fail, or both come to types that agree. -/
inductive UnwrapsAgree : Except UnwrapFailure Unwrapped → Except UnwrapFailure Unwrapped → Prop
  | error {failure failure'} : UnwrapsAgree (.error failure) (.error failure')
  | ok {unwrapped unwrapped' : Unwrapped}
      (heads : HeadsAgree old new image unwrapped.type unwrapped'.type)
      (targets : unwrapped.target.map image = unwrapped'.target) :
      UnwrapsAgree (.ok unwrapped) (.ok unwrapped')

end

section

variable {old new : Resolver} {image : DeclRef → DeclRef} {type type' : LocatedType}

theorem TypesAgree.void_iff (h : TypesAgree old new image type type') :
    (∃ span, type.type = .builtin .void span) ↔ ∃ span, type'.type = .builtin .void span := by
  cases h with
  | builtin =>
    constructor
    · rintro ⟨span, hspan⟩
      cases hspan
      exact ⟨_, rfl⟩
    · rintro ⟨span, hspan⟩
      cases hspan
      exact ⟨_, rfl⟩
  | typedef stored _ step rest =>
    refine ⟨fun ⟨span, hspan⟩ => absurd hspan (stored span), ?_⟩
    rintro ⟨span, hspan⟩
    obtain ⟨name, hname, -⟩ := step
    cases hname.symm.trans hspan
  | _ => simp

/-- The typedefs in front of the second type lead to one that agrees with the first at its
head. -/
theorem TypesAgree.exists_heads (h : TypesAgree old new image type type') :
    ∃ last', ReflTransGen new.AliasStep type' last' ∧ HeadsAgree old new image type last' := by
  induction h with
  | builtin => exact ⟨_, .refl, .builtin⟩
  | list elements _ => exact ⟨_, .refl, .list elements⟩
  | map keys values _ _ => exact ⟨_, .refl, .map keys values⟩
  | name related => exact ⟨_, .refl, .name related⟩
  | typedef _ _ step _ ih =>
    obtain ⟨last', hchain, hheads⟩ := ih
    exact ⟨last', hchain.head ⟨_, step⟩, hheads⟩

theorem TypesAgree.heads_or_step (h : TypesAgree old new image type type') :
    HeadsAgree old new image type type' ∨
      ∃ typedef next, (∀ ref, image ref ≠ typedef) ∧ new.Aliases type' typedef next ∧
        TypesAgree old new image type next := by
  cases h with
  | builtin => exact .inl .builtin
  | list elements => exact .inl (.list elements)
  | map keys values => exact .inl (.map keys values)
  | name related => exact .inl (.name related)
  | typedef _ extra step rest => exact .inr ⟨_, _, extra, step, rest⟩

/-- Names that agree are both unbound, or bound to corresponding declarations with the same
components after them. -/
theorem NamesAgree.binding_cases {here here' : Nat} {name name' : Name}
    (h : NamesAgree old new image here here' name name') :
    (old.binding? here name = none ∧ new.binding? here' name' = none) ∨
      (∃ target, old.binding? here name = some ⟨target, []⟩ ∧
        new.binding? here' name' = some ⟨image target, []⟩) ∨
      ∃ target member tail member' tail',
        old.binding? here name = some ⟨target, member :: tail⟩ ∧
        new.binding? here' name' = some ⟨image target, member' :: tail'⟩ ∧
        member.text = member'.text ∧ tail.map (·.text) = tail'.map (·.text) := by
  rcases optionRel_cases h.bindings with
    hnone | ⟨⟨target, tail⟩, ⟨_, tail'⟩, hold, hnew, rfl, htail⟩
  · exact .inl hnone
  · cases tail with
    | nil =>
      obtain rfl : tail' = [] := List.map_eq_nil_iff.1 htail.symm
      exact .inr (.inl ⟨target, hold, hnew⟩)
    | cons member tail =>
      cases tail' with
      | nil => cases htail
      | cons member' tail' =>
        obtain ⟨hmember, htail⟩ := List.cons.inj htail
        exact .inr (.inr ⟨target, member, tail, member', tail', hold, hnew, hmember, htail⟩)

theorem NamesAgree.isSome_iff {here here' : Nat} {name name' : Name}
    (h : NamesAgree old new image here here' name name') :
    (old.binding? here name).isSome ↔ (new.binding? here' name').isSome := by
  rcases optionRel_cases h.bindings with ⟨hold, hnew⟩ | ⟨_, _, hold, hnew, -⟩
  · rw [hold, hnew]
  · rw [hold, hnew]
    rfl

theorem NamesAgree.binding? {here here' : Nat} {name name' : Name}
    (h : NamesAgree old new image here here' name name') {target : DeclRef}
    (hbinding : old.binding? here name = some ⟨target, []⟩) :
    new.binding? here' name' = some ⟨image target, []⟩ := by
  rcases h.binding_cases with ⟨hold, -⟩ | ⟨_, hold, hnew⟩ | ⟨_, _, _, _, _, hold, -⟩
  · cases hbinding.symm.trans hold
  · cases hbinding.symm.trans hold
    exact hnew
  · cases hbinding.symm.trans hold

theorem NamesAgree.binding?_back {here here' : Nat} {name name' : Name}
    (h : NamesAgree old new image here here' name name') {target' : DeclRef}
    (hbinding' : new.binding? here' name' = some ⟨target', []⟩) :
    ∃ target, old.binding? here name = some ⟨target, []⟩ ∧ image target = target' := by
  rcases h.binding_cases with ⟨-, hnew⟩ | ⟨target, hold, hnew⟩ | ⟨_, _, _, _, _, -, hnew, -⟩
  · cases hbinding'.symm.trans hnew
  · cases hbinding'.symm.trans hnew
    exact ⟨target, hold, rfl⟩
  · cases hbinding'.symm.trans hnew

theorem HeadsAgree.bound_iff (h : HeadsAgree old new image type type') :
    (∀ name, type.type = .name name → (old.binding? type.tree name).isSome) ↔
      ∀ name, type'.type = .name name → (new.binding? type'.tree name).isSome := by
  cases h with
  | name related => simp [related.isSome_iff]
  | _ => simp

namespace Agrees

/-- The typedef with an image, and what both stand for. -/
theorem typedef? (h : Agrees old new image) (ref : DeclRef) :
    Option.Rel (TypesAgree old new image) (old.typedef? ref) (new.typedef? (image ref)) := by
  have hdeclared := h.declared ref
  unfold Resolver.typedef?
  generalize old.declaration? ref = declaration at hdeclared ⊢
  generalize new.declaration? (image ref) = declaration' at hdeclared ⊢
  cases hdeclared with
  | none => exact .none
  | some hmatches =>
    cases hmatches with
    | typedef hmatches => exact .some hmatches.type
    | _ => exact .none

theorem enum? (h : Agrees old new image) (ref : DeclRef) :
    Option.Rel EnumDecl.Matches (old.enum? ref) (new.enum? (image ref)) := by
  have hdeclared := h.declared ref
  unfold Resolver.enum?
  generalize old.declaration? ref = declaration at hdeclared ⊢
  generalize new.declaration? (image ref) = declaration' at hdeclared ⊢
  cases hdeclared with
  | none => exact .none
  | some hmatches =>
    cases hmatches with
    | enum hmatches => exact .some hmatches
    | _ => exact .none

theorem nameOf (h : Agrees old new image) (ref : DeclRef) :
    old.nameOf ref = new.nameOf (image ref) := by
  have hdeclared := h.declared ref
  unfold Resolver.nameOf
  generalize old.declaration? ref = declaration at hdeclared ⊢
  generalize new.declaration? (image ref) = declaration' at hdeclared ⊢
  cases hdeclared with
  | none => rfl
  | some hmatches => exact hmatches.text_name_eq

theorem any_isTypeDeclaration (h : Agrees old new image) (ref : DeclRef) :
    (old.declaration? ref).any isTypeDeclaration =
      (new.declaration? (image ref)).any isTypeDeclaration := by
  have hdeclared := h.declared ref
  generalize old.declaration? ref = declaration at hdeclared ⊢
  generalize new.declaration? (image ref) = declaration' at hdeclared ⊢
  cases hdeclared with
  | none => rfl
  | some hmatches => cases hmatches <;> rfl

theorem heads_aliases (h : Agrees old new image) (hheads : HeadsAgree old new image type type')
    {typedef : DeclRef} {next : LocatedType} (step : old.Aliases type typedef next) :
    ∃ next', new.Aliases type' (image typedef) next' ∧ TypesAgree old new image next next' := by
  obtain ⟨name, hname, hbinding, htypedef⟩ := step
  cases hheads with
  | name related =>
    obtain rfl := TypeRef.name.inj hname
    have hnext := h.typedef? typedef
    rw [htypedef] at hnext
    generalize htypedef' : new.typedef? (image typedef) = next' at hnext
    cases hnext with
    | some hnext => exact ⟨_, ⟨_, rfl, related.binding? hbinding, htypedef'⟩, hnext⟩
  | _ => cases hname

theorem heads_aliases_back (h : Agrees old new image)
    (hheads : HeadsAgree old new image type type') {typedef' : DeclRef} {next' : LocatedType}
    (step : new.Aliases type' typedef' next') :
    ∃ typedef next, old.Aliases type typedef next ∧ image typedef = typedef' ∧
      TypesAgree old new image next next' := by
  obtain ⟨name, hname, hbinding', htypedef'⟩ := step
  cases hheads with
  | name related =>
    obtain rfl := TypeRef.name.inj hname
    obtain ⟨typedef, hbinding, rfl⟩ := related.binding?_back hbinding'
    have hnext := h.typedef? typedef
    rw [htypedef'] at hnext
    generalize htypedef : old.typedef? typedef = next at hnext
    cases hnext with
    | some hnext => exact ⟨typedef, _, ⟨_, rfl, hbinding, htypedef⟩, rfl, hnext⟩
  | _ => cases hname

/-- One typedef of the first resolver is its image in the second, after typedefs that are not
images. -/
theorem aliases (h : Agrees old new image) (htypes : TypesAgree old new image type type')
    {typedef : DeclRef} {next : LocatedType} (step : old.Aliases type typedef next) :
    ∃ last' next', ReflTransGen new.AliasStep type' last' ∧
      new.Aliases last' (image typedef) next' ∧ TypesAgree old new image next next' := by
  obtain ⟨last', hchain, hheads⟩ := htypes.exists_heads
  obtain ⟨next', hstep, hnext⟩ := h.heads_aliases hheads step
  exact ⟨last', next', hchain, hstep, hnext⟩

/-- One typedef of the second resolver is the image of one of the first or of none. -/
theorem aliases_back (h : Agrees old new image) (htypes : TypesAgree old new image type type')
    {typedef' : DeclRef} {next' : LocatedType} (step : new.Aliases type' typedef' next') :
    (TypesAgree old new image type next' ∧ ∀ ref, image ref ≠ typedef') ∨
      ∃ typedef next, old.Aliases type typedef next ∧ image typedef = typedef' ∧
        TypesAgree old new image next next' := by
  rcases htypes.heads_or_step with hheads | ⟨other, following, hextra, hother, hrest⟩
  · exact .inr (h.heads_aliases_back hheads step)
  · obtain rfl : following = next' := aliasStep_unique ⟨other, hother⟩ ⟨typedef', step⟩
    obtain rfl : other = typedef' := hother.typedef_unique step
    exact .inl ⟨hrest, hextra⟩

theorem chain (h : Agrees old new image) (htypes : TypesAgree old new image type type')
    {part : LocatedType} (hchain : ReflTransGen old.AliasStep type part) :
    ∃ part', ReflTransGen new.AliasStep type' part' ∧ TypesAgree old new image part part' := by
  induction hchain with
  | refl => exact ⟨type', .refl, htypes⟩
  | tail _ step ih =>
    obtain ⟨part', hpart', hagree⟩ := ih
    obtain ⟨typedef, halias⟩ := step
    obtain ⟨last', next', hlast', hstep, hnext⟩ := h.aliases hagree halias
    exact ⟨next', hpart'.trans (hlast'.tail ⟨_, hstep⟩), hnext⟩

theorem chain_back (h : Agrees old new image) (htypes : TypesAgree old new image type type')
    {part' : LocatedType} (hchain : ReflTransGen new.AliasStep type' part') :
    ∃ part, ReflTransGen old.AliasStep type part ∧ TypesAgree old new image part part' := by
  induction hchain with
  | refl => exact ⟨type, .refl, htypes⟩
  | tail _ step ih =>
    obtain ⟨part, hpart, hagree⟩ := ih
    obtain ⟨typedef', halias⟩ := step
    rcases h.aliases_back hagree halias with ⟨hnext, -⟩ | ⟨typedef, next, hstep, -, hnext⟩
    · exact ⟨part, hpart, hnext⟩
    · exact ⟨next, hpart.tail ⟨typedef, hstep⟩, hnext⟩

theorem typedefIsCyclic (h : Agrees old new image) (ref : DeclRef) :
    old.typedefIsCyclic ref = new.typedefIsCyclic (image ref) := by
  rw [Bool.eq_iff_iff, typedefIsCyclic_iff, typedefIsCyclic_iff, transGen_leadsTo_iff,
    transGen_leadsTo_iff]
  have htypedef := h.typedef? ref
  constructor
  · rintro ⟨type, part, next, hold, hchain, halias⟩
    rw [hold] at htypedef
    generalize hnew : new.typedef? (image ref) = type' at htypedef
    cases htypedef with
    | some htypes =>
      obtain ⟨part', hpart', hagree⟩ := h.chain htypes hchain
      obtain ⟨last', next', hlast', hstep, -⟩ := h.aliases hagree halias
      exact ⟨_, last', next', rfl, hpart'.trans hlast', hstep⟩
  · rintro ⟨type', part', next', hnew, hchain, halias⟩
    rw [hnew] at htypedef
    generalize hold : old.typedef? ref = type at htypedef
    cases htypedef with
    | some htypes =>
      obtain ⟨part, hpart, hagree⟩ := h.chain_back htypes hchain
      rcases h.aliases_back hagree halias with ⟨-, hextra⟩ | ⟨typedef, next, hstep, himage, -⟩
      · exact absurd rfl (hextra ref)
      · obtain rfl := h.injective himage
        exact ⟨_, part, next, rfl, hpart, hstep⟩

theorem ends (h : Agrees old new image) (htypes : TypesAgree old new image type type')
    {last : LocatedType} (hends : old.Ends type last) :
    ∃ last', new.Ends type' last' ∧ HeadsAgree old new image last last' := by
  induction hends.chain using ReflTransGen.head_induction_on generalizing type' with
  | refl =>
    obtain ⟨last', hchain, hheads⟩ := htypes.exists_heads
    refine ⟨last', ⟨hchain, fun next' step => ?_, hheads.bound_iff.1 hends.bound⟩, hheads⟩
    obtain ⟨typedef', step⟩ := step
    obtain ⟨typedef, next, hstep, -⟩ := h.heads_aliases_back hheads step
    exact hends.noAlias next ⟨typedef, hstep⟩
  | head step hrest ih =>
    obtain ⟨typedef, step⟩ := step
    obtain ⟨part', next', hchain, hstep, hnext⟩ := h.aliases htypes step
    obtain ⟨last', hlast, hheads⟩ := ih hnext ⟨hrest, hends.noAlias, hends.bound⟩
    exact ⟨last', ⟨hchain.trans (hlast.chain.head ⟨_, hstep⟩), hlast.noAlias, hlast.bound⟩, hheads⟩

theorem ends_back (h : Agrees old new image) (htypes : TypesAgree old new image type type')
    {last' : LocatedType} (hends : new.Ends type' last') :
    ∃ last, old.Ends type last ∧ HeadsAgree old new image last last' := by
  induction hends.chain using ReflTransGen.head_induction_on generalizing type with
  | refl =>
    rcases htypes.heads_or_step with hheads | ⟨typedef, next, -, hstep, -⟩
    · refine ⟨type, ⟨.refl, fun next step => ?_, hheads.bound_iff.2 hends.bound⟩, hheads⟩
      obtain ⟨typedef, step⟩ := step
      obtain ⟨next', hstep, -⟩ := h.heads_aliases hheads step
      exact hends.noAlias next' ⟨_, hstep⟩
    · exact absurd ⟨typedef, hstep⟩ (hends.noAlias next)
  | head step hrest ih =>
    obtain ⟨typedef', step⟩ := step
    rcases h.aliases_back htypes step with ⟨hnext, -⟩ | ⟨typedef, next, hstep, -, hnext⟩
    · exact ih hnext ⟨hrest, hends.noAlias, hends.bound⟩
    · obtain ⟨last, hlast, hheads⟩ := ih hnext ⟨hrest, hends.noAlias, hends.bound⟩
      exact ⟨last, hlast.head ⟨typedef, hstep⟩, hheads⟩

end Agrees

/-- The target of an unwrapped type is what its name is bound to. -/
theorem EndsChain.target_eq {resolver : Resolver} {last : Option DeclRef} {unwrapped : Unwrapped}
    (h : resolver.EndsChain last type unwrapped) :
    unwrapped.target = match unwrapped.type.type with
      | .name name => (resolver.binding? unwrapped.type.tree name).map (·.target)
      | _ => none := by
  cases htarget : unwrapped.target with
  | some ref =>
    obtain ⟨name, tail, hname, hbinding⟩ := h.target ref htarget
    simp [hname, hbinding]
  | none =>
    split
    · next name hname => exact absurd hname (h.noTarget htarget name)
    · rfl

theorem HeadsAgree.targets {unwrapped unwrapped' : Unwrapped} {last last' : Option DeclRef}
    (hends : old.EndsChain last type unwrapped) (hends' : new.EndsChain last' type' unwrapped')
    (h : HeadsAgree old new image unwrapped.type unwrapped'.type) :
    unwrapped.target.map image = unwrapped'.target := by
  rw [hends.target_eq, hends'.target_eq]
  generalize unwrapped.type = last at h ⊢
  generalize unwrapped'.type = last' at h ⊢
  cases h with
  | @name here here' name name' related =>
    have hbindings := related.bindings
    simp only
    generalize old.binding? here name = binding at hbindings ⊢
    generalize new.binding? here' name' = binding' at hbindings ⊢
    cases hbindings with
    | none => rfl
    | some hbinding => simp [hbinding.1]
  | _ => rfl

/-- Types that agree come to types that agree, or both come to nothing. -/
theorem Agrees.unwrap (h : Agrees old new image) (htypes : TypesAgree old new image type type') :
    UnwrapsAgree old new image (old.unwrap type) (new.unwrap type') := by
  cases hunwrap : old.unwrap type with
  | ok unwrapped =>
    obtain ⟨last', hlast', hheads⟩ := h.ends htypes (unwrap_iff_ends.1 ⟨unwrapped, hunwrap, rfl⟩)
    obtain ⟨unwrapped', hunwrap', rfl⟩ := unwrap_iff_ends.2 hlast'
    rw [hunwrap']
    exact .ok hheads
      (hheads.targets (endsChain_of_unwrapFrom hunwrap) (endsChain_of_unwrapFrom hunwrap'))
  | error failure =>
    cases hunwrap' : new.unwrap type' with
    | error failure' => exact .error
    | ok unwrapped' =>
      obtain ⟨last, hlast, -⟩ :=
        h.ends_back htypes (unwrap_iff_ends.1 ⟨unwrapped', hunwrap', rfl⟩)
      obtain ⟨unwrapped, hunwrap', -⟩ := unwrap_iff_ends.2 hlast
      cases hunwrap.symm.trans hunwrap'

end

end Idl.Resolver
