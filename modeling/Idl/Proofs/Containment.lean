import Idl.Cycles
import Idl.Proofs.Unfolding

/-!
# Structs in structs

A type holds the structs whose names it unfolds to, and a struct contains those that the types of
its fields hold. If all types resolve and no typedef comes back to itself, the structs met in a type
are those that it holds.
-/
namespace Idl

open Relation

/-! ### Complete lists -/

/-- The list is complete, and its members are the structs with a property. -/
structure DirectStructs.Lists (direct : DirectStructs) (p : DeclRef → Prop) : Prop where
  complete : direct.complete = true
  mem_iff : ∀ struct, struct ∈ direct.structs ↔ p struct

theorem DirectStructs.Lists.congr {direct : DirectStructs} {p q : DeclRef → Prop}
    (h : direct.Lists p) (hiff : ∀ struct, p struct ↔ q struct) : direct.Lists q :=
  ⟨h.complete, fun struct => (h.mem_iff struct).trans (hiff struct)⟩

theorem DirectStructs.lists_foldr {α : Type} {items : List α} {f : α → DirectStructs}
    {p : α → DeclRef → Prop} (h : ∀ item ∈ items, (f item).Lists (p item)) :
    ((items.map f).foldr append none).Lists fun struct => ∃ item ∈ items, p item struct := by
  induction items with
  | nil => exact ⟨rfl, by simp [none]⟩
  | cons item items ih =>
    obtain ⟨hcomplete, hstructs⟩ := h item List.mem_cons_self
    obtain ⟨hrest, hothers⟩ := ih fun other hother => h other (List.mem_cons_of_mem _ hother)
    rw [List.map_cons, List.foldr_cons, append, if_pos hcomplete]
    exact ⟨hrest, by simp [hstructs, hothers]⟩

namespace Resolver

/-- A type is the name of a struct. -/
def NamesStruct (resolver : Resolver) (type : LocatedType) (struct : DeclRef) : Prop :=
  ∃ name, type.type = .name name ∧ resolver.binding? type.tree name = some ⟨struct, []⟩ ∧
    resolver.isStruct struct = true

/-- A type unfolds to the name of a struct. -/
def HoldsStruct (resolver : Resolver) (type : LocatedType) (struct : DeclRef) : Prop :=
  resolver.Holds (resolver.NamesStruct · struct) type

/-- The type of a field of a struct holds another struct. -/
def Contains (resolver : Resolver) (struct other : DeclRef) : Prop :=
  ∃ type ∈ resolver.fieldTypes struct, resolver.HoldsStruct type other

/-- All types resolve, and all can be unfolded to the end. -/
structure Unfoldable (resolver : Resolver) : Prop where
  resolve : resolver.TypesResolve
  typedefsEnd : resolver.TypedefsEnd
  unnested : ∀ typedef, ¬ resolver.NestsItself typedef

variable {resolver : Resolver}

theorem isStruct_iff (struct : DeclRef) :
    resolver.isStruct struct = true ↔
      ∃ decl, resolver.declaration? struct = some (.struct decl) := by
  unfold isStruct
  split
  · next decl hdecl => exact iff_of_true rfl ⟨decl, hdecl⟩
  · next hother =>
    refine iff_of_false Bool.false_ne_true ?_
    rintro ⟨decl, hdecl⟩
    exact hother decl hdecl

theorem mem_structs_iff (struct : DeclRef) :
    struct ∈ resolver.structs ↔ resolver.isStruct struct = true := by
  rw [structs, List.mem_filter, Program.mem_declRefs_iff, and_iff_right_iff_imp, isStruct_iff]
  rintro ⟨decl, hdecl⟩
  exact Option.isSome_iff_exists.2 ⟨_, hdecl⟩

/-- Only structs contain something. -/
theorem Contains.isStruct {struct other : DeclRef} (h : resolver.Contains struct other) :
    resolver.isStruct struct = true := by
  obtain ⟨type, htype, -⟩ := h
  unfold fieldTypes at htype
  split at htype
  · next decl hdecl => exact (isStruct_iff struct).2 ⟨decl, hdecl⟩
  · cases htype

theorem isProper_of_mem_fieldTypes (h : resolver.TypesResolve) {struct : DeclRef}
    {type : LocatedType} (htype : type ∈ resolver.fieldTypes struct) : resolver.IsProper type := by
  unfold fieldTypes at htype
  split at htype
  · next decl hdecl =>
    obtain ⟨field, hfield, rfl⟩ := List.mem_map.1 htype
    exact isProper_of_declaration? h hdecl (List.mem_map_of_mem hfield)
  · cases htype

theorem not_namesStruct_of_aliases {struct : DeclRef} (type : LocatedType) (typedef : DeclRef)
    (next : LocatedType) (halias : resolver.Aliases type typedef next) :
    ¬ resolver.NamesStruct type struct := by
  rintro ⟨name, hname, hbinding, hstruct⟩
  obtain ⟨decl, hdecl⟩ := (isStruct_iff struct).1 hstruct
  exact not_aliases_of_struct hname hbinding hdecl typedef next halias

/-- A name at the end of a typedef chain holds the struct that it stands for, if it does. -/
theorem holdsStruct_target_iff {type : LocatedType} {name : Name} {target struct : DeclRef}
    (hname : type.type = .name name)
    (hbinding : resolver.binding? type.tree name = some ⟨target, []⟩)
    (hend : ∀ typedef next, ¬ resolver.Aliases type typedef next) :
    resolver.HoldsStruct type struct ↔ resolver.isStruct target = true ∧ struct = target := by
  obtain ⟨tree, type⟩ := type
  obtain rfl : type = .name name := hname
  have hnext : ¬ ∃ next, resolver.Unfolds ⟨tree, .name name⟩ next ∧
      resolver.Holds (resolver.NamesStruct · struct) next := by
    rintro ⟨next, hstep, -⟩
    obtain ⟨typedef, halias⟩ := unfolds_name_iff.1 hstep
    exact hend typedef next halias
  rw [HoldsStruct, holds_iff, or_iff_left hnext]
  constructor
  · rintro ⟨other, hother, hbinding', hstruct⟩
    obtain rfl := TypeRef.name.inj hother
    obtain rfl := (Binding.mk.inj (Option.some.inj (hbinding.symm.trans hbinding'))).1
    exact ⟨hstruct, rfl⟩
  · rintro ⟨hstruct, rfl⟩
    exact ⟨name, rfl, hbinding, hstruct⟩

/-! ### The structs met in a type -/

/-- Where a typedef stands for a list or map, the name of the typedef mentions it, and what it
stands for mentions other typedefs only. -/
theorem mentions_of_endsChain (h : resolver.Unfoldable) {tree : Nat} {name : Name}
    {unwrapped : Unwrapped} (hends : resolver.EndsChain none ⟨tree, .name name⟩ unwrapped)
    (htarget : unwrapped.target = none) :
    ∃ typedef, unwrapped.typedef = some typedef ∧
      resolver.Mentions ⟨tree, .name name⟩ typedef ∧
        ¬ resolver.Mentions unwrapped.type typedef := by
  rcases hends.typedef with ⟨htype, -⟩ | ⟨typedef, part, htypedef, hpart, halias⟩
  · exact absurd (congrArg LocatedType.type htype) (hends.noTarget htarget name)
  · refine ⟨typedef, htypedef, ⟨part, unfolds_chain hpart, _, halias⟩, fun hmentions => ?_⟩
    exact h.unnested typedef (nestsItself_of_mentions h.typedefsEnd halias.typedef?_eq hmentions)

theorem holdsStruct_iff_exists_name (tree : Nat) (type : TypeRef) (struct : DeclRef) :
    resolver.HoldsStruct ⟨tree, type⟩ struct ↔
      ∃ name ∈ type.references, resolver.HoldsStruct ⟨tree, .name name⟩ struct :=
  holds_iff_exists_name (fun _ ⟨name, hname, _⟩ => ⟨name, hname⟩) tree type

theorem lists_named (resolver : Resolver) (target : DeclRef) :
    DirectStructs.Lists
      (match resolver.declaration? target with
        | some (.struct _) => ⟨[target], true⟩
        | _ => .none)
      fun struct => resolver.isStruct target = true ∧ struct = target := by
  split
  · next decl hdecl =>
    have hstruct := (isStruct_iff target).2 ⟨decl, hdecl⟩
    exact ⟨rfl, by simp [hstruct]⟩
  · next hother =>
    have hstruct : ¬ resolver.isStruct target = true := fun h =>
      ((isStruct_iff target).1 h).elim hother
    exact ⟨rfl, by simp [DirectStructs.none, hstruct]⟩

theorem lists_directStructsFrom (h : resolver.Unfoldable) {unexpanded : List DeclRef}
    {type : LocatedType} (hproper : resolver.IsProper type)
    (hunexpanded : ∀ typedef, resolver.Mentions type typedef → typedef ∈ unexpanded) :
    (resolver.directStructsFrom unexpanded type).Lists (resolver.HoldsStruct type) := by
  -- an expanded typedef is not mentioned again, so leaving it out of the list loses nothing
  induction hlength : unexpanded.length using Nat.strong_induction_on
    generalizing unexpanded type with
  | _ length ih =>
    obtain ⟨tree, type⟩ := type
    rw [directStructsFrom]
    refine (DirectStructs.lists_foldr fun name hname => ?_).congr fun struct =>
      (holdsStruct_iff_exists_name tree type struct).symm
    have hproperName : resolver.IsProper ⟨tree, .name name⟩ := fun other hother =>
      hproper other (List.mem_singleton.1 hother ▸ hname)
    obtain ⟨unwrapped, hunwrap, hchain, hunwrapped⟩ := unwrap_ok h.resolve h.typedefsEnd hproperName
    have hends := endsChain_of_unwrapFrom hunwrap
    suffices hlast : DirectStructs.Lists _ (resolver.HoldsStruct unwrapped.type) from
      hlast.congr fun struct => (holds_chain_iff not_namesStruct_of_aliases hchain).symm
    have hmentioned : ∀ typedef, resolver.Mentions ⟨tree, .name name⟩ typedef →
        typedef ∈ unexpanded := fun typedef hmentions =>
      hunexpanded typedef ((mentions_iff_exists_name tree type typedef).2 ⟨name, hname, hmentions⟩)
    simp only [hunwrap]
    obtain ⟨next, target, typedef⟩ := unwrapped
    cases target with
    | some target =>
      obtain ⟨other, tail, hother, hbinding⟩ := hends.target target rfl
      obtain ⟨target', hbinding', htarget'⟩ := hunwrapped.target other hother
      obtain rfl := Option.some.inj htarget'
      exact (resolver.lists_named target).congr fun struct =>
        (holdsStruct_target_iff hother hbinding' hunwrapped.noAlias).symm
    | none =>
      obtain ⟨typedef', htypedef, hmentions, hfinite⟩ := mentions_of_endsChain h hends rfl
      obtain rfl : typedef = some typedef' := htypedef
      have hmem := hmentioned typedef' hmentions
      simp only [if_pos hmem]
      exact ih _ (hlength ▸ length_erase_lt hmem) hunwrapped.proper
        (fun _ => mem_erase_of_mentions (unfolds_chain hchain) hmentioned hfinite) rfl

theorem lists_directStructs (h : resolver.Unfoldable) {type : LocatedType}
    (hproper : resolver.IsProper type) :
    (resolver.directStructs type).Lists (resolver.HoldsStruct type) :=
  lists_directStructsFrom h hproper fun _ => mem_typedefs_of_mentions

end Resolver
end Idl
