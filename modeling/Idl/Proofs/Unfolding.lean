import Idl.Proofs.Conformance

/-!
# Unfolding types

A type is unfolded by replacing typedef names by what they stand for and going into the elements of
lists and the keys and values of maps. What a type holds is what it unfolds to, and unfolding ends
unless it comes to a typedef that is part of what it stands for.
-/
namespace Idl

open Relation

/-- An element of a list type, or a key or value of a map type. -/
inductive LocatedType.HasPart : LocatedType → LocatedType → Prop
  | element {tree element span} : HasPart ⟨tree, .list element span⟩ ⟨tree, element⟩
  | key {tree key value span} : HasPart ⟨tree, .map key value span⟩ ⟨tree, key⟩
  | value {tree key value span} : HasPart ⟨tree, .map key value span⟩ ⟨tree, value⟩

namespace Resolver

/-- One step of unfolding. -/
inductive Unfolds (resolver : Resolver) : LocatedType → LocatedType → Prop
  | typedef {type next} (step : resolver.AliasStep type next) : Unfolds resolver type next
  | part {type next} (step : type.HasPart next) : Unfolds resolver type next

/-- A type unfolds to one with a property. -/
def Holds (resolver : Resolver) (p : LocatedType → Prop) (type : LocatedType) : Prop :=
  ∃ part, ReflTransGen resolver.Unfolds type part ∧ p part

/-- A type unfolds to the name of a typedef. -/
def Mentions (resolver : Resolver) (type : LocatedType) (typedef : DeclRef) : Prop :=
  resolver.Holds (fun part => ∃ next, resolver.Aliases part typedef next) type

/-- A typedef stands for a type that comes back to the typedef inside a list or map. -/
def NestsItself (resolver : Resolver) (typedef : DeclRef) : Prop :=
  ∃ target, resolver.typedef? typedef = some target ∧
    resolver.Holds (fun whole => ∃ part, whole.HasPart part ∧ resolver.Mentions part typedef) target

/-- Every way of unfolding a type ends. -/
def IsFinite (resolver : Resolver) (type : LocatedType) : Prop :=
  Acc (fun part whole => resolver.Unfolds whole part) type

variable {resolver : Resolver} {p : LocatedType → Prop}

theorem holds_of_refl {type : LocatedType} (h : p type) : resolver.Holds p type :=
  ⟨type, .refl, h⟩

theorem Holds.head {type next : LocatedType} (step : resolver.Unfolds type next)
    (h : resolver.Holds p next) : resolver.Holds p type := by
  obtain ⟨part, hpart, hp⟩ := h
  exact ⟨part, .head step hpart, hp⟩

theorem holds_iff (type : LocatedType) :
    resolver.Holds p type ↔
      p type ∨ ∃ next, resolver.Unfolds type next ∧ resolver.Holds p next := by
  constructor
  · rintro ⟨part, hpart, hp⟩
    rcases hpart.cases_head with rfl | ⟨next, hstep, hrest⟩
    · exact .inl hp
    · exact .inr ⟨next, hstep, part, hrest, hp⟩
  · rintro (hp | ⟨next, hstep, hnext⟩)
    · exact holds_of_refl hp
    · exact hnext.head hstep

theorem not_unfolds_builtin {tree : Nat} {builtin : Builtin} {span : Span} {next : LocatedType} :
    ¬ resolver.Unfolds ⟨tree, .builtin builtin span⟩ next := by
  rintro (⟨typedef, name, hname, -⟩ | hpart)
  · cases hname
  · cases hpart

theorem unfolds_list_iff {tree : Nat} {element : TypeRef} {span : Span} {next : LocatedType} :
    resolver.Unfolds ⟨tree, .list element span⟩ next ↔ next = ⟨tree, element⟩ := by
  constructor
  · rintro (⟨typedef, name, hname, -⟩ | hpart)
    · cases hname
    · cases hpart
      rfl
  · rintro rfl
    exact .part .element

theorem unfolds_map_iff {tree : Nat} {key value : TypeRef} {span : Span} {next : LocatedType} :
    resolver.Unfolds ⟨tree, .map key value span⟩ next ↔
      next = ⟨tree, key⟩ ∨ next = ⟨tree, value⟩ := by
  constructor
  · rintro (⟨typedef, name, hname, -⟩ | hpart)
    · cases hname
    · cases hpart with
      | key => exact .inl rfl
      | value => exact .inr rfl
  · rintro (rfl | rfl)
    · exact .part .key
    · exact .part .value

theorem unfolds_name_iff {tree : Nat} {name : Name} {next : LocatedType} :
    resolver.Unfolds ⟨tree, .name name⟩ next ↔ resolver.AliasStep ⟨tree, .name name⟩ next := by
  constructor
  · rintro (hstep | hpart)
    · exact hstep
    · cases hpart
  · exact fun hstep => .typedef hstep

/-- The name of a struct is no typedef name. -/
theorem not_aliases_of_struct {type : LocatedType} {name : Name} {ref : DeclRef}
    {decl : StructDecl} (hname : type.type = .name name)
    (hbinding : resolver.binding? type.tree name = some ⟨ref, []⟩)
    (hdeclaration : resolver.declaration? ref = some (.struct decl)) (typedef : DeclRef)
    (next : LocatedType) : ¬ resolver.Aliases type typedef next := by
  obtain ⟨tree, type⟩ := type
  obtain rfl : type = .name name := hname
  exact Conforms.not_aliases_of_typedef? hbinding (by rw [typedef?, hdeclaration])

theorem unfolds_of_aliases {type next other : LocatedType} {typedef : DeclRef}
    (halias : resolver.Aliases type typedef next) (h : resolver.Unfolds type other) :
    other = next := by
  obtain ⟨tree, type⟩ := type
  obtain ⟨name, rfl, hrest⟩ := halias
  obtain ⟨typedef', halias'⟩ := unfolds_name_iff.1 h
  exact (Conforms.aliases_unique ⟨name, rfl, hrest⟩ halias').symm

theorem holds_builtin_iff {tree : Nat} {builtin : Builtin} {span : Span} :
    resolver.Holds p ⟨tree, .builtin builtin span⟩ ↔ p ⟨tree, .builtin builtin span⟩ := by
  rw [holds_iff, or_iff_left]
  rintro ⟨next, hstep, -⟩
  exact not_unfolds_builtin hstep

theorem holds_list_iff {tree : Nat} {element : TypeRef} {span : Span} :
    resolver.Holds p ⟨tree, .list element span⟩ ↔
      p ⟨tree, .list element span⟩ ∨ resolver.Holds p ⟨tree, element⟩ := by
  rw [holds_iff]
  simp only [unfolds_list_iff, exists_eq_left]

theorem holds_map_iff {tree : Nat} {key value : TypeRef} {span : Span} :
    resolver.Holds p ⟨tree, .map key value span⟩ ↔ p ⟨tree, .map key value span⟩ ∨
      resolver.Holds p ⟨tree, key⟩ ∨ resolver.Holds p ⟨tree, value⟩ := by
  rw [holds_iff]
  simp only [unfolds_map_iff, or_and_right, exists_or, exists_eq_left]

theorem holds_aliases_iff {type next : LocatedType} {typedef : DeclRef}
    (halias : resolver.Aliases type typedef next) :
    resolver.Holds p type ↔ p type ∨ resolver.Holds p next := by
  rw [holds_iff]
  refine or_congr_right ⟨?_, fun h => ⟨next, .typedef ⟨typedef, halias⟩, h⟩⟩
  rintro ⟨other, hstep, hother⟩
  exact unfolds_of_aliases halias hstep ▸ hother

/-- Nothing is lost by going along a typedef chain, except typedef names. -/
theorem holds_chain_iff (hp : ∀ part typedef next, resolver.Aliases part typedef next → ¬ p part)
    {type last : LocatedType} (hchain : ReflTransGen resolver.AliasStep type last) :
    resolver.Holds p type ↔ resolver.Holds p last := by
  induction hchain with
  | refl => rfl
  | tail _ step ih =>
    obtain ⟨typedef, halias⟩ := step
    rw [ih, holds_aliases_iff halias, or_iff_right (hp _ _ _ halias)]

theorem unfolds_chain {type last : LocatedType} (h : ReflTransGen resolver.AliasStep type last) :
    ReflTransGen resolver.Unfolds type last :=
  ReflTransGen.mono (fun _ _ => Unfolds.typedef) _ _ h

/-- What a type holds, one of its names holds, unless it is a list, a map or a builtin type. -/
theorem holds_iff_exists_name (hp : ∀ part, p part → ∃ name, part.type = .name name)
    (tree : Nat) (type : TypeRef) :
    resolver.Holds p ⟨tree, type⟩ ↔
      ∃ name ∈ type.references, resolver.Holds p ⟨tree, .name name⟩ := by
  have hother : ∀ {type : TypeRef}, (∀ name, type ≠ .name name) → ¬ p ⟨tree, type⟩ := by
    intro type hne h
    obtain ⟨name, hname⟩ := hp _ h
    exact hne name hname
  induction type with
  | builtin builtin span =>
    rw [holds_builtin_iff]
    simp [TypeRef.references, hother]
  | list element span ih =>
    rw [holds_list_iff, or_iff_right (hother fun _ => TypeRef.noConfusion)]
    exact ih
  | map key value span ihKey ihValue =>
    rw [holds_map_iff, or_iff_right (hother fun _ => TypeRef.noConfusion)]
    simp only [TypeRef.references, List.mem_append, or_and_right, exists_or]
    exact or_congr ihKey ihValue
  | name name => simp [TypeRef.references]

/-! ### Typedefs that come back to themselves -/

theorem mentions_iff_exists_name (tree : Nat) (type : TypeRef) (typedef : DeclRef) :
    resolver.Mentions ⟨tree, type⟩ typedef ↔
      ∃ name ∈ type.references, resolver.Mentions ⟨tree, .name name⟩ typedef :=
  holds_iff_exists_name (fun _ ⟨_, name, hname, _⟩ => ⟨name, hname⟩) tree type

theorem not_mentions_builtin {tree : Nat} {builtin : Builtin} {span : Span} {typedef : DeclRef} :
    ¬ resolver.Mentions ⟨tree, .builtin builtin span⟩ typedef := by
  intro h
  obtain ⟨next, name, hname, -⟩ := holds_builtin_iff.1 h
  cases hname

theorem mentions_aliases_iff {type next : LocatedType} {typedef other : DeclRef}
    (halias : resolver.Aliases type typedef next) :
    resolver.Mentions type other ↔ other = typedef ∨ resolver.Mentions next other := by
  refine (holds_aliases_iff halias).trans (or_congr_left ⟨?_, ?_⟩)
  · rintro ⟨last, hlast⟩
    exact hlast.typedef_unique halias
  · rintro rfl
    exact ⟨next, halias⟩

theorem mem_typedefs_of_mentions {type : LocatedType} {typedef : DeclRef}
    (h : resolver.Mentions type typedef) : typedef ∈ resolver.typedefs := by
  obtain ⟨part, -, next, halias⟩ := h
  exact (mem_typedefs_iff typedef).2 (Option.isSome_iff_exists.2 ⟨next, halias.typedef?_eq⟩)

theorem Mentions.of_unfolds {type next : LocatedType} {typedef : DeclRef}
    (step : ReflTransGen resolver.Unfolds type next) (h : resolver.Mentions next typedef) :
    resolver.Mentions type typedef := by
  obtain ⟨part, hpart, hp⟩ := h
  exact ⟨part, step.trans hpart, hp⟩

/-- An unfolding stays on a typedef chain or goes into a list or map. -/
theorem chain_or_part {type last : LocatedType} (h : ReflTransGen resolver.Unfolds type last) :
    ReflTransGen resolver.AliasStep type last ∨
      ∃ whole part, ReflTransGen resolver.Unfolds type whole ∧ whole.HasPart part ∧
        ReflTransGen resolver.Unfolds part last := by
  induction h with
  | refl => exact .inl .refl
  | tail hfirst hstep ih =>
    rcases ih with hchain | ⟨whole, part, hwhole, hpart, hrest⟩
    · cases hstep with
      | typedef step => exact .inl (hchain.tail step)
      | part step => exact .inr ⟨_, _, hfirst, step, .refl⟩
    · exact .inr ⟨whole, part, hwhole, hpart, hrest.tail hstep⟩

/-- A typedef chain leads from typedef to typedef. -/
theorem leadsTo_of_chain {typedef other : DeclRef} {type last next : LocatedType}
    (htypedef : resolver.typedef? typedef = some type)
    (hchain : ReflTransGen resolver.AliasStep type last)
    (hlast : resolver.Aliases last other next) : TransGen resolver.LeadsTo typedef other := by
  induction hchain generalizing other next with
  | refl => exact .single ⟨type, next, htypedef, hlast⟩
  | tail _ step ih =>
    obtain ⟨middle, hmiddle⟩ := step
    exact (ih hmiddle).tail ⟨_, next, hmiddle.typedef?_eq, hlast⟩

/-- If typedef chains end, a typedef comes back to itself only inside a list or map. -/
theorem nestsItself_of_mentions (hend : resolver.TypedefsEnd) {typedef : DeclRef}
    {target : LocatedType} (htypedef : resolver.typedef? typedef = some target)
    (h : resolver.Mentions target typedef) : resolver.NestsItself typedef := by
  obtain ⟨last, hlast, next, halias⟩ := h
  rcases chain_or_part hlast with hchain | ⟨whole, part, hwhole, hpart, hrest⟩
  · exact absurd (leadsTo_of_chain htypedef hchain halias) (hend typedef)
  · exact ⟨target, htypedef, whole, hwhole, part, hpart, last, hrest, next, halias⟩

theorem mentions_of_nestsItself {typedef : DeclRef} (h : resolver.NestsItself typedef) :
    ∃ target, resolver.typedef? typedef = some target ∧ resolver.Mentions target typedef := by
  obtain ⟨target, htypedef, whole, hwhole, part, hpart, hmentions⟩ := h
  exact ⟨target, htypedef, hmentions.of_unfolds (hwhole.tail (.part hpart))⟩

/-- What a typedef stands for mentions other typedefs, all of which were mentioned before. -/
theorem mem_erase_of_mentions {unexpanded : List DeclRef} {type next : LocatedType}
    {typedef : DeclRef} (hstep : ReflTransGen resolver.Unfolds type next)
    (hunexpanded : ∀ other, resolver.Mentions type other → other ∈ unexpanded)
    (hfinite : ¬ resolver.Mentions next typedef) {other : DeclRef}
    (hother : resolver.Mentions next other) : other ∈ unexpanded.erase typedef := by
  have hne : other ≠ typedef := fun h => hfinite (h ▸ hother)
  exact (List.mem_erase_of_ne hne).2 (hunexpanded other (hother.of_unfolds hstep))

end Resolver
end Idl
