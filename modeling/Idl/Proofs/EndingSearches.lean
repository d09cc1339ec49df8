import Idl.Proofs.StructCycles

/-!
# Searches that end

A search for a struct ends if no typedef that a field of a struct reaches comes back to itself
inside a list or map. It does not matter whether the names in types stand for types, or whether
typedefs stand for themselves otherwise.
-/
namespace Idl

theorem DirectStructs.complete_foldr {list : List DirectStructs}
    (h : ∀ direct ∈ list, direct.complete = true) : (list.foldr append .none).complete = true := by
  induction list with
  | nil => rfl
  | cons first list ih =>
    obtain ⟨hfirst, hlist⟩ := List.forall_mem_cons.1 h
    rw [List.foldr_cons, append, if_pos hfirst]
    exact ih hlist

namespace Resolver

/-- No typedef that the type reaches comes back to itself inside a list or map. -/
def IsUnnested (resolver : Resolver) (type : LocatedType) : Prop :=
  ∀ typedef, resolver.Mentions type typedef → ¬ resolver.NestsItself typedef

/-- No field of a struct reaches a typedef that comes back to itself inside a list or map. -/
def FieldsUnnested (resolver : Resolver) : Prop :=
  ∀ struct, ∀ type ∈ resolver.fieldTypes struct, resolver.IsUnnested type

variable {resolver : Resolver}

/-- A typedef of a list or map that mentions the typedef. -/
theorem nestsItself_of_not_name {typedef : DeclRef} {target : LocatedType}
    (htypedef : resolver.typedef? typedef = some target)
    (hname : ∀ name, target.type ≠ .name name) (h : resolver.Mentions target typedef) :
    resolver.NestsItself typedef := by
  obtain ⟨last, hlast, next, halias⟩ := h
  rcases chain_or_part hlast with hchain | ⟨whole, part, hwhole, hpart, hrest⟩
  · rcases hchain.cases_head with rfl | ⟨_, ⟨_, name, htype, -⟩, -⟩
    · obtain ⟨name, htype, -⟩ := halias
      exact absurd htype (hname name)
    · exact absurd htype (hname name)
  · exact ⟨target, htypedef, whole, hwhole, part, hpart, last, hrest, next, halias⟩

theorem complete_directStructsFrom {unexpanded : List DeclRef} {type : LocatedType}
    (htype : resolver.IsUnnested type)
    (hunexpanded : ∀ typedef, resolver.Mentions type typedef → typedef ∈ unexpanded) :
    (resolver.directStructsFrom unexpanded type).complete = true := by
  -- an expanded typedef is not mentioned again, so there is always one left to expand
  induction hlength : unexpanded.length using Nat.strong_induction_on
    generalizing unexpanded type with
  | _ length ih =>
    obtain ⟨tree, type⟩ := type
    rw [directStructsFrom]
    refine DirectStructs.complete_foldr fun direct hdirect => ?_
    obtain ⟨name, hname, rfl⟩ := List.mem_map.1 hdirect
    have hmentions : ∀ typedef, resolver.Mentions ⟨tree, .name name⟩ typedef →
        resolver.Mentions ⟨tree, type⟩ typedef := fun typedef h =>
      (mentions_iff_exists_name tree type typedef).2 ⟨name, hname, h⟩
    cases hunwrap : resolver.unwrap ⟨tree, .name name⟩ with
    | error failure => rfl
    | ok unwrapped =>
      have hends := endsChain_of_unwrapFrom hunwrap
      obtain ⟨next, target, typedef⟩ := unwrapped
      cases target with
      | some target =>
        simp only
        split <;> rfl
      | none =>
        cases typedef with
        | none => rfl
        | some typedef =>
          have hchain := unfolds_chain hends.chain
          rcases hends.typedef with ⟨-, htypedef⟩ | ⟨other, part, hother, hpart, halias⟩
          · cases htypedef
          obtain rfl := Option.some.inj hother
          have hmentioned : resolver.Mentions ⟨tree, .name name⟩ typedef :=
            ⟨part, unfolds_chain hpart, next, halias⟩
          have hfinite : ¬ resolver.Mentions next typedef := fun h =>
            htype typedef (hmentions typedef hmentioned)
              (nestsItself_of_not_name halias.typedef?_eq (hends.noTarget rfl) h)
          have hmem := hunexpanded typedef (hmentions typedef hmentioned)
          simp only [if_pos hmem]
          refine ih _ (hlength ▸ length_erase_lt hmem) (fun other hother => ?_) (fun other hother =>
            mem_erase_of_mentions hchain (fun other h => hunexpanded other (hmentions other h))
              hfinite hother) rfl
          exact htype other (hmentions other (hother.of_unfolds hchain))

theorem complete_directStructs {type : LocatedType} (h : resolver.IsUnnested type) :
    (resolver.directStructs type).complete = true :=
  complete_directStructsFrom h fun _ => mem_typedefs_of_mentions

/-- The search of a type ends. -/
theorem searchFrom_ne_endless (hfields : resolver.FieldsUnnested) (origin : DeclRef)
    (idle : List DeclRef) {type : LocatedType} (htype : resolver.IsUnnested type) :
    resolver.searchFrom origin idle type ≠ .endless := by
  induction hlength : idle.length using Nat.strong_induction_on generalizing idle type with
  | _ length ih =>
    rw [searchFrom_of_complete (complete_directStructs htype)]
    refine (Search.first_spec fun struct _ => ?_).1
    unfold searchStruct
    split
    · exact Search.noConfusion
    · split
      · next hidle =>
        exact (Search.first_spec fun type htype => ih _ (hlength ▸ length_erase_lt hidle) _
          (hfields struct type htype) rfl).1
      · exact Search.noConfusion

theorem search_ne_endless (hfields : resolver.FieldsUnnested) (origin : DeclRef)
    {type : LocatedType} (htype : resolver.IsUnnested type) :
    resolver.search origin type ≠ .endless :=
  searchFrom_ne_endless hfields origin resolver.structs htype

end Resolver
end Idl
