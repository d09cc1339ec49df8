import Idl.Proofs.Agreement
import Idl.Proofs.Trails

/-!
# Walks along typedefs

Unwrapping a type follows its chain of typedefs. It stops where the chain ends, or where the chain
comes back to a typedef that it has passed, which it does exactly if it goes on for ever. A typedef
is found to be cyclic exactly if its chain comes back to it, and then unwrapping its name stops at
this typedef. A chain that only leads into a cycle stops at another.
-/
namespace Idl.Resolver

open Relation

section

variable (resolver : Resolver)

/-- A type is a name without a binding. -/
def IsUnbound (type : LocatedType) : Prop :=
  ∃ name, type.type = .name name ∧ resolver.binding? type.tree name = none

/-- What a type names, if it is a name. -/
inductive Names : LocatedType → Option DeclRef → Prop
  | nothing {type} (type_ne : ∀ name, type.type ≠ .name name) : Names type none
  | target {type name binding} (type_eq : type.type = .name name)
      (bound : resolver.binding? type.tree name = some binding) : Names type (some binding.target)

/-- What unwrapping a type tells about its chain of typedefs. -/
structure TellsChain (type : LocatedType) : Prop where
  /-- Within as many steps as there are typedefs the chain ends or comes back. -/
  stops : ∃ typedefs part, Trail resolver.Aliases type typedefs part ∧
    typedefs.length ≤ resolver.typedefs.length ∧
      (IsDeadEnd resolver.Aliases part ∨
        ∃ typedef ∈ typedefs, ∃ next, resolver.Aliases part typedef next)
  ok : ∀ unwrapped, resolver.unwrap type = .ok unwrapped ↔
    ∃ typedefs, Trail resolver.Aliases type typedefs unwrapped.type ∧
      IsDeadEnd resolver.Aliases unwrapped.type ∧
        resolver.Names unwrapped.type unwrapped.target ∧
          unwrapped.typedef = typedefs.getLast?
  /-- All types on the chain come to the same, its end included. -/
  again : ∀ unwrapped, resolver.unwrap type = .ok unwrapped →
    ∀ typedefs part, Trail resolver.Aliases type typedefs part →
      ∃ typedef, resolver.unwrap part = .ok { unwrapped with typedef }
  unbound : resolver.unwrap type = .error .unbound ↔
    ∃ typedefs part, Trail resolver.Aliases type typedefs part ∧ resolver.IsUnbound part
  endless : (∃ typedef, resolver.unwrap type = .error (.cyclic typedef)) ↔
    Endless resolver.Aliases type
  /-- The first typedef that the chain passes twice. -/
  cyclic : ∀ typedef, resolver.unwrap type = .error (.cyclic typedef) ↔
    ∃ before part, Trail resolver.Aliases type (before ++ [typedef]) part ∧
      before.Nodup ∧ typedef ∈ before

/-- The chain of a typedef comes back to it. -/
def ComesBack (typedef : DeclRef) : Prop :=
  ∃ type typedefs part, resolver.typedef? typedef = some type ∧
    Trail resolver.Aliases type (typedefs ++ [typedef]) part

end

variable {resolver : Resolver} {type part : LocatedType} {typedefs unvisited : List DeclRef}

/-! ### The chain of a type -/

theorem unforked_aliases : Unforked resolver.Aliases :=
  fun _ _ _ _ _ h h' => ⟨h.typedef_unique h', Conforms.aliases_unique h h'⟩

theorem guiding_aliases : Guiding resolver.Aliases :=
  fun _ _ _ _ _ h h' => Option.some.inj (h.typedef?_eq.symm.trans h'.typedef?_eq)

theorem mem_typedefs_of_aliases ⦃type : LocatedType⦄ ⦃typedef : DeclRef⦄ ⦃next : LocatedType⦄
    (h : resolver.Aliases type typedef next) : typedef ∈ resolver.typedefs :=
  (mem_typedefs_iff typedef).2 (Option.isSome_iff_exists.2 ⟨next, h.typedef?_eq⟩)

theorem IsUnbound.isDeadEnd (h : resolver.IsUnbound type) : IsDeadEnd resolver.Aliases type := by
  rintro typedef next ⟨name, hname, hbinding, -⟩
  obtain ⟨name', hname', hnone⟩ := h
  obtain rfl := TypeRef.name.inj (hname.symm.trans hname')
  cases hbinding.symm.trans hnone

theorem Names.not_isUnbound {target : Option DeclRef} (h : resolver.Names type target) :
    ¬ resolver.IsUnbound type := by
  rintro ⟨name, hname, hnone⟩
  cases h with
  | nothing type_ne => exact type_ne name hname
  | target type_eq bound =>
    obtain rfl := TypeRef.name.inj (hname.symm.trans type_eq)
    cases bound.symm.trans hnone

theorem Names.unique {target target' : Option DeclRef} (h : resolver.Names type target)
    (h' : resolver.Names type target') : target = target' := by
  cases h with
  | nothing type_ne =>
    cases h' with
    | nothing => rfl
    | target type_eq => exact absurd type_eq (type_ne _)
  | target type_eq bound =>
    cases h' with
    | nothing type_ne => exact absurd type_eq (type_ne _)
    | target type_eq' bound' =>
      obtain rfl := TypeRef.name.inj (type_eq.symm.trans type_eq')
      obtain rfl := Option.some.inj (bound.symm.trans bound')
      rfl

/-! ### Following the chain -/

/-- Unwrapping follows the chain as long as it passes typedefs that are unvisited. -/
theorem unwrapFrom_of_trail (h : Trail resolver.Aliases type typedefs part)
    (hnodup : typedefs.Nodup) (hunvisited : typedefs ⊆ unvisited) (last : Option DeclRef) :
    resolver.unwrapFrom unvisited last type =
      resolver.unwrapFrom (unvisited.diff typedefs) (typedefs.getLast?.or last) part := by
  induction h generalizing unvisited last with
  | nil => rfl
  | @cons type typedef next typedefs part first rest ih =>
    obtain ⟨hnew, hnodup⟩ := List.nodup_cons.1 hnodup
    obtain ⟨hmem, hrest⟩ := List.cons_subset.1 hunvisited
    rw [unwrapFrom_of_aliases first, if_pos hmem, ih hnodup (subset_erase hnew hrest),
      List.diff_cons, List.getLast?_cons, Option.some_or, Option.or_some]

theorem unwrap_of_trail (h : Trail resolver.Aliases type typedefs part) (hnodup : typedefs.Nodup) :
    resolver.unwrap type =
      resolver.unwrapFrom (resolver.typedefs.diff typedefs) typedefs.getLast? part := by
  rw [unwrap, unwrapFrom_of_trail h hnodup (h.forall_mem mem_typedefs_of_aliases), Option.or_none]

/-- What unwrapping comes to where the chain ends. -/
theorem unwrapFrom_of_isDeadEnd (h : IsDeadEnd resolver.Aliases type) (unvisited : List DeclRef)
    (last : Option DeclRef) :
    (resolver.IsUnbound type ∧ resolver.unwrapFrom unvisited last type = .error .unbound) ∨
      ∃ target, resolver.Names type target ∧
        resolver.unwrapFrom unvisited last type = .ok ⟨type, target, last⟩ := by
  rw [unwrapFrom]
  split
  · next name hname =>
    split
    · next hnone => exact .inl ⟨⟨name, hname, hnone⟩, rfl⟩
    · next binding hbinding =>
      refine .inr ⟨_, .target hname hbinding, ?_⟩
      split
      · rfl
      · next next hnext =>
        by_cases htail : binding.tail = []
        · obtain ⟨target, tail⟩ := binding
          obtain rfl : tail = [] := htail
          exact absurd ⟨name, hname, hbinding, hnext⟩ (h target next)
        · rw [if_pos htail]
  · next hname => exact .inr ⟨none, .nothing hname, rfl⟩

theorem unwrap_of_isDeadEnd (h : Trail resolver.Aliases type typedefs part)
    (hend : IsDeadEnd resolver.Aliases part) :
    (resolver.IsUnbound part ∧ resolver.unwrap type = .error .unbound) ∨
      ∃ target, resolver.Names part target ∧
        resolver.unwrap type = .ok ⟨part, target, typedefs.getLast?⟩ := by
  -- a chain that ends passes no typedef twice, or it could go round for ever
  have hnodup : typedefs.Nodup := by
    by_contra hrepeats
    exact h.not_endless unforked_aliases hend (endless_of_not_nodup guiding_aliases h hrepeats)
  rw [unwrap_of_trail h hnodup]
  exact unwrapFrom_of_isDeadEnd hend _ _

/-- Unwrapping stops at the first typedef that the chain passes twice. -/
theorem unwrap_of_mem {before : List DeclRef} {typedef : DeclRef}
    (h : Trail resolver.Aliases type (before ++ [typedef]) part) (hnodup : before.Nodup)
    (hmem : typedef ∈ before) : resolver.unwrap type = .error (.cyclic typedef) := by
  obtain ⟨last, htrail, halias⟩ := h.exists_of_concat
  have hall : resolver.typedefs.Nodup := resolver.program.nodup_declRefs.filter _
  rw [unwrap_of_trail htrail hnodup, unwrapFrom_of_aliases halias,
    if_neg fun h => (hall.mem_sdiff_iff.1 h).2 hmem]

/-- Every chain ends or comes back. -/
theorem exists_stop (resolver : Resolver) (type : LocatedType) :
    ∃ typedefs part, Trail resolver.Aliases type typedefs part ∧ typedefs.Nodup ∧
      (IsDeadEnd resolver.Aliases part ∨
        ∃ typedef ∈ typedefs, ∃ next, resolver.Aliases part typedef next) :=
  exists_trail mem_typedefs_of_aliases type

/-! ### What an outcome tells -/

theorem unwrap_eq_ok_iff (unwrapped : Unwrapped) :
    resolver.unwrap type = .ok unwrapped ↔
      ∃ typedefs, Trail resolver.Aliases type typedefs unwrapped.type ∧
        IsDeadEnd resolver.Aliases unwrapped.type ∧
          resolver.Names unwrapped.type unwrapped.target ∧
            unwrapped.typedef = typedefs.getLast? := by
  constructor
  · intro hok
    obtain ⟨typedefs, part, htrail, hnodup, hend | ⟨typedef, hmem, next, hnext⟩⟩ :=
      exists_stop resolver type
    · rcases unwrap_of_isDeadEnd htrail hend with ⟨-, hunbound⟩ | ⟨target, htarget, hok'⟩
      · cases hok.symm.trans hunbound
      · obtain rfl := Except.ok.inj (hok.symm.trans hok')
        exact ⟨typedefs, htrail, hend, htarget, rfl⟩
    · cases hok.symm.trans (unwrap_of_mem (htrail.concat hnext) hnodup hmem)
  · obtain ⟨part, target, typedef⟩ := unwrapped
    rintro ⟨typedefs, htrail, hend, htarget, rfl⟩
    rcases unwrap_of_isDeadEnd htrail hend with ⟨hunbound, -⟩ | ⟨target', htarget', hok⟩
    · exact absurd hunbound htarget.not_isUnbound
    · rw [hok, htarget'.unique htarget]

theorem unwrap_eq_unbound_iff :
    resolver.unwrap type = .error .unbound ↔
      ∃ typedefs part, Trail resolver.Aliases type typedefs part ∧ resolver.IsUnbound part := by
  constructor
  · intro hunbound
    obtain ⟨typedefs, part, htrail, hnodup, hend | ⟨typedef, hmem, next, hnext⟩⟩ :=
      exists_stop resolver type
    · rcases unwrap_of_isDeadEnd htrail hend with ⟨hpart, -⟩ | ⟨target, -, hok⟩
      · exact ⟨typedefs, part, htrail, hpart⟩
      · cases hok.symm.trans hunbound
    · cases hunbound.symm.trans (unwrap_of_mem (htrail.concat hnext) hnodup hmem)
  · rintro ⟨typedefs, part, htrail, hpart⟩
    rcases unwrap_of_isDeadEnd htrail hpart.isDeadEnd with ⟨-, hunbound⟩ | ⟨target, htarget, -⟩
    · exact hunbound
    · exact absurd hpart htarget.not_isUnbound

theorem unwrap_eq_cyclic_iff (typedef : DeclRef) :
    resolver.unwrap type = .error (.cyclic typedef) ↔
      ∃ before part, Trail resolver.Aliases type (before ++ [typedef]) part ∧
        before.Nodup ∧ typedef ∈ before := by
  constructor
  · intro hcyclic
    obtain ⟨typedefs, part, htrail, hnodup, hend | ⟨typedef', hmem, next, hnext⟩⟩ :=
      exists_stop resolver type
    · rcases unwrap_of_isDeadEnd htrail hend with ⟨-, hunbound⟩ | ⟨target, -, hok⟩
      · cases hcyclic.symm.trans hunbound
      · cases hcyclic.symm.trans hok
    · have hback := htrail.concat hnext
      cases hcyclic.symm.trans (unwrap_of_mem hback hnodup hmem)
      exact ⟨typedefs, next, hback, hnodup, hmem⟩
  · rintro ⟨before, part, htrail, hnodup, hmem⟩
    exact unwrap_of_mem htrail hnodup hmem

theorem exists_unwrap_eq_cyclic_iff :
    (∃ typedef, resolver.unwrap type = .error (.cyclic typedef)) ↔
      Endless resolver.Aliases type := by
  constructor
  · rintro ⟨typedef, hcyclic⟩
    obtain ⟨before, part, htrail, -, hmem⟩ := (unwrap_eq_cyclic_iff typedef).1 hcyclic
    exact endless_of_mem guiding_aliases htrail hmem
  · intro hendless
    obtain ⟨typedefs, part, htrail, hnodup, hend | ⟨typedef, hmem, next, hnext⟩⟩ :=
      exists_stop resolver type
    · exact absurd hendless (htrail.not_endless unforked_aliases hend)
    · exact ⟨typedef, unwrap_of_mem (htrail.concat hnext) hnodup hmem⟩

theorem tellsChain (resolver : Resolver) (type : LocatedType) : resolver.TellsChain type where
  stops := by
    obtain ⟨typedefs, part, htrail, hnodup, hstop⟩ := exists_stop resolver type
    exact ⟨typedefs, part, htrail, htrail.length_le mem_typedefs_of_aliases hnodup, hstop⟩
  ok := unwrap_eq_ok_iff
  again unwrapped hok typedefs part hpart := by
    obtain ⟨whole, htrail, hend, htarget, -⟩ := (unwrap_eq_ok_iff unwrapped).1 hok
    obtain ⟨rest, rfl⟩ := htrail.prefix_of_isDeadEnd unforked_aliases hend hpart
    obtain ⟨middle, hmiddle, hrest⟩ := htrail.exists_of_append
    obtain rfl := hpart.last_unique unforked_aliases hmiddle
    exact ⟨rest.getLast?, (unwrap_eq_ok_iff _).2 ⟨rest, hrest, hend, htarget, rfl⟩⟩
  unbound := unwrap_eq_unbound_iff
  endless := exists_unwrap_eq_cyclic_iff
  cyclic := unwrap_eq_cyclic_iff

/-! ### The chain of a typedef -/

theorem comesBack_iff (typedef : DeclRef) :
    resolver.ComesBack typedef ↔ TransGen resolver.LeadsTo typedef typedef := by
  rw [transGen_leadsTo_iff]
  constructor
  · rintro ⟨type, typedefs, next, htypedef, htrail⟩
    obtain ⟨part, hpart, halias⟩ := htrail.exists_of_concat
    exact ⟨type, part, next, htypedef, exists_trail_iff.1 ⟨typedefs, hpart⟩, halias⟩
  · rintro ⟨type, part, next, htypedef, hchain, halias⟩
    obtain ⟨typedefs, htrail⟩ := exists_trail_iff.2 hchain
    exact ⟨type, typedefs, next, htypedef, htrail.concat halias⟩

/-- The chain of a typedef comes back to it exactly if unwrapping its name stops at it. -/
theorem comesBack_iff_unwrap {typedef : DeclRef} {name : Name} (hname : type.type = .name name)
    (hbinding : resolver.binding? type.tree name = some ⟨typedef, []⟩) :
    resolver.ComesBack typedef ↔ resolver.unwrap type = .error (.cyclic typedef) := by
  rw [unwrap_eq_cyclic_iff]
  constructor
  · rintro ⟨target, typedefs, part, htypedef, htrail⟩
    obtain ⟨typedefs', hround, hnodup⟩ := htrail.exists_nodup_concat guiding_aliases
    rw [← List.concat_eq_append, List.nodup_concat] at hnodup
    exact ⟨typedef :: typedefs', part, .cons ⟨name, hname, hbinding, htypedef⟩ hround,
      List.nodup_cons.2 hnodup, List.mem_cons_self⟩
  · rintro ⟨before, part, htrail, -, hmem⟩
    cases before with
    | nil => cases hmem
    | cons first before =>
      obtain ⟨next, ⟨name', hname', hbinding', htypedef⟩, hrest⟩ := htrail.exists_of_cons
      obtain rfl := TypeRef.name.inj (hname.symm.trans hname')
      cases hbinding.symm.trans hbinding'
      exact ⟨next, before, part, htypedef, hrest⟩

/-- The two walks along typedefs agree. Unwrapping a type tells its chain of typedefs, and a typedef
is found to be cyclic exactly if its chain comes back to it, which is so exactly if unwrapping a
name that is bound to it stops at it. -/
theorem unwrap_tells_chain (resolver : Resolver) :
    (∀ type, resolver.TellsChain type) ∧
      ∀ typedef, (resolver.typedefIsCyclic typedef = true ↔ resolver.ComesBack typedef) ∧
        ∀ type name, type.type = .name name →
          resolver.binding? type.tree name = some ⟨typedef, []⟩ →
            (resolver.typedefIsCyclic typedef = true ↔
              resolver.unwrap type = .error (.cyclic typedef)) := by
  have hcyclic : ∀ typedef, resolver.typedefIsCyclic typedef = true ↔
      resolver.ComesBack typedef := fun typedef =>
    (typedefIsCyclic_iff typedef).trans (comesBack_iff typedef).symm
  refine ⟨resolver.tellsChain, fun typedef => ⟨hcyclic typedef, ?_⟩⟩
  intro type name hname hbinding
  exact (hcyclic typedef).trans (comesBack_iff_unwrap hname hbinding)

/-- A typedef that leads into a cycle of two others. -/
def lassoTree : SourceTree where
  package := "lasso"
  source := ⟨"lasso.thrift",
    "typedef B A typedef C B typedef B C struct S \x7b 1: A a \x7d"⟩
  document :=
    { namespaces := []
      includes := []
      declarations := [
        .typedef ⟨.name ⟨⟨"B", ⟨8, 9⟩⟩, [], ⟨8, 9⟩⟩, ⟨"A", ⟨10, 11⟩⟩, ⟨0, 11⟩⟩,
        .typedef ⟨.name ⟨⟨"C", ⟨20, 21⟩⟩, [], ⟨20, 21⟩⟩, ⟨"B", ⟨22, 23⟩⟩, ⟨12, 23⟩⟩,
        .typedef ⟨.name ⟨⟨"B", ⟨32, 33⟩⟩, [], ⟨32, 33⟩⟩, ⟨"C", ⟨34, 35⟩⟩, ⟨24, 35⟩⟩,
        .struct ⟨.struct, ⟨"S", ⟨43, 44⟩⟩,
          [⟨some ⟨1, ⟨47, 48⟩⟩, none, .name ⟨⟨"A", ⟨50, 51⟩⟩, [], ⟨50, 51⟩⟩,
            ⟨"a", ⟨52, 53⟩⟩, none, ⟨47, 53⟩⟩], ⟨36, 55⟩⟩]
      span := ⟨0, 55⟩ }
  includes := []

/-- A name of the first typedef stops at the second, which comes back to itself. -/
theorem unwrap_lassoTree :
    (ofTree lassoTree).unwrap ⟨0, .name ⟨⟨"A", ⟨50, 51⟩⟩, [], ⟨50, 51⟩⟩⟩ =
        .error (.cyclic ⟨0, 1⟩) ∧
      Endless (ofTree lassoTree).Aliases ⟨0, .name ⟨⟨"A", ⟨50, 51⟩⟩, [], ⟨50, 51⟩⟩⟩ ∧
      (ofTree lassoTree).typedefIsCyclic ⟨0, 0⟩ = false ∧
      ¬ (ofTree lassoTree).ComesBack ⟨0, 0⟩ ∧ (ofTree lassoTree).ComesBack ⟨0, 1⟩ ∧
      (ofTree lassoTree).unwrap ⟨0, .name ⟨⟨"B", ⟨8, 9⟩⟩, [], ⟨8, 9⟩⟩⟩ =
        .error (.cyclic ⟨0, 1⟩) := by
  obtain ⟨hchain, hcyclic⟩ := unwrap_tells_chain (ofTree lassoTree)
  have hlasso : (ofTree lassoTree).unwrap ⟨0, .name ⟨⟨"A", ⟨50, 51⟩⟩, [], ⟨50, 51⟩⟩⟩ =
      .error (.cyclic ⟨0, 1⟩) := by
    decide +kernel
  have hfirst : (ofTree lassoTree).typedefIsCyclic ⟨0, 0⟩ = false := by
    decide +kernel
  have hsecond : (ofTree lassoTree).typedefIsCyclic ⟨0, 1⟩ = true := by
    decide +kernel
  refine ⟨hlasso, (hchain _).endless.1 ⟨_, hlasso⟩, hfirst, fun hback => ?_,
    (hcyclic ⟨0, 1⟩).1.1 hsecond, ((hcyclic ⟨0, 1⟩).2 _ _ rfl rfl).1 hsecond⟩
  have htrue := (hcyclic ⟨0, 0⟩).1.2 hback
  rw [hfirst] at htrue
  cases htrue

end Idl.Resolver
