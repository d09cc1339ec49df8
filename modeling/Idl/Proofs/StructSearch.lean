import Idl.Proofs.StructCycles

/-!
# The search for a struct as a derivation

The search of types for a struct either goes through, and then there is a derivation that says
whether it finds the struct, or it is endless, and then there is none. A derivation does not depend
on how typedefs are told from lists, maps and structs on the way, so it can be carried from one
program to another.
-/
namespace Idl

open Relation

/-- The outcome of a search that goes through. -/
def Search.outcome (found : Bool) : Search :=
  if found then .found else .absent

theorem Search.eq_outcome_or_endless (search : Search) :
    (∃ found, search = .outcome found) ∨ search = .endless := by
  cases search with
  | found => exact .inl ⟨true, rfl⟩
  | absent => exact .inl ⟨false, rfl⟩
  | endless => exact .inr rfl

namespace Resolver

variable (resolver : Resolver) (origin : DeclRef)

/-- What a search goes into at a type, with the structs that are idle there. There is nothing more
to do at the struct that is searched for. -/
def opened (idle : List DeclRef) (type : LocatedType) :
    Option (List DeclRef × List LocatedType) :=
  match type.type with
  | .builtin _ _ => some (idle, [])
  | .list element _ => some (idle, [⟨type.tree, element⟩])
  | .map key value _ => some (idle, [⟨type.tree, key⟩, ⟨type.tree, value⟩])
  | .name name =>
    match resolver.binding? type.tree name with
    | some ⟨target, []⟩ =>
      match resolver.declaration? target with
      | some (.typedef decl) => some (idle, [⟨target.tree, decl.type⟩])
      | some (.struct _) =>
        if target = origin then none
        else if target ∈ idle then some (idle.erase target, resolver.fieldTypes target)
        else some (idle, [])
      | _ => some (idle, [])
    | _ => some (idle, [])

/-- The search of types one after the other goes through, and finds the struct or does not. -/
inductive Finds : List DeclRef → List LocatedType → Bool → Prop
  | done {idle} : Finds idle [] false
  | here {idle type types} (opens : resolver.opened origin idle type = none) :
      Finds idle (type :: types) true
  | inside {idle type types inner content}
      (opens : resolver.opened origin idle type = some (inner, content))
      (found : Finds inner content true) : Finds idle (type :: types) true
  | past {idle type types inner content found}
      (opens : resolver.opened origin idle type = some (inner, content))
      (absent : Finds inner content false) (rest : Finds idle types found) :
      Finds idle (type :: types) found

/-- A type that a search comes to, having found nothing before it, without going into a struct. -/
def Next (idle : List DeclRef) (type next : LocatedType) : Prop :=
  ∃ before after, resolver.opened origin idle type = some (idle, before ++ next :: after) ∧
    resolver.Finds origin idle before false

variable {resolver : Resolver} {origin : DeclRef} {idle : List DeclRef} {type : LocatedType}
  {types : List LocatedType} {found : Bool}

/-! ### Derivations -/

theorem finds_unique (h : resolver.Finds origin idle types found) :
    ∀ {found' : Bool}, resolver.Finds origin idle types found' → found = found' := by
  induction h with
  | done =>
    rintro found' (_ | _ | _ | _)
    rfl
  | here opens =>
    intro found' h'
    cases h' with
    | here _ => rfl
    | inside opens' _ => cases opens.symm.trans opens'
    | past opens' _ _ => cases opens.symm.trans opens'
  | inside opens _ ih =>
    intro found' h'
    cases h' with
    | here _ => rfl
    | inside _ _ => rfl
    | past opens' absent _ =>
      cases opens.symm.trans opens'
      cases ih absent
  | past opens _ _ ih ihRest =>
    intro found' h'
    cases h' with
    | here opens' => cases opens.symm.trans opens'
    | inside opens' inside =>
      cases opens.symm.trans opens'
      cases ih inside
    | past _ _ rest => exact ihRest rest

theorem finds_cons_iff :
    resolver.Finds origin idle (type :: types) found ↔
      (resolver.Finds origin idle [type] true ∧ found = true) ∨
        (resolver.Finds origin idle [type] false ∧ resolver.Finds origin idle types found) := by
  constructor
  · intro h
    cases h with
    | here opens => exact .inl ⟨.here opens, rfl⟩
    | inside opens inside => exact .inl ⟨.inside opens inside, rfl⟩
    | past opens absent rest => exact .inr ⟨.past opens absent .done, rest⟩
  · rintro (⟨h, rfl⟩ | ⟨h, hrest⟩)
    · cases h with
      | here opens => exact .here opens
      | inside opens inside => exact .inside opens inside
      | past _ _ rest => cases rest
    · cases h with
      | past opens absent _ => exact .past opens absent hrest

theorem finds_append_iff {before : List LocatedType}
    (hbefore : resolver.Finds origin idle before false) :
    resolver.Finds origin idle (before ++ types) found ↔
      resolver.Finds origin idle types found := by
  induction before with
  | nil => rfl
  | cons first before ih =>
    rcases finds_cons_iff.1 hbefore with ⟨-, h⟩ | ⟨hfirst, hrest⟩
    · cases h
    rw [List.cons_append, finds_cons_iff, ih hrest]
    constructor
    · rintro (⟨h, -⟩ | ⟨-, h⟩)
      · cases finds_unique h hfirst
      · exact h
    · exact fun h => .inr ⟨hfirst, h⟩

theorem finds_nil_iff : resolver.Finds origin idle [] found ↔ found = false := by
  constructor
  · intro h
    cases h
    rfl
  · rintro rfl
    exact .done

/-- A search of one type finds what it finds inside. -/
theorem finds_iff_of_opened {inner : List DeclRef} {content : List LocatedType}
    (hopened : resolver.opened origin idle type = some (inner, content)) :
    resolver.Finds origin idle [type] found ↔ resolver.Finds origin inner content found := by
  constructor
  · intro h
    cases h with
    | here opens => cases opens.symm.trans hopened
    | inside opens inside =>
      cases opens.symm.trans hopened
      exact inside
    | past opens absent rest =>
      cases opens.symm.trans hopened
      cases rest
      exact absent
  · intro h
    cases found with
    | true => exact .inside hopened h
    | false => exact .past hopened h .done

theorem finds_iff_of_opened_none (hopened : resolver.opened origin idle type = none) :
    resolver.Finds origin idle [type] found ↔ found = true := by
  constructor
  · exact fun h => finds_unique h (.here hopened)
  · rintro rfl
    exact .here hopened

/-- Where a search goes into one type with the same idle structs, it finds what is found there. -/
theorem finds_of_opened {next : LocatedType}
    (hopened : resolver.opened origin idle type = some (idle, [next]))
    (h : resolver.Finds origin idle (next :: types) found) :
    resolver.Finds origin idle (type :: types) found := by
  rcases finds_cons_iff.1 h with ⟨hnext, rfl⟩ | ⟨hnext, hrest⟩
  · exact .inside hopened hnext
  · exact .past hopened hnext hrest

theorem opened_of_aliases {typedef : DeclRef} {next : LocatedType}
    (h : resolver.Aliases type typedef next) :
    resolver.opened origin idle type = some (idle, [next]) := by
  obtain ⟨name, hname, hbinding, htypedef⟩ := h
  obtain ⟨decl, hdecl, rfl⟩ := (typedef?_eq_some_iff _ _).1 htypedef
  unfold opened
  simp only [hname, hbinding, hdecl]

theorem opened_of_namesStruct (origin : DeclRef) (idle : List DeclRef) {struct : DeclRef}
    (h : resolver.NamesStruct type struct) :
    resolver.opened origin idle type =
      if struct = origin then none
      else if struct ∈ idle then some (idle.erase struct, resolver.fieldTypes struct)
      else some (idle, []) := by
  obtain ⟨name, hname, hbinding, hstruct⟩ := h
  obtain ⟨decl, hdecl⟩ := (isStruct_iff struct).1 hstruct
  unfold opened
  simp only [hname, hbinding, hdecl]

theorem finds_of_chain {last : LocatedType} (hchain : ReflTransGen resolver.AliasStep type last)
    (h : resolver.Finds origin idle (last :: types) found) :
    resolver.Finds origin idle (type :: types) found := by
  induction hchain using ReflTransGen.head_induction_on with
  | refl => exact h
  | head step _ ih =>
    obtain ⟨typedef, halias⟩ := step
    exact finds_of_opened (opened_of_aliases halias) ih

theorem next_of_aliasStep {next : LocatedType} (h : resolver.AliasStep type next) :
    resolver.Next origin idle type next := by
  obtain ⟨typedef, halias⟩ := h
  exact ⟨[], [], opened_of_aliases halias, .done⟩

theorem next_of_chain {last : LocatedType} (h : ReflTransGen resolver.AliasStep type last) :
    ReflTransGen (resolver.Next origin idle) type last :=
  ReflTransGen.mono (fun _ _ => next_of_aliasStep) _ _ h

/-! ### Where a derivation cannot be -/

theorem acc_of_finds (h : resolver.Finds origin idle types found) :
    ∀ (before : List LocatedType) {after : List LocatedType} {type : LocatedType},
      types = before ++ type :: after →
      resolver.Finds origin idle before false →
      Acc (fun next type => resolver.Next origin idle type next) type := by
  -- the types are taken in order, so a derivation is inside of this one once those before it are
  -- searched in vain
  induction h with
  | done => intro before after type htypes; simp at htypes
  | @here idle first types opens =>
    intro before after type htypes hbefore
    cases before with
    | nil =>
      obtain ⟨rfl, rfl⟩ := List.cons.inj htypes
      refine ⟨_, fun next ⟨_, _, hopened, _⟩ => ?_⟩
      cases opens.symm.trans hopened
    | cons other before =>
      obtain ⟨rfl, rfl⟩ := List.cons.inj htypes
      cases finds_unique hbefore (.here opens)
  | @inside idle first types inner content opens inside ih =>
    intro before after type htypes hbefore
    cases before with
    | nil =>
      obtain ⟨rfl, rfl⟩ := List.cons.inj htypes
      refine ⟨_, fun next ⟨earlier, later, hopened, hearlier⟩ => ?_⟩
      cases opens.symm.trans hopened
      exact ih _ rfl hearlier
    | cons other before =>
      obtain ⟨rfl, rfl⟩ := List.cons.inj htypes
      cases finds_unique hbefore (.inside opens inside)
  | @past idle first types inner content found opens absent rest ih ihRest =>
    intro before after type htypes hbefore
    cases before with
    | nil =>
      obtain ⟨rfl, rfl⟩ := List.cons.inj htypes
      refine ⟨_, fun next ⟨earlier, later, hopened, hearlier⟩ => ?_⟩
      cases opens.symm.trans hopened
      exact ih _ rfl hearlier
    | cons other before =>
      obtain ⟨rfl, rfl⟩ := List.cons.inj htypes
      rcases finds_cons_iff.1 hbefore with ⟨-, h⟩ | ⟨-, hrest⟩
      · cases h
      · exact ihRest _ rfl hrest

theorem finds_next {next : LocatedType} (hnext : resolver.Next origin idle type next)
    (h : ∃ found, resolver.Finds origin idle [type] found) :
    ∃ found, resolver.Finds origin idle [next] found := by
  obtain ⟨before, after, hopened, hbefore⟩ := hnext
  obtain ⟨found, h⟩ := h
  suffices hcontent : ∃ found, resolver.Finds origin idle (before ++ next :: after) found by
    obtain ⟨found, hcontent⟩ := hcontent
    rw [finds_append_iff hbefore, finds_cons_iff] at hcontent
    rcases hcontent with ⟨h, -⟩ | ⟨h, -⟩
    · exact ⟨true, h⟩
    · exact ⟨false, h⟩
  exact ⟨found, (finds_iff_of_opened hopened).1 h⟩

theorem finds_nexts {next : LocatedType}
    (hnext : ReflTransGen (resolver.Next origin idle) type next)
    (h : ∃ found, resolver.Finds origin idle [type] found) :
    ∃ found, resolver.Finds origin idle [next] found := by
  induction hnext with
  | refl => exact h
  | tail _ hstep ih => exact finds_next hstep ih

/-- A search that comes back to a type does not go through. -/
theorem not_transGen_next (h : ∃ found, resolver.Finds origin idle [type] found) :
    ¬ TransGen (resolver.Next origin idle) type type := by
  obtain ⟨found, h⟩ := h
  have hacc : Acc (fun next type => resolver.Next origin idle type next) type :=
    acc_of_finds h [] rfl .done
  clear h
  induction hacc with
  | intro type _ ih =>
    intro hloop
    obtain ⟨next, hstep, hback⟩ := TransGen.head'_iff.1 hloop
    exact ih next hstep (TransGen.tail' hback hstep)

end Resolver

/-! ### What is made of the structs met in a type -/

/-- The outcome of looking into the structs that are met in a type, one after the other. -/
def DirectStructs.search (direct : DirectStructs) (look : DeclRef → Search) : Search :=
  match Search.first direct.structs look with
  | .absent => if direct.complete then .absent else .endless
  | outcome => outcome

theorem Search.first_append {α : Type} (before after : List α) (look : α → Search) :
    Search.first (before ++ after) look =
      match Search.first before look with
      | .absent => Search.first after look
      | outcome => outcome := by
  induction before with
  | nil => rfl
  | cons place before ih =>
    simp only [List.cons_append, Search.first]
    cases look place with
    | absent => exact ih
    | _ => rfl

theorem DirectStructs.search_append (first second : DirectStructs) (look : DeclRef → Search) :
    (first.append second).search look =
      match first.search look with
      | .absent => second.search look
      | outcome => outcome := by
  obtain ⟨structs, complete⟩ := first
  cases complete with
  | false =>
    unfold search append
    simp only [Bool.false_eq_true, if_false]
    cases Search.first structs look <;> rfl
  | true =>
    unfold search append
    simp only [if_true, Search.first_append]
    cases Search.first structs look <;> rfl

theorem DirectStructs.append_none (direct : DirectStructs) : direct.append .none = direct := by
  obtain ⟨structs, complete⟩ := direct
  cases complete <;> simp [append, DirectStructs.none]

theorem DirectStructs.append_assoc (first second third : DirectStructs) :
    (first.append second).append third = first.append (second.append third) := by
  obtain ⟨structs, complete⟩ := first
  obtain ⟨structs', complete'⟩ := second
  cases complete <;> cases complete' <;> simp [append]

theorem DirectStructs.foldr_append (list other : List DirectStructs) :
    (list ++ other).foldr append .none =
      (list.foldr append .none).append (other.foldr append .none) := by
  induction list with
  | nil => rfl
  | cons direct list ih =>
    rw [List.cons_append, List.foldr_cons, List.foldr_cons, ih, append_assoc]

namespace Resolver

section

variable (resolver : Resolver) (unexpanded : List DeclRef) (tree : Nat)

theorem directStructsFrom_builtin (builtin : Builtin) (span : Span) :
    resolver.directStructsFrom unexpanded ⟨tree, .builtin builtin span⟩ = .none := by
  rw [directStructsFrom]
  rfl

theorem directStructsFrom_list (element : TypeRef) (span : Span) :
    resolver.directStructsFrom unexpanded ⟨tree, .list element span⟩ =
      resolver.directStructsFrom unexpanded ⟨tree, element⟩ := by
  rw [directStructsFrom, directStructsFrom]
  rfl

theorem directStructsFrom_map (key value : TypeRef) (span : Span) :
    resolver.directStructsFrom unexpanded ⟨tree, .map key value span⟩ =
      (resolver.directStructsFrom unexpanded ⟨tree, key⟩).append
        (resolver.directStructsFrom unexpanded ⟨tree, value⟩) := by
  rw [directStructsFrom, directStructsFrom, directStructsFrom, ← DirectStructs.foldr_append,
    ← List.map_append]
  rfl

theorem directStructsFrom_name (name : Name) :
    resolver.directStructsFrom unexpanded ⟨tree, .name name⟩ =
      match resolver.unwrap ⟨tree, .name name⟩ with
      | .error _ => .none
      | .ok ⟨_, some target, _⟩ =>
        match resolver.declaration? target with
        | some (.struct _) => ⟨[target], true⟩
        | _ => .none
      | .ok ⟨_, Option.none, Option.none⟩ => .none
      | .ok ⟨next, Option.none, some typedef⟩ =>
        if typedef ∈ unexpanded then
          resolver.directStructsFrom (unexpanded.erase typedef) next
        else ⟨[], false⟩ := by
  rw [directStructsFrom]
  exact DirectStructs.append_none _

end

variable {resolver : Resolver} {origin : DeclRef} {idle : List DeclRef} {type : LocatedType}
  {found : Bool}

/-- How looking into the structs met in a type, with typedefs that are still to be expanded, comes
to its outcome. -/
inductive LooksInto (resolver : Resolver) (origin : DeclRef) (idle : List DeclRef)
    (look : DeclRef → Search) : List DeclRef → LocatedType → Search → Prop
  | nothing {unexpanded type last} (chain : ReflTransGen resolver.AliasStep type last)
      (opens : resolver.opened origin idle last = some (idle, [])) :
      LooksInto resolver origin idle look unexpanded type .absent
  | struct {unexpanded type last struct} (chain : ReflTransGen resolver.AliasStep type last)
      (names : resolver.NamesStruct last struct) :
      LooksInto resolver origin idle look unexpanded type (look struct)
  | list {unexpanded tree element span outcome}
      (inside : LooksInto resolver origin idle look unexpanded ⟨tree, element⟩ outcome) :
      LooksInto resolver origin idle look unexpanded ⟨tree, .list element span⟩ outcome
  | key {unexpanded tree key value span outcome}
      (inside : LooksInto resolver origin idle look unexpanded ⟨tree, key⟩ outcome)
      (decides : outcome ≠ .absent) :
      LooksInto resolver origin idle look unexpanded ⟨tree, .map key value span⟩ outcome
  | value {unexpanded tree key value span outcome}
      (before : LooksInto resolver origin idle look unexpanded ⟨tree, key⟩ .absent)
      (inside : LooksInto resolver origin idle look unexpanded ⟨tree, value⟩ outcome) :
      LooksInto resolver origin idle look unexpanded ⟨tree, .map key value span⟩ outcome
  | typedef {unexpanded type part typedef next outcome}
      (chain : ReflTransGen resolver.AliasStep type part)
      (step : resolver.Aliases part typedef next)
      (inside : LooksInto resolver origin idle look (unexpanded.erase typedef) next outcome) :
      LooksInto resolver origin idle look unexpanded type outcome
  | expanded {unexpanded type part typedef next}
      (chain : ReflTransGen resolver.AliasStep type part)
      (step : resolver.Aliases part typedef next) (expanded : typedef ∉ unexpanded) :
      LooksInto resolver origin idle look unexpanded type .endless

theorem opened_of_not_struct (origin : DeclRef) (idle : List DeclRef) {name : Name}
    {target : DeclRef} (hname : type.type = .name name)
    (hbinding : resolver.binding? type.tree name = some ⟨target, []⟩)
    (halias : ∀ typedef next, ¬ resolver.Aliases type typedef next)
    (hstruct : ∀ decl, resolver.declaration? target ≠ some (.struct decl)) :
    resolver.opened origin idle type = some (idle, []) := by
  unfold opened
  simp only [hname, hbinding]
  split
  · next decl hdecl =>
    exact absurd ⟨name, hname, hbinding, (typedef?_eq_some_iff _ _).2 ⟨decl, hdecl, rfl⟩⟩
      (halias target ⟨target.tree, decl.type⟩)
  · next decl hdecl => exact absurd hdecl (hstruct decl)
  · rfl

/-- At a name, its typedef chain is followed to its end. A typedef that stands for a list or map is
expanded there. -/
theorem looksInto_name (hresolve : resolver.TypesResolve) (hend : resolver.TypedefsEnd)
    {look : DeclRef → Search} {unexpanded : List DeclRef} {tree : Nat} {name : Name}
    (hproper : resolver.IsProper ⟨tree, .name name⟩)
    (hexpand : ∀ typedef ∈ unexpanded, ∀ next, resolver.IsProper next →
      LooksInto resolver origin idle look (unexpanded.erase typedef) next
        ((resolver.directStructsFrom (unexpanded.erase typedef) next).search look)) :
    LooksInto resolver origin idle look unexpanded ⟨tree, .name name⟩
      ((resolver.directStructsFrom unexpanded ⟨tree, .name name⟩).search look) := by
  obtain ⟨unwrapped, hunwrap, hchain, hunwrapped⟩ := unwrap_ok hresolve hend hproper
  have hends := endsChain_of_unwrapFrom hunwrap
  rw [directStructsFrom_name, hunwrap]
  obtain ⟨last, target, typedef⟩ := unwrapped
  cases target with
  | some target =>
    obtain ⟨other, tail, hother, -⟩ := hends.target target rfl
    obtain ⟨target', hbinding, htarget'⟩ := hunwrapped.target other hother
    obtain rfl := Option.some.inj htarget'
    simp only
    split
    · next decl hdecl =>
      have hlook : DirectStructs.search ⟨[target], true⟩ look = look target := by
        unfold DirectStructs.search
        simp only [Search.first]
        cases look target <;> rfl
      exact hlook ▸ .struct hchain ⟨other, hother, hbinding, (isStruct_iff target).2 ⟨decl, hdecl⟩⟩
    · next hnone =>
      exact .nothing hchain
        (opened_of_not_struct origin idle hother hbinding hunwrapped.noAlias hnone)
  | none =>
    rcases hends.typedef with ⟨htype, -⟩ | ⟨typedef', part, htypedef, hpart, halias⟩
    · exact absurd (congrArg LocatedType.type htype) (hends.noTarget rfl name)
    · obtain rfl : typedef = some typedef' := htypedef
      simp only
      split
      · next hmem => exact .typedef hpart halias (hexpand typedef' hmem last hunwrapped.proper)
      · next hmem => exact .expanded hpart halias hmem

theorem looksInto_directStructsFrom (hresolve : resolver.TypesResolve)
    (hend : resolver.TypedefsEnd) {look : DeclRef → Search} {unexpanded : List DeclRef}
    (hproper : resolver.IsProper type) :
    LooksInto resolver origin idle look unexpanded type
      ((resolver.directStructsFrom unexpanded type).search look) := by
  induction hlength : unexpanded.length using Nat.strong_induction_on
    generalizing unexpanded type with
  | _ length ih =>
    obtain ⟨tree, type⟩ := type
    -- parts of the type are met with the same typedefs, so they are left to an inner induction
    induction type with
    | builtin builtin span =>
      rw [directStructsFrom_builtin]
      exact .nothing .refl rfl
    | list element span ihElement =>
      rw [directStructsFrom_list]
      exact .list (ihElement hproper)
    | map key value span ihKey ihValue =>
      have hkey := ihKey fun name hname => hproper name (List.mem_append_left _ hname)
      have hvalue := ihValue fun name hname => hproper name (List.mem_append_right _ hname)
      rw [directStructsFrom_map, DirectStructs.search_append]
      generalize (resolver.directStructsFrom unexpanded ⟨tree, key⟩).search look = first at hkey ⊢
      cases first with
      | absent => exact .value hkey hvalue
      | found => exact .key hkey Search.noConfusion
      | endless => exact .key hkey Search.noConfusion
    | name name =>
      exact looksInto_name hresolve hend hproper fun typedef hmem next hnext =>
        ih _ (hlength ▸ length_erase_lt hmem) hnext rfl

/-- Looking into the structs met in a type finds what a search of the type finds. -/
theorem LooksInto.finds {look : DeclRef → Search}
    (hlook : ∀ type struct found, resolver.NamesStruct type struct →
      look struct = .outcome found → resolver.Finds origin idle [type] found)
    {unexpanded : List DeclRef} {outcome : Search}
    (h : LooksInto resolver origin idle look unexpanded type outcome)
    (houtcome : outcome = .outcome found) : resolver.Finds origin idle [type] found := by
  induction h generalizing found with
  | nothing chain opens =>
    cases found with
    | true => cases houtcome
    | false => exact finds_of_chain chain ((finds_iff_of_opened opens).2 .done)
  | struct chain names => exact finds_of_chain chain (hlook _ _ found names houtcome)
  | list inside ih => exact finds_of_opened rfl (ih houtcome)
  | key inside decides ih =>
    cases found with
    | true => exact .inside rfl (finds_cons_iff.2 (.inl ⟨ih houtcome, rfl⟩))
    | false => exact absurd houtcome decides
  | value before inside ihBefore ih =>
    have hbefore : resolver.Finds origin idle [_] false := ihBefore rfl
    exact (finds_iff_of_opened rfl).2 (finds_cons_iff.2 (.inr ⟨hbefore, ih houtcome⟩))
  | typedef chain step inside ih =>
    exact finds_of_chain chain (finds_of_opened (opened_of_aliases step) (ih houtcome))
  | expanded => cases found <;> cases houtcome

/-- Why a search of a type is endless: it comes to a type of which it is, comes back to a type, or
comes to a typedef that is not to be expanded. -/
inductive Hangs (resolver : Resolver) (origin : DeclRef) (idle unexpanded : List DeclRef)
    (type : LocatedType) : Prop
  | part {part} (reach : ReflTransGen (resolver.Next origin idle) type part)
      (endless : ∀ found, ¬ resolver.Finds origin idle [part] found)
  | loop {part} (reach : ReflTransGen (resolver.Next origin idle) type part)
      (back : TransGen (resolver.Next origin idle) part part)
  | typedef {part typedef next} (reach : ReflTransGen (resolver.Next origin idle) type part)
      (step : resolver.Aliases part typedef next) (expanded : typedef ∉ unexpanded)

theorem Hangs.of_reach {unexpanded : List DeclRef} {next : LocatedType}
    (hreach : ReflTransGen (resolver.Next origin idle) type next)
    (h : Hangs resolver origin idle unexpanded next) :
    Hangs resolver origin idle unexpanded type := by
  cases h with
  | part reach endless => exact .part (hreach.trans reach) endless
  | loop reach back => exact .loop (hreach.trans reach) back
  | typedef reach step expanded => exact .typedef (hreach.trans reach) step expanded

/-- If a typedef that has been expanded leads to one that is not to be expanded any more, then
this is an earlier one, or the search comes back. -/
theorem Hangs.of_erase {unexpanded : List DeclRef} {typedef : DeclRef} {part next : LocatedType}
    (hpart : ReflTransGen (resolver.Next origin idle) type part)
    (halias : resolver.Aliases part typedef next)
    (h : Hangs resolver origin idle (unexpanded.erase typedef) next) :
    Hangs resolver origin idle unexpanded type := by
  have hstep : ReflTransGen (resolver.Next origin idle) type next :=
    hpart.tail (next_of_aliasStep ⟨typedef, halias⟩)
  cases h with
  | part reach endless => exact .part (hstep.trans reach) endless
  | loop reach back => exact .loop (hstep.trans reach) back
  | @typedef last other following reach step expanded =>
    by_cases heq : other = typedef
    · subst heq
      obtain rfl : following = next :=
        Option.some.inj (step.typedef?_eq.symm.trans halias.typedef?_eq)
      exact .loop hstep (TransGen.tail' reach (next_of_aliasStep ⟨other, step⟩))
    · exact .typedef (hstep.trans reach) step fun hmem =>
        expanded ((List.mem_erase_of_ne heq).2 hmem)

/-- Looking into the structs met in a type is endless only where a search hangs. -/
theorem LooksInto.hangs {look : DeclRef → Search}
    (hlook : ∀ type struct found, resolver.NamesStruct type struct →
      look struct = .outcome found → resolver.Finds origin idle [type] found)
    (hendless : ∀ type struct, resolver.NamesStruct type struct → look struct = .endless →
      ∀ found, ¬ resolver.Finds origin idle [type] found)
    {unexpanded : List DeclRef} {outcome : Search}
    (h : LooksInto resolver origin idle look unexpanded type outcome)
    (houtcome : outcome = .endless) : Hangs resolver origin idle unexpanded type := by
  induction h with
  | nothing => cases houtcome
  | struct chain names => exact .part (next_of_chain chain) (hendless _ _ names houtcome)
  | list inside ih => exact (ih houtcome).of_reach (.single ⟨[], [], rfl, .done⟩)
  | key inside decides ih => exact (ih houtcome).of_reach (.single ⟨[], _, rfl, .done⟩)
  | value before inside ihBefore ih =>
    have hbefore : resolver.Finds origin idle [_] false := before.finds hlook rfl
    exact (ih houtcome).of_reach (.single ⟨[_], [], rfl, hbefore⟩)
  | typedef chain step inside ih => exact .of_erase (next_of_chain chain) step (ih houtcome)
  | expanded chain step expanded => exact .typedef (next_of_chain chain) step expanded

/-! ### The search -/

theorem searchFrom_eq (origin : DeclRef) (idle : List DeclRef) (type : LocatedType) :
    resolver.searchFrom origin idle type =
      (resolver.directStructs type).search (resolver.searchStruct origin idle) := by
  rw [searchFrom]
  rfl

/-- A list of types is searched as each of them is. -/
theorem first_eq_outcome_iff {types : List LocatedType} {look : LocatedType → Search}
    (hlook : ∀ type ∈ types, ∀ found,
      look type = .outcome found ↔ resolver.Finds origin idle [type] found) :
    Search.first types look = .outcome found ↔ resolver.Finds origin idle types found := by
  induction types with
  | nil =>
    rw [finds_nil_iff]
    cases found <;> simp [Search.first, Search.outcome]
  | cons type types ih =>
    have hhere := hlook type List.mem_cons_self
    have hrest := ih fun other hother => hlook other (List.mem_cons_of_mem _ hother)
    rw [finds_cons_iff, ← hhere, ← hhere, ← hrest, Search.first]
    cases look type with
    | found => cases found <;> simp [Search.outcome]
    | absent => simp [Search.outcome]
    | endless => cases found <;> simp [Search.outcome]

/-- Looking into a struct comes to an outcome exactly if a search goes through with it where the
struct is named, provided that this is so for its fields. -/
theorem searchStruct_eq_outcome_iff {struct : DeclRef} (hstruct : resolver.NamesStruct type struct)
    (hfields : struct ∈ idle →
      (Search.first (resolver.fieldTypes struct) (resolver.searchFrom origin (idle.erase struct)) =
          .outcome found ↔
        resolver.Finds origin (idle.erase struct) (resolver.fieldTypes struct) found)) :
    resolver.searchStruct origin idle struct = .outcome found ↔
      resolver.Finds origin idle [type] found := by
  have hopened := opened_of_namesStruct origin idle hstruct
  unfold searchStruct
  by_cases horigin : struct = origin
  · rw [if_pos horigin] at hopened ⊢
    rw [finds_iff_of_opened_none hopened]
    cases found <;> simp [Search.outcome]
  · rw [if_neg horigin] at hopened ⊢
    by_cases hidle : struct ∈ idle
    · rw [if_pos hidle] at hopened ⊢
      rw [hfields hidle, finds_iff_of_opened hopened]
    · rw [if_neg hidle] at hopened ⊢
      rw [finds_iff_of_opened hopened, finds_nil_iff]
      cases found <;> simp [Search.outcome]

/-- A search that goes through does not hang. -/
theorem not_hangs_of_finds (h : resolver.Finds origin idle [type] found) :
    ¬ Hangs resolver origin idle resolver.typedefs type := by
  intro hhangs
  cases hhangs with
  | part reach endless =>
    obtain ⟨other, hother⟩ := finds_nexts reach ⟨found, h⟩
    exact endless other hother
  | loop reach back => exact not_transGen_next (finds_nexts reach ⟨found, h⟩) back
  | typedef reach step expanded =>
    exact expanded ((mem_typedefs_iff _).2 (Option.isSome_iff_exists.2 ⟨_, step.typedef?_eq⟩))

/-- The search of a type comes to an outcome exactly if it goes through with it. -/
theorem searchFrom_eq_outcome_iff (hresolve : resolver.TypesResolve) (hend : resolver.TypedefsEnd)
    (hproper : resolver.IsProper type) :
    resolver.searchFrom origin idle type = .outcome found ↔
      resolver.Finds origin idle [type] found := by
  induction hlength : idle.length using Nat.strong_induction_on generalizing idle type found with
  | _ length ih =>
    have hlook (type : LocatedType) (struct : DeclRef) (found : Bool)
        (hstruct : resolver.NamesStruct type struct) :
        resolver.searchStruct origin idle struct = .outcome found ↔
          resolver.Finds origin idle [type] found :=
      searchStruct_eq_outcome_iff hstruct fun hidle => first_eq_outcome_iff fun _ htype _ =>
        ih _ (hlength ▸ length_erase_lt hidle) (isProper_of_mem_fieldTypes hresolve htype) rfl
    have hlooks : LooksInto resolver origin idle (resolver.searchStruct origin idle)
        resolver.typedefs type
        ((resolver.directStructs type).search (resolver.searchStruct origin idle)) :=
      looksInto_directStructsFrom hresolve hend hproper
    have hsound {found : Bool} (h : (resolver.directStructs type).search
        (resolver.searchStruct origin idle) = .outcome found) :
        resolver.Finds origin idle [type] found :=
      hlooks.finds (fun type struct found hstruct => (hlook type struct found hstruct).1) h
    rw [searchFrom_eq]
    refine ⟨hsound, fun h => ?_⟩
    rcases Search.eq_outcome_or_endless ((resolver.directStructs type).search
      (resolver.searchStruct origin idle)) with ⟨found', hfound'⟩ | hendless
    · rw [hfound', finds_unique (hsound hfound') h]
    · refine absurd (hlooks.hangs
        (fun type struct found hstruct => (hlook type struct found hstruct).1)
        (fun type struct hstruct hendless found hfinds => ?_) hendless)
        (not_hangs_of_finds h)
      have houtcome := (hlook type struct found hstruct).2 hfinds
      rw [hendless] at houtcome
      cases found <;> cases houtcome

end Resolver

end Idl
