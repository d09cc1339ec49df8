import Idl.Proofs.EndingSearches
import Idl.Proofs.StrictChecks

/-!
# The strict search for cycles

A strict version of the searches for structs that contain themselves and services that extend
themselves. They follow types from tree to tree, and everything that they come to is looked up in
the tree where it is said to be. A search without an end breaks off. In closed tables the strict
search has the outcome of the search, if there is one.
-/
namespace Idl

/-! ### Structs that are met -/

theorem DirectStructs.exists_mem_of_mem_foldr {list : List DirectStructs} {struct : DeclRef}
    (h : struct ∈ (list.foldr append .none).structs) :
    ∃ direct ∈ list, struct ∈ direct.structs := by
  induction list with
  | nil => cases h
  | cons first list ih =>
    rw [List.foldr_cons, append] at h
    split at h
    · rcases List.mem_append.1 h with h | h
      · exact ⟨first, List.mem_cons_self, h⟩
      · obtain ⟨direct, hdirect, h⟩ := ih h
        exact ⟨direct, List.mem_cons_of_mem _ hdirect, h⟩
    · exact ⟨first, List.mem_cons_self, h⟩

/-- Only structs are met. -/
theorem Resolver.exists_struct_of_mem_directStructsFrom {resolver : Resolver}
    {unexpanded : List DeclRef} {type : LocatedType} {struct : DeclRef}
    (h : struct ∈ (resolver.directStructsFrom unexpanded type).structs) :
    ∃ decl, resolver.declaration? struct = some (.struct decl) := by
  induction hlength : unexpanded.length using Nat.strong_induction_on
    generalizing unexpanded type with
  | _ length ih =>
    rw [directStructsFrom] at h
    obtain ⟨direct, hdirect, h⟩ := DirectStructs.exists_mem_of_mem_foldr h
    obtain ⟨name, -, rfl⟩ := List.mem_map.1 hdirect
    split at h
    · cases h
    · split at h
      · next decl hdecl =>
        obtain rfl := List.mem_singleton.1 h
        exact ⟨decl, hdecl⟩
      · cases h
    · cases h
    · split at h
      · next hmem => exact ih _ (hlength ▸ length_erase_lt hmem) h rfl
      · cases h

theorem Resolver.exists_service_of_parent? {resolver : Resolver} {service parent : DeclRef}
    (h : resolver.parent? service = some parent) :
    ∃ decl, resolver.declaration? parent = some (.service decl) := by
  unfold Resolver.parent? at h
  split at h
  · split at h
    · split at h
      · next decl hdecl =>
        obtain rfl := Option.some.inj h
        exact ⟨decl, hdecl⟩
      · cases h
    · cases h
  · cases h

namespace Strict

/-! ### The search -/

section

variable (resolver : Resolver)

def directStructsFrom (unexpanded : List DeclRef) (type : LocatedType) : Strict DirectStructs := do
  openAll resolver.program type.tree type.type.toNode
  let met ← type.type.references.mapM fun name => do
    match ← unwrap resolver ⟨type.tree, .name name⟩ with
    | .error _ => return DirectStructs.none
    | .ok ⟨_, some target, _⟩ =>
      match ← declaration resolver.program target with
      | .struct _ => return ⟨[target], true⟩
      | _ => return .none
    | .ok ⟨_, none, none⟩ => return .none
    | .ok ⟨next, none, some typedef⟩ =>
      if typedef ∈ unexpanded then directStructsFrom (unexpanded.erase typedef) next
      else return ⟨[], false⟩
  return met.foldr DirectStructs.append .none
termination_by unexpanded.length
decreasing_by exact Resolver.length_erase_lt (by assumption)

def directStructs (type : LocatedType) : Strict DirectStructs :=
  directStructsFrom resolver resolver.typedefs type

def first {α : Type} (places : List α) (look : α → Strict Search) : Strict Search := do
  match places with
  | [] => return .absent
  | place :: places =>
    match ← look place with
    | .absent => first places look
    | outcome => return outcome

/-- The types of the fields of a struct, which must be declared. -/
def fieldTypes (struct : DeclRef) : Strict (List LocatedType) := do
  if let .struct decl ← declaration resolver.program struct then
    decl.fields.forM fun field => openNode resolver.program struct.tree field.toNode
  return resolver.fieldTypes struct

def searchFrom (origin : DeclRef) (idle : List DeclRef) (type : LocatedType) : Strict Search := do
  let direct ← directStructs resolver type
  let outcome ← first direct.structs fun struct => do
    if struct = origin then return .found
    else if struct ∈ idle then
      let types ← fieldTypes resolver struct
      first types fun type => searchFrom origin (idle.erase struct) type
    else return .absent
  match outcome with
  | .absent => return if direct.complete then .absent else .endless
  | outcome => return outcome
termination_by idle.length
decreasing_by exact Resolver.length_erase_lt (by assumption)

def search (origin : DeclRef) (type : LocatedType) : Strict Search :=
  searchFrom resolver origin resolver.structs type

def cyclicField? (struct : DeclRef) : List Field → Strict (Option Field)
  | [] => return none
  | field :: fields => do
    openNode resolver.program struct.tree field.toNode
    match ← search resolver struct ⟨struct.tree, field.type⟩ with
    | .found => return some field
    | .absent => cyclicField? struct fields
    | .endless => throw (.endless struct)

def checkStructCycle (struct : DeclRef) (decl : StructDecl) : Strict Unit := do
  if let some field ← cyclicField? resolver struct decl.fields then
    openNode resolver.program struct.tree field.name.toNode
    openNode resolver.program struct.tree decl.name.toNode
  resolver.checkStructCycle struct decl

def descendsFrom (service : DeclRef) (unvisited : List DeclRef) (current : DeclRef) :
    Strict Bool := do
  match ← parent? resolver current with
  | none => return false
  | some parent =>
    if parent = service then return true
    else if parent ∈ unvisited then
      descendsFrom service (unvisited.erase parent) parent
    else return false
termination_by unvisited.length
decreasing_by exact Resolver.length_erase_lt (by assumption)

def extendsItself (service : DeclRef) : Strict Bool :=
  descendsFrom resolver service resolver.program.declRefs service

def checkServiceCycle (service : DeclRef) (decl : ServiceDecl) : Strict Unit := do
  if ← extendsItself resolver service then
    if let some parent := decl.parent then
      openNode resolver.program service.tree parent.toNode
  resolver.checkServiceCycle service decl

def checkCycles (here : Nat) (document : Document) : Strict Unit :=
  document.declarations.zipIdx.forM fun (declaration, index) => do
    openNode resolver.program here declaration.toNode
    match declaration with
    | .struct decl => checkStructCycle resolver ⟨here, index⟩ decl
    | .service decl => checkServiceCycle resolver ⟨here, index⟩ decl
    | _ => pure ()

end

/-! ### In closed tables -/

section

variable {resolver : Resolver}

theorem directStructsFrom_eq (h : resolver.IsClosed) (unexpanded : List DeclRef)
    {type : LocatedType} (htype : resolver.program.Holds type.tree type.type.toNode) :
    directStructsFrom resolver unexpanded type =
      pure (resolver.directStructsFrom unexpanded type) := by
  induction hlength : unexpanded.length using Nat.strong_induction_on
    generalizing unexpanded type with
  | _ length ih =>
    rw [directStructsFrom, Resolver.directStructsFrom, openAll_eq htype, pure_bind]
    refine (congrArg (· >>= _) (mapM_eq_pure fun name hname => ?_)).trans (pure_bind _ _)
    have hheld := htype.trans (TypeRef.contains_reference hname)
    rw [unwrap_eq h hheld, pure_bind]
    cases hunwrap : resolver.unwrap ⟨type.tree, .name name⟩ with
    | error failure => rfl
    | ok unwrapped =>
      have hlast := Resolver.holds_of_unwrap hheld hunwrap
      obtain ⟨next, target, typedef⟩ := unwrapped
      cases target with
      | some target =>
        obtain ⟨found, hfound⟩ := Resolver.declaration?_of_unwrap h hunwrap rfl
        simp only [hfound]
        rw [declaration_eq hfound, pure_bind]
        cases found <;> rfl
      | none =>
        cases typedef with
        | none => rfl
        | some typedef =>
          simp only
          split
          · next hmem => exact ih _ (hlength ▸ Resolver.length_erase_lt hmem) _ hlast rfl
          · rfl

theorem first_eq {α : Type} {places : List α} {look : α → Strict Search} {find : α → Search}
    (h : ∀ place ∈ places, look place = pure (find place)) :
    first places look = pure (Search.first places find) := by
  induction places with
  | nil => rfl
  | cons place places ih =>
    obtain ⟨hplace, hplaces⟩ := List.forall_mem_cons.1 h
    rw [first, hplace, pure_bind, Search.first]
    cases find place with
    | absent => exact ih hplaces
    | _ => rfl

theorem fieldTypes_eq {struct : DeclRef} {decl : StructDecl}
    (h : resolver.declaration? struct = some (.struct decl)) :
    fieldTypes resolver struct = pure (resolver.fieldTypes struct) := by
  have hheld := Program.holds_of_declaration? h
  rw [fieldTypes, declaration_eq h, pure_bind]
  simp only
  rw [forM_eq_pure fun field hfield => openNode_eq (hheld.trans (StructDecl.contains_field hfield)),
    pure_bind]

theorem holds_of_mem_fieldTypes {struct : DeclRef} {type : LocatedType}
    (h : type ∈ resolver.fieldTypes struct) :
    resolver.program.Holds type.tree type.type.toNode := by
  unfold Resolver.fieldTypes at h
  split at h
  · next decl hdecl =>
    obtain ⟨field, hfield, rfl⟩ := List.mem_map.1 h
    exact ((Program.holds_of_declaration? hdecl).trans (StructDecl.contains_field hfield)).trans
      field.contains_type
  · cases h

theorem searchFrom_eq (h : resolver.IsClosed) (origin : DeclRef) (idle : List DeclRef)
    {type : LocatedType} (htype : resolver.program.Holds type.tree type.type.toNode) :
    searchFrom resolver origin idle type = pure (resolver.searchFrom origin idle type) := by
  induction hlength : idle.length using Nat.strong_induction_on generalizing idle type with
  | _ length ih =>
    have hlook : ∀ struct ∈ (resolver.directStructs type).structs,
        (if struct = origin then pure .found
          else if struct ∈ idle then do
            let types ← fieldTypes resolver struct
            first types fun type => searchFrom resolver origin (idle.erase struct) type
          else pure .absent : Strict Search) =
        pure (resolver.searchStruct origin idle struct) := by
      intro struct hstruct
      unfold Resolver.searchStruct
      split
      · rfl
      · split
        · next hidle =>
          obtain ⟨decl, hdecl⟩ := Resolver.exists_struct_of_mem_directStructsFrom hstruct
          rw [fieldTypes_eq hdecl, pure_bind]
          exact first_eq fun type htype => ih _ (hlength ▸ Resolver.length_erase_lt hidle) _
            (holds_of_mem_fieldTypes htype) rfl
        · rfl
    have hdirect : directStructs resolver type = pure (resolver.directStructs type) :=
      directStructsFrom_eq h resolver.typedefs htype
    rw [searchFrom, Resolver.searchFrom, hdirect, pure_bind, first_eq hlook, pure_bind]
    change _ = pure (match Search.first _ (resolver.searchStruct origin idle) with
      | .absent => _
      | outcome => outcome)
    cases Search.first (resolver.directStructs type).structs (resolver.searchStruct origin idle) <;>
      rfl

theorem cyclicField?_eq (h : resolver.IsClosed) {struct : DeclRef} {fields : List Field}
    (hfields : ∀ field ∈ fields, resolver.program.Holds struct.tree field.toNode)
    (hends : ∀ field ∈ fields, resolver.search struct ⟨struct.tree, field.type⟩ ≠ .endless) :
    cyclicField? resolver struct fields = pure (resolver.cyclicField? struct fields) := by
  induction fields with
  | nil => rfl
  | cons field fields ih =>
    obtain ⟨hfield, hfields⟩ := List.forall_mem_cons.1 hfields
    obtain ⟨hend, hends⟩ := List.forall_mem_cons.1 hends
    have hsearch : search resolver struct ⟨struct.tree, field.type⟩ =
        pure (resolver.search struct ⟨struct.tree, field.type⟩) :=
      searchFrom_eq h struct resolver.structs (hfield.trans field.contains_type)
    rw [cyclicField?, openNode_eq hfield, pure_bind, hsearch, pure_bind, Resolver.cyclicField?]
    cases houtcome : resolver.search struct ⟨struct.tree, field.type⟩ with
    | found => rfl
    | absent => exact ih hfields hends
    | endless => exact absurd houtcome hend

theorem checkStructCycle_eq (h : resolver.IsClosed) (hunnested : resolver.FieldsUnnested)
    {struct : DeclRef} {decl : StructDecl}
    (hstruct : resolver.declaration? struct = some (.struct decl)) :
    checkStructCycle resolver struct decl = liftM (resolver.checkStructCycle struct decl) := by
  have hheld := Program.holds_of_declaration? hstruct
  have hfields : ∀ field ∈ decl.fields, resolver.program.Holds struct.tree field.toNode :=
    fun field hfield => hheld.trans (StructDecl.contains_field hfield)
  have hends : ∀ field ∈ decl.fields,
      resolver.search struct ⟨struct.tree, field.type⟩ ≠ .endless := by
    intro field hfield
    refine Resolver.search_ne_endless hunnested struct (hunnested struct _ ?_)
    rw [Resolver.fieldTypes, hstruct]
    exact List.mem_map_of_mem hfield
  have hown : resolver.program.Holds struct.tree decl.name.toNode :=
    hheld.trans (Declaration.struct decl).contains_name
  rw [checkStructCycle, cyclicField?_eq h hfields hends, pure_bind]
  split
  · next field hfield =>
    have hname := (hfields field (resolver.mem_of_cyclicField? hfield)).trans field.contains_name
    rw [openNode_eq hname, pure_bind, openNode_eq hown, pure_bind]
  · rfl

theorem descendsFrom_eq (h : resolver.IsClosed) (service : DeclRef) (unvisited : List DeclRef)
    {current : DeclRef} {found : Declaration}
    (hfound : resolver.declaration? current = some found) :
    descendsFrom resolver service unvisited current =
      pure (resolver.descendsFrom service unvisited current) := by
  induction hlength : unvisited.length using Nat.strong_induction_on
    generalizing unvisited current found with
  | _ length ih =>
    rw [descendsFrom, Resolver.descendsFrom, parent?_eq h hfound, pure_bind]
    cases hparent : resolver.parent? current with
    | none => rfl
    | some parent =>
      obtain ⟨decl, hdecl⟩ := Resolver.exists_service_of_parent? hparent
      simp only
      split
      · rfl
      · split
        · next hmem => exact ih _ (hlength ▸ Resolver.length_erase_lt hmem) _ hdecl rfl
        · rfl

theorem checkServiceCycle_eq (h : resolver.IsClosed) {service : DeclRef} {decl : ServiceDecl}
    (hservice : resolver.declaration? service = some (.service decl)) :
    checkServiceCycle resolver service decl = liftM (resolver.checkServiceCycle service decl) := by
  rw [checkServiceCycle, extendsItself,
    descendsFrom_eq h service resolver.program.declRefs hservice, pure_bind]
  split
  · split
    · next parent hparent =>
      rw [openNode_eq ((Program.holds_of_declaration? hservice).trans
        (ServiceDecl.contains_parent hparent)), pure_bind]
    · rfl
  · rfl

theorem checkCycles_eq (h : resolver.IsClosed) (hunnested : resolver.FieldsUnnested) {here : Nat}
    {tree : SourceTree} (htree : resolver.program.trees[here]? = some tree) :
    checkCycles resolver here tree.document = liftM (resolver.checkCycles here tree.document) := by
  refine forM_eq_liftM fun item hitem => ?_
  obtain ⟨declaration, index⟩ := item
  have hdecl : resolver.declaration? ⟨here, index⟩ = some declaration :=
    declaration?_of_mem_zipIdx htree hitem
  have hheld : resolver.program.Holds here declaration.toNode :=
    Program.holds_of_declaration? hdecl
  simp only
  rw [openNode_eq hheld, pure_bind]
  cases declaration with
  | struct decl => exact checkStructCycle_eq h hunnested hdecl
  | service decl => exact checkServiceCycle_eq h hdecl
  | _ => exact (liftM_pure _).symm

end

end Strict
end Idl
