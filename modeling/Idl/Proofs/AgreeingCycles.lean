import Idl.Proofs.AgreeingReports
import Idl.Proofs.Agreement
import Idl.Proofs.StructSearch

/-!
# Cycles under resolvers that agree

Searches of types that agree have the same outcome, and services with the same parents extend
themselves alike, so that the same is reported about cycles.
-/
namespace Idl

open Reporting Relation

namespace Resolver

variable {old new : Resolver} {image : DeclRef → DeclRef}

/-! ### Structs -/

/-- Lists of idle declarations that correspond, without repetitions. -/
structure SameIdle (image : DeclRef → DeclRef) (idle idle' : List DeclRef) : Prop where
  nodup : idle.Nodup
  nodup' : idle'.Nodup
  mem_iff : ∀ ref, ref ∈ idle ↔ image ref ∈ idle'

theorem SameIdle.erase {idle idle' : List DeclRef} (hinjective : Function.Injective image)
    (h : SameIdle image idle idle') (ref : DeclRef) :
    SameIdle image (idle.erase ref) (idle'.erase (image ref)) where
  nodup := h.nodup.erase ref
  nodup' := h.nodup'.erase (image ref)
  mem_iff other := by
    rw [h.nodup.mem_erase_iff, h.nodup'.mem_erase_iff, h.mem_iff, hinjective.ne_iff]

namespace Agrees

variable (h : Agrees old new image)

include h

theorem fieldTypes (ref : DeclRef) :
    List.Forall₂ (TypesAgree old new image) (old.fieldTypes ref) (new.fieldTypes (image ref)) := by
  have hdeclared := h.declared ref
  unfold Resolver.fieldTypes
  generalize old.declaration? ref = declaration at hdeclared ⊢
  generalize new.declaration? (image ref) = declaration' at hdeclared ⊢
  cases hdeclared with
  | none => exact .nil
  | some hmatches =>
    cases hmatches with
    | struct hmatches =>
      rw [List.forall₂_map_left_iff, List.forall₂_map_right_iff]
      exact hmatches.fields.imp fun _ _ hfield => hfield.type
    | _ => exact .nil

theorem isStruct (ref : DeclRef) : old.isStruct ref = new.isStruct (image ref) := by
  have hdeclared := h.declared ref
  unfold Resolver.isStruct
  generalize old.declaration? ref = declaration at hdeclared ⊢
  generalize new.declaration? (image ref) = declaration' at hdeclared ⊢
  cases hdeclared with
  | none => rfl
  | some hmatches => cases hmatches <;> rfl

theorem sameIdle_structs : SameIdle image old.structs new.structs where
  nodup := (Program.nodup_declRefs _).filter _
  nodup' := (Program.nodup_declRefs _).filter _
  mem_iff ref := by rw [mem_structs_iff, mem_structs_iff, h.isStruct]

variable {origin : DeclRef} {idle idle' : List DeclRef} {type type' : LocatedType}

/-- What a search goes into at types that agree at their heads. -/
theorem opened (origin : DeclRef) (hidle : SameIdle image idle idle')
    (hheads : HeadsAgree old new image type type') :
    Option.Rel (fun inside inside' => SameIdle image inside.1 inside'.1 ∧
      List.Forall₂ (TypesAgree old new image) inside.2 inside'.2)
      (old.opened origin idle type) (new.opened (image origin) idle' type') := by
  have hdone : Option.Rel (fun inside inside' => SameIdle image inside.1 inside'.1 ∧
      List.Forall₂ (TypesAgree old new image) inside.2 inside'.2)
      (some (idle, [])) (some (idle', [])) := .some ⟨hidle, .nil⟩
  cases hheads with
  | builtin => exact hdone
  | list elements => exact .some ⟨hidle, .cons elements .nil⟩
  | map keys values => exact .some ⟨hidle, .cons keys (.cons values .nil)⟩
  | @name here here' name name' related =>
    unfold Resolver.opened
    simp only
    rcases related.binding_cases with
      ⟨hbound, hbound'⟩ | ⟨target, hbound, hbound'⟩ | ⟨_, _, _, _, _, hbound, hbound', -⟩
    · rw [hbound, hbound']
      exact hdone
    · rw [hbound, hbound']
      rcases optionRel_cases (h.declared target) with
        ⟨hdecl, hdecl'⟩ | ⟨_, _, hdecl, hdecl', hmatches⟩
      · simp only [hdecl, hdecl']
        exact hdone
      · simp only [hdecl, hdecl']
        cases hmatches with
        | typedef hmatches => exact .some ⟨hidle, .cons hmatches.type .nil⟩
        | struct hmatches =>
          simp only [h.injective.eq_iff, ← hidle.mem_iff]
          by_cases horigin : target = origin
          · rw [if_pos horigin, if_pos horigin]
            exact .none
          · rw [if_neg horigin, if_neg horigin]
            by_cases hmem : target ∈ idle
            · rw [if_pos hmem, if_pos hmem]
              exact .some ⟨hidle.erase h.injective target, h.fieldTypes target⟩
            · rw [if_neg hmem, if_neg hmem]
              exact hdone
        | _ => exact hdone
    · rw [hbound, hbound']
      exact hdone

theorem finds {types types' : List LocatedType} {found : Bool}
    (hfinds : old.Finds origin idle types found) (hidle : SameIdle image idle idle')
    (htypes : List.Forall₂ (TypesAgree old new image) types types') :
    new.Finds (image origin) idle' types' found := by
  induction hfinds generalizing idle' types' with
  | done =>
    cases htypes
    exact .done
  | here opens =>
    cases htypes with
    | cons head tail =>
      -- the new type may have to be followed through typedefs to a head like the old one
      obtain ⟨last', hchain, hheads⟩ := head.exists_heads
      have hopened := h.opened origin hidle hheads
      rw [opens] at hopened
      generalize hnew : new.opened _ _ _ = inside' at hopened
      cases hopened
      exact finds_of_chain hchain (.here hnew)
  | inside opens _ ih =>
    cases htypes with
    | cons head tail =>
      obtain ⟨last', hchain, hheads⟩ := head.exists_heads
      have hopened := h.opened origin hidle hheads
      rw [opens] at hopened
      generalize hnew : new.opened _ _ _ = inside' at hopened
      cases hopened with
      | some hsame => exact finds_of_chain hchain (.inside hnew (ih hsame.1 hsame.2))
  | past opens _ _ ih ihRest =>
    cases htypes with
    | cons head tail =>
      obtain ⟨last', hchain, hheads⟩ := head.exists_heads
      have hopened := h.opened origin hidle hheads
      rw [opens] at hopened
      generalize hnew : new.opened _ _ _ = inside' at hopened
      cases hopened with
      | some hsame =>
        exact finds_of_chain hchain (.past hnew (ih hsame.1 hsame.2) (ihRest hidle tail))

theorem finds_back {types types' : List LocatedType} {found : Bool}
    (hfinds : new.Finds (image origin) idle' types' found) (hidle : SameIdle image idle idle')
    (htypes : List.Forall₂ (TypesAgree old new image) types types') :
    old.Finds origin idle types found := by
  induction hfinds generalizing idle types with
  | done =>
    cases htypes
    exact .done
  | here opens =>
    cases htypes with
    | cons head tail =>
      -- where only the new type is a typedef name, the new search takes a step alone
      rcases head.heads_or_step with hheads | ⟨typedef, next, -, halias, -⟩
      · have hopened := h.opened origin hidle hheads
        rw [opens] at hopened
        generalize hold : old.opened _ _ _ = inside at hopened
        cases hopened
        exact .here hold
      · cases opens.symm.trans (opened_of_aliases halias)
  | inside opens _ ih =>
    cases htypes with
    | cons head tail =>
      rcases head.heads_or_step with hheads | ⟨typedef, next, -, halias, hnext⟩
      · have hopened := h.opened origin hidle hheads
        rw [opens] at hopened
        generalize hold : old.opened _ _ _ = inside at hopened
        cases hopened with
        | some hsame => exact .inside hold (ih hsame.1 hsame.2)
      · cases opens.symm.trans (opened_of_aliases halias)
        exact finds_cons_iff.2 (.inl ⟨ih hidle (.cons hnext .nil), rfl⟩)
  | past opens _ _ ih ihRest =>
    cases htypes with
    | cons head tail =>
      rcases head.heads_or_step with hheads | ⟨typedef, next, -, halias, hnext⟩
      · have hopened := h.opened origin hidle hheads
        rw [opens] at hopened
        generalize hold : old.opened _ _ _ = inside at hopened
        cases hopened with
        | some hsame => exact .past hold (ih hsame.1 hsame.2) (ihRest hidle tail)
      · cases opens.symm.trans (opened_of_aliases halias)
        exact finds_cons_iff.2 (.inr ⟨ih hidle (.cons hnext .nil), ihRest hidle tail⟩)

/-- Searches of types that agree have the same outcome. -/
theorem search (hresolve : old.TypesResolve) (hend : old.TypedefsEnd)
    (hresolve' : new.TypesResolve) (hend' : new.TypedefsEnd) (hproper : old.IsProper type)
    (hproper' : new.IsProper type') (htypes : TypesAgree old new image type type') :
    old.search origin type = new.search (image origin) type' := by
  have hiff (found : Bool) : old.search origin type = .outcome found ↔
      new.search (image origin) type' = .outcome found := by
    rw [Resolver.search, Resolver.search, searchFrom_eq_outcome_iff hresolve hend hproper,
      searchFrom_eq_outcome_iff hresolve' hend' hproper']
    exact ⟨fun hfinds => h.finds hfinds h.sameIdle_structs (.cons htypes .nil),
      fun hfinds => h.finds_back hfinds h.sameIdle_structs (.cons htypes .nil)⟩
  rcases Search.eq_outcome_or_endless (old.search origin type) with ⟨found, hfound⟩ | hendless
  · rw [hfound, (hiff found).1 hfound]
  · rcases Search.eq_outcome_or_endless (new.search (image origin) type') with
      ⟨found, hfound⟩ | hendless'
    · rw [(hiff found).2 hfound, hfound]
    · rw [hendless, hendless']

end Agrees

theorem cyclicField?_agree (here here' : DeclRef) {names : Name → Name → Prop}
    {types : TypeRef → TypeRef → Prop} {fields fields' : List Field}
    (hfields : List.Forall₂ (Field.Matches names types) fields fields')
    (hsearch : ∀ type type', types type type' →
      old.search here ⟨here.tree, type⟩ = new.search here' ⟨here'.tree, type'⟩) :
    Option.Rel (fun field field' : Field => field.name.text = field'.name.text)
      (old.cyclicField? here fields) (new.cyclicField? here' fields') := by
  induction hfields with
  | nil => exact .none
  | cons head _ ih =>
    unfold cyclicField?
    rw [hsearch _ _ head.type]
    split
    · exact .some head.name
    · exact ih
    · exact .none

/-- What is reported about the cycles that the declaration at a place is part of. -/
def checkCycle (resolver : Resolver) (here index : Nat) : Declaration → Reporting Unit
  | .struct decl => resolver.checkStructCycle ⟨here, index⟩ decl
  | .service decl => resolver.checkServiceCycle ⟨here, index⟩ decl
  | _ => pure ()

theorem reports_checkCycles (resolver : Resolver) (here : Nat) (document : Document) :
    (resolver.checkCycles here document).reports =
      document.declarations.zipIdx.flatMap fun (declaration, index) =>
        (resolver.checkCycle here index declaration).reports := by
  rw [checkCycles, reports_forM]
  rfl

/-! ### Services -/

namespace Agrees

variable (h : Agrees old new image)

include h

theorem parent? (service : DeclRef) :
    (old.parent? service).map image = new.parent? (image service) := by
  have hdeclared := h.declared service
  unfold Resolver.parent?
  generalize old.declaration? service = declaration at hdeclared ⊢
  generalize new.declaration? (image service) = declaration' at hdeclared ⊢
  cases hdeclared with
  | none => rfl
  | some hmatches =>
    cases hmatches with
    | @service decl decl' hmatches =>
      have hparent := hmatches.parent
      simp only
      generalize decl.parent = parent at hparent ⊢
      generalize decl'.parent = parent' at hparent ⊢
      cases hparent with
      | none => rfl
      | @some name name' related =>
        simp only [Option.bind_some]
        rcases related.binding_cases with
          ⟨hbound, hbound'⟩ | ⟨target, hbound, hbound'⟩ | ⟨_, _, _, _, _, hbound, hbound', -⟩
        · rw [hbound, hbound']
          rfl
        · rw [hbound, hbound']
          rcases optionRel_cases (h.declared target) with
            ⟨hdecl, hdecl'⟩ | ⟨_, _, hdecl, hdecl', hmatches⟩
          · simp only [hdecl, hdecl']
            rfl
          · simp only [hdecl, hdecl']
            cases hmatches <;> rfl
        · rw [hbound, hbound']
          rfl
    | _ => rfl

theorem sameIdle_declRefs : SameIdle image old.program.declRefs new.program.declRefs where
  nodup := Program.nodup_declRefs _
  nodup' := Program.nodup_declRefs _
  mem_iff ref := by
    rw [Program.mem_declRefs_iff, Program.mem_declRefs_iff]
    have hdeclared := h.declared ref
    change (old.declaration? ref).isSome ↔ (new.declaration? (image ref)).isSome
    generalize old.declaration? ref = declaration at hdeclared ⊢
    generalize new.declaration? (image ref) = declaration' at hdeclared ⊢
    cases hdeclared with
    | none => rfl
    | some _ => rfl

theorem descendsFrom (service : DeclRef) {unvisited unvisited' : List DeclRef} (current : DeclRef)
    (hunvisited : SameIdle image unvisited unvisited') :
    old.descendsFrom service unvisited current =
      new.descendsFrom (image service) unvisited' (image current) := by
  induction hlength : unvisited.length using Nat.strong_induction_on
    generalizing unvisited unvisited' current with
  | _ length ih =>
    rw [Resolver.descendsFrom, Resolver.descendsFrom, ← h.parent?]
    cases old.parent? current with
    | none => rfl
    | some parent =>
      simp only [Option.map_some, h.injective.eq_iff, ← hunvisited.mem_iff]
      by_cases hservice : parent = service
      · rw [if_pos hservice, if_pos hservice]
      · rw [if_neg hservice, if_neg hservice]
        by_cases hmem : parent ∈ unvisited
        · rw [if_pos hmem, if_pos hmem]
          exact ih _ (hlength ▸ length_erase_lt hmem) parent
            (hunvisited.erase h.injective parent) rfl
        · rw [if_neg hmem, if_neg hmem]

theorem extendsItself (service : DeclRef) :
    old.extendsItself service = new.extendsItself (image service) :=
  h.descendsFrom service service h.sameIdle_declRefs

end Agrees

/-- Declarations that agree are part of cycles alike. -/
theorem agree_checkCycle (h : Agrees old new image) (hresolve : old.TypesResolve)
    (hend : old.TypedefsEnd) (hresolve' : new.TypesResolve) (hend' : new.TypedefsEnd)
    {here here' index index' : Nat} (himage : image ⟨here, index⟩ = ⟨here', index'⟩)
    {declaration declaration' : Declaration}
    (hdecl : old.declaration? ⟨here, index⟩ = some declaration)
    (hdecl' : new.declaration? ⟨here', index'⟩ = some declaration')
    (hmatches : DeclarationsAgree old new image here here' declaration declaration') :
    Agree (fun _ _ => True) (old.checkCycle here index declaration)
      (new.checkCycle here' index' declaration') := by
  cases hmatches with
  | @struct decl decl' hmatches =>
    have hfields : List.Forall₂ (Field.Matches (NamesAgree old new image here here')
        fun type type' => old.search ⟨here, index⟩ ⟨here, type⟩ =
          new.search ⟨here', index'⟩ ⟨here', type'⟩) decl.fields decl'.fields := by
      refine forall₂_imp_mem hmatches.fields fun field hfield field' hfield' hmatches =>
        hmatches.imp (fun _ _ _ _ h => h) fun htypes => ?_
      rw [← himage]
      have hproper : old.IsProper ⟨here, field.type⟩ :=
        isProper_of_declaration? hresolve hdecl (List.mem_map_of_mem hfield)
      have hproper' : new.IsProper ⟨here', field'.type⟩ :=
        isProper_of_declaration? hresolve' hdecl' (List.mem_map_of_mem hfield')
      exact h.search hresolve hend hresolve' hend' hproper hproper' htypes
    have hcyclic := cyclicField?_agree ⟨here, index⟩ ⟨here', index'⟩ hfields fun _ _ h => h
    change Agree _ (old.checkStructCycle ⟨here, index⟩ decl)
      (new.checkStructCycle ⟨here', index'⟩ decl')
    unfold checkStructCycle
    generalize old.cyclicField? _ _ = field at hcyclic ⊢
    generalize new.cyclicField? _ _ = field' at hcyclic ⊢
    cases hcyclic with
    | none => exact agree_pure trivial
    | some hname => exact agree_error (by rw [hname, hmatches.name]) trivial
  | @service decl decl' hmatches =>
    have hparent := hmatches.parent
    change Agree _ (old.checkServiceCycle ⟨here, index⟩ decl)
      (new.checkServiceCycle ⟨here', index'⟩ decl')
    unfold checkServiceCycle
    rw [h.extendsItself, himage]
    generalize decl.parent = parent at hparent ⊢
    generalize decl'.parent = parent' at hparent ⊢
    cases hparent with
    | none => exact agree_pure trivial
    | some _ =>
      exact Agree.ite Iff.rfl (fun _ => agree_error rfl trivial) fun _ => agree_pure trivial
  | _ => exact agree_pure trivial

end Resolver

end Idl
