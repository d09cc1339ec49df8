import Idl.Proofs.StructCycles
import Idl.Proofs.Trails

/-!
# Services that extend themselves

Each service has at most one parent, so from each there is one way up, which ends or comes round.
The walk up from a service leaves off where it comes to a service that it has passed. It may do so
without having come back to where it began, if that service is not part of the cycle. If no walk
comes back, then all of them end.
-/
namespace Idl

open Relation Reporting

/-- The report says that a service extends itself. -/
def Report.isCyclicService (report : Report) : Bool :=
  report.message matches .cyclicService

namespace Resolver

/-- A service extends another. -/
def Extends (resolver : Resolver) (service parent : DeclRef) : Prop :=
  resolver.parent? service = some parent

variable {resolver : Resolver} {service parent current : DeclRef} {unvisited : List DeclRef}

theorem parent?_eq_some_iff : resolver.parent? service = some parent ↔
    ∃ decl name other, resolver.declaration? service = some (.service decl) ∧
      decl.parent = some name ∧ resolver.binding? service.tree name = some ⟨parent, []⟩ ∧
        resolver.declaration? parent = some (.service other) := by
  constructor
  · intro h
    unfold parent? at h
    split at h
    · next decl hdecl =>
      split at h
      · next target hbinding =>
        split at h
        · next other hother =>
          obtain rfl := Option.some.inj h
          obtain ⟨name, hname, hbinding⟩ := Option.bind_eq_some_iff.1 hbinding
          exact ⟨decl, name, other, hdecl, hname, hbinding, hother⟩
        · cases h
      · cases h
    · cases h
  · rintro ⟨decl, name, other, hdecl, hname, hbinding, hother⟩
    simp only [parent?, hdecl, hname, Option.bind_some, hbinding, hother]

theorem Extends.mem_declRefs (h : resolver.Extends service parent) :
    parent ∈ resolver.program.declRefs := by
  obtain ⟨-, -, other, -, -, -, hother⟩ := parent?_eq_some_iff.1 h
  exact (Program.mem_declRefs_iff _ _).2 (Option.isSome_iff_exists.2 ⟨_, hother⟩)

theorem mem_declRefs_of_marked (resolver : Resolver) ⦃service mark parent : DeclRef⦄
    (h : Marked resolver.Extends service mark parent) : mark ∈ resolver.program.declRefs := by
  obtain ⟨hextends, rfl⟩ := h
  exact hextends.mem_declRefs

/-! ### The walk up -/

theorem descendsFrom_of_extends (h : resolver.Extends current parent) :
    resolver.descendsFrom service unvisited current =
      if parent = service then true
      else if parent ∈ unvisited then
        resolver.descendsFrom service (unvisited.erase parent) parent
      else false := by
  rw [Extends] at h
  rw [descendsFrom, h]

theorem transGen_of_descendsFrom (h : resolver.descendsFrom service unvisited current = true) :
    TransGen resolver.Extends current service := by
  induction hlength : unvisited.length using Nat.strong_induction_on
    generalizing unvisited current with
  | _ length ih =>
    rw [descendsFrom] at h
    split at h
    · cases h
    · next parent hparent =>
      -- each parent that is passed leaves the unvisited services
      split at h
      · next heq => exact .single (heq ▸ hparent)
      · split at h
        · next hmem => exact .head hparent (ih _ (hlength ▸ length_erase_lt hmem) h rfl)
        · cases h

/-- The walk goes all the way up to a service if it passes no other twice. -/
theorem descendsFrom_of_trail {ancestors : List DeclRef}
    (h : Trail (Marked resolver.Extends) current (ancestors ++ [service]) service)
    (hnodup : (ancestors ++ [service]).Nodup) (hunvisited : ancestors ⊆ unvisited) :
    resolver.descendsFrom service unvisited current = true := by
  induction ancestors generalizing current unvisited with
  | nil =>
    obtain ⟨parent, ⟨hparent, rfl⟩, -⟩ := h.exists_of_cons
    rw [descendsFrom_of_extends hparent, if_pos rfl]
  | cons ancestor ancestors ih =>
    obtain ⟨parent, ⟨hparent, rfl⟩, hrest⟩ := h.exists_of_cons
    rw [List.cons_append, List.nodup_cons, List.mem_append, List.mem_singleton, not_or] at hnodup
    obtain ⟨⟨hnew, hservice⟩, hnodup⟩ := hnodup
    obtain ⟨hmem, hothers⟩ := List.cons_subset.1 hunvisited
    rw [descendsFrom_of_extends hparent, if_neg hservice, if_pos hmem]
    exact ih hrest hnodup (subset_erase hnew hothers)

/-- A service is found to extend itself exactly if it does so by some steps. -/
theorem extendsItself_iff (service : DeclRef) :
    resolver.extendsItself service = true ↔ TransGen resolver.Extends service service := by
  refine ⟨transGen_of_descendsFrom, fun h => ?_⟩
  obtain ⟨ancestors, htrail⟩ := transGen_iff_exists_trail.1 h
  obtain ⟨ancestors, htrail, hnodup⟩ := htrail.exists_nodup_concat (guiding_marked _)
  refine descendsFrom_of_trail htrail hnodup fun ancestor hancestor => ?_
  have hall := htrail.forall_mem resolver.mem_declRefs_of_marked
  exact hall ancestor (List.mem_append_left _ hancestor)

theorem transGen_of_endless (h : Endless (Marked resolver.Extends) service) :
    ∃ cyclic, TransGen resolver.Extends cyclic cyclic := by
  obtain ⟨-, ancestor, between, next, -, hround⟩ :=
    h.exists_round resolver.mem_declRefs_of_marked (guiding_marked _)
  obtain ⟨_, -, -, rfl⟩ := hround.exists_of_concat
  exact ⟨ancestor, transGen_iff_exists_trail.2 ⟨between, hround⟩⟩

theorem exists_parent_of_transGen (h : TransGen resolver.Extends service service) :
    ∃ decl name, resolver.declaration? service = some (.service decl) ∧
      decl.parent = some name := by
  obtain ⟨parent, hparent, -⟩ := TransGen.head'_iff.1 h
  obtain ⟨decl, name, -, hdecl, hname, -, -⟩ := parent?_eq_some_iff.1 hparent
  exact ⟨decl, name, hdecl, hname⟩

/-- The walk up from a service ends or comes round. -/
theorem exists_walk (resolver : Resolver) (service : DeclRef) :
    ∃ ancestors last, Trail (Marked resolver.Extends) service ancestors last ∧
      ancestors.length ≤ resolver.program.declRefs.length ∧
        (resolver.parent? last = none ∨
          ∃ ancestor ∈ ancestors, resolver.Extends last ancestor) := by
  obtain ⟨ancestors, last, htrail, hnodup, hstop⟩ :=
    exists_trail resolver.mem_declRefs_of_marked service
  refine ⟨ancestors, last, htrail, htrail.length_le resolver.mem_declRefs_of_marked hnodup, ?_⟩
  rcases hstop with hend | ⟨ancestor, hmem, _, hextends, rfl⟩
  · exact .inl (Option.eq_none_iff_forall_ne_some.2 fun parent hparent =>
      hend parent parent ⟨hparent, rfl⟩)
  · exact .inr ⟨_, hmem, hextends⟩

/-- If no service extends itself, then the walk up from each service ends. -/
theorem walks_end (h : ∀ service, ¬ TransGen resolver.Extends service service)
    (service : DeclRef) :
    ¬ Endless (Marked resolver.Extends) service ∧
      ∃ ancestors last, Trail (Marked resolver.Extends) service ancestors last ∧
        resolver.parent? last = none := by
  -- a walk without end comes round, and so the service where it does so extends itself
  have hends : ¬ Endless (Marked resolver.Extends) service := by
    intro hendless
    obtain ⟨cyclic, hcyclic⟩ := transGen_of_endless hendless
    exact h cyclic hcyclic
  refine ⟨hends, ?_⟩
  obtain ⟨ancestors, last, htrail, -, hend | ⟨ancestor, hmem, hextends⟩⟩ :=
    resolver.exists_walk service
  · exact ⟨ancestors, last, htrail, hend⟩
  · exact absurd (endless_of_mem (guiding_marked _) (htrail.concat ⟨hextends, rfl⟩) hmem) hends

/-! ### Reports -/

/-- The services of a file that are reported, each with its place and the name of its parent. -/
def cyclicServices (resolver : Resolver) (here : Nat) (document : Document) :
    List (Nat × ServiceDecl × Name) :=
  document.declarations.zipIdx.filterMap fun (declaration, index) =>
    match declaration with
    | .service decl =>
      if resolver.extendsItself ⟨here, index⟩ then decl.parent.map (index, decl, ·) else none
    | _ => none

/-- What is reported about a service that extends itself. -/
def cyclicServiceReport (cyclic : Nat × ServiceDecl × Name) : Report :=
  .error cyclic.2.2.span .cyclicService

theorem filter_isCyclicService_checkCycles (here : Nat) (document : Document) :
    (resolver.checkCycles here document).reports.filter Report.isCyclicService =
      (resolver.cyclicServices here document).map cyclicServiceReport := by
  rw [checkCycles, reports_forM, List.filter_flatMap, cyclicServices, List.map_filterMap,
    List.filterMap_eq_flatMap_toList]
  congr 1
  funext item
  obtain ⟨declaration, index⟩ := item
  cases declaration with
  | struct decl =>
    simp only [checkStructCycle]
    cases resolver.cyclicField? ⟨here, index⟩ decl.fields with
    | none => rfl
    | some field => rfl
  | service decl =>
    simp only [checkServiceCycle]
    cases decl.parent with
    | none => cases resolver.extendsItself ⟨here, index⟩ <;> rfl
    | some parent => cases resolver.extendsItself ⟨here, index⟩ <;> rfl
  | _ => rfl

theorem mem_cyclicServices_iff (resolver : Resolver) (here : Nat) (document : Document)
    (index : Nat) (decl : ServiceDecl) (parent : Name) :
    (index, decl, parent) ∈ resolver.cyclicServices here document ↔
      document.declarations[index]? = some (.service decl) ∧ decl.parent = some parent ∧
        TransGen resolver.Extends ⟨here, index⟩ ⟨here, index⟩ := by
  simp only [cyclicServices, List.mem_filterMap, Prod.exists, List.mem_zipIdx_iff_getElem?,
    ← extendsItself_iff]
  constructor
  · rintro ⟨declaration, place, hdeclaration, hfound⟩
    cases declaration with
    | service other =>
      obtain ⟨hcyclic, hfound⟩ := Option.ite_none_right_eq_some.1 hfound
      obtain ⟨name, hname, heq⟩ := Option.map_eq_some_iff.1 hfound
      simp only [Prod.mk.injEq] at heq
      obtain ⟨rfl, rfl, rfl⟩ := heq
      exact ⟨hdeclaration, hname, hcyclic⟩
    | _ => cases hfound
  · rintro ⟨hdeclaration, hname, hcyclic⟩
    refine ⟨.service decl, index, hdeclaration, ?_⟩
    simp only
    rw [if_pos hcyclic, hname, Option.map_some]

theorem pairwise_cyclicServices (here : Nat) (document : Document) :
    (resolver.cyclicServices here document).Pairwise fun first second => first.1 < second.1 := by
  refine pairwise_filterMap_zipIdx (fun declaration index cyclic hcyclic => ?_) _
  cases declaration with
  | service decl =>
    obtain ⟨-, hcyclic⟩ := Option.ite_none_right_eq_some.1 hcyclic
    obtain ⟨name, -, rfl⟩ := Option.map_eq_some_iff.1 hcyclic
    rfl
  | _ => cases hcyclic

/-- If no service is reported, then none extends itself. -/
theorem not_transGen_of_forall_reports
    (h : ∀ number tree, resolver.program.trees[number]? = some tree →
      ∀ report ∈ (resolver.checkCycles number tree.document).reports,
        report.isCyclicService = false) (service : DeclRef) :
    ¬ TransGen resolver.Extends service service := by
  intro hcyclic
  obtain ⟨decl, name, hdecl, hname⟩ := exists_parent_of_transGen hcyclic
  obtain ⟨tree, htree, hget⟩ := Option.bind_eq_some_iff.1 hdecl
  have hmem : (service.index, decl, name) ∈ resolver.cyclicServices service.tree tree.document :=
    (mem_cyclicServices_iff _ _ _ _ _ _).2 ⟨hget, hname, hcyclic⟩
  have hreport := List.mem_map_of_mem (f := cyclicServiceReport) hmem
  rw [← filter_isCyclicService_checkCycles] at hreport
  obtain ⟨hreport, hkind⟩ := List.mem_filter.1 hreport
  rw [h service.tree tree htree _ hreport] at hkind
  cases hkind

/-- Service cycles are found exactly. The walk up from a service ends or comes round within as many
steps as there are declarations. The reports about services in a file are one for each service that
extends itself by some steps, in source order, at the name of its parent. If there are none in any
file, then the walk up from each service ends. -/
theorem reports_checkCycles_services (resolver : Resolver) :
    (∀ service, ∃ ancestors last, Trail (Marked resolver.Extends) service ancestors last ∧
      ancestors.length ≤ resolver.program.declRefs.length ∧
        (resolver.parent? last = none ∨ ∃ ancestor ∈ ancestors, resolver.Extends last ancestor)) ∧
    (∀ number tree, resolver.program.trees[number]? = some tree →
      ∃ cyclic : List (Nat × ServiceDecl × Name),
        cyclic.Pairwise (fun first second => first.1 < second.1) ∧
        (∀ index decl, tree.document.declarations[index]? = some (.service decl) →
          (TransGen resolver.Extends ⟨number, index⟩ ⟨number, index⟩ ↔
            ∃ parent, decl.parent = some parent ∧ (index, decl, parent) ∈ cyclic)) ∧
        (∀ index decl parent, (index, decl, parent) ∈ cyclic →
          tree.document.declarations[index]? = some (.service decl) ∧
            decl.parent = some parent) ∧
        (resolver.checkCycles number tree.document).reports.filter Report.isCyclicService =
          cyclic.map cyclicServiceReport) ∧
    ((∀ number tree, resolver.program.trees[number]? = some tree →
      ∀ report ∈ (resolver.checkCycles number tree.document).reports,
        report.isCyclicService = false) →
      ∀ service, ¬ Endless (Marked resolver.Extends) service ∧
        ∃ ancestors last, Trail (Marked resolver.Extends) service ancestors last ∧
          resolver.parent? last = none) := by
  refine ⟨resolver.exists_walk, fun number tree htree => ?_, fun hnone => walks_end fun service =>
    not_transGen_of_forall_reports hnone service⟩
  have hmem := resolver.mem_cyclicServices_iff number tree.document
  refine ⟨resolver.cyclicServices number tree.document, pairwise_cyclicServices number _,
    fun index decl hdeclaration => ⟨fun hcyclic => ?_, ?_⟩, fun index decl parent hcyclic => ?_,
    filter_isCyclicService_checkCycles number _⟩
  · obtain ⟨other, name, hother, hname⟩ := exists_parent_of_transGen hcyclic
    have hdecl : resolver.declaration? ⟨number, index⟩ = some (.service decl) := by
      rw [declaration?, Program.declaration?, htree]
      exact hdeclaration
    cases hdecl.symm.trans hother
    exact ⟨name, hname, (hmem _ _ _).2 ⟨hdeclaration, hname, hcyclic⟩⟩
  · rintro ⟨parent, -, hcyclic⟩
    exact ((hmem _ _ _).1 hcyclic).2.2
  · obtain ⟨hdeclaration, hparent, -⟩ := (hmem _ _ _).1 hcyclic
    exact ⟨hdeclaration, hparent⟩

/-- A service that extends one of two that extend each other. -/
def ringTree : SourceTree where
  package := "ring"
  source := ⟨"ring.thrift", "service A extends B \x7b \x7d " ++
    "service B extends A \x7b \x7d service C extends A \x7b \x7d"⟩
  document :=
    { namespaces := []
      includes := []
      declarations := [
        .service ⟨⟨"A", ⟨8, 9⟩⟩, some ⟨⟨"B", ⟨18, 19⟩⟩, [], ⟨18, 19⟩⟩, [], ⟨0, 23⟩⟩,
        .service ⟨⟨"B", ⟨32, 33⟩⟩, some ⟨⟨"A", ⟨42, 43⟩⟩, [], ⟨42, 43⟩⟩, [], ⟨24, 47⟩⟩,
        .service ⟨⟨"C", ⟨56, 57⟩⟩, some ⟨⟨"A", ⟨66, 67⟩⟩, [], ⟨66, 67⟩⟩, [], ⟨48, 71⟩⟩]
      span := ⟨0, 71⟩ }
  includes := []

/-- The two are reported, and the third is not. -/
theorem reports_ringTree :
    TransGen (ofTree ringTree).Extends ⟨0, 0⟩ ⟨0, 0⟩ ∧
      TransGen (ofTree ringTree).Extends ⟨0, 1⟩ ⟨0, 1⟩ ∧
      ¬ TransGen (ofTree ringTree).Extends ⟨0, 2⟩ ⟨0, 2⟩ ∧
      ((ofTree ringTree).checkCycles 0 ringTree.document).reports =
        [.error ⟨18, 19⟩ .cyclicService, .error ⟨42, 43⟩ .cyclicService] := by
  obtain ⟨-, hcycles, -⟩ := reports_checkCycles_services (ofTree ringTree)
  obtain ⟨cyclic, hordered, hiff, hmem, hfilter⟩ := hcycles 0 ringTree rfl
  have hreports : ((ofTree ringTree).checkCycles 0 ringTree.document).reports =
      [.error ⟨18, 19⟩ .cyclicService, .error ⟨42, 43⟩ .cyclicService] := by
    decide +kernel
  rw [hreports] at hfilter
  have hspans : cyclic.map (fun found => found.2.2.span) = [⟨18, 19⟩, ⟨42, 43⟩] := by
    have hspan := congrArg (List.map Report.span) hfilter
    rw [List.map_map] at hspan
    exact hspan.symm
  have hfound : ∀ span ∈ [(⟨18, 19⟩ : Span), ⟨42, 43⟩], ∃ index,
      TransGen (ofTree ringTree).Extends ⟨0, index⟩ ⟨0, index⟩ ∧
        (index, span) ∈ [(0, (⟨18, 19⟩ : Span)), (1, ⟨42, 43⟩), (2, ⟨66, 67⟩)] := by
    intro span hspan
    rw [← hspans] at hspan
    obtain ⟨⟨index, decl, parent⟩, hcyclic, rfl⟩ := List.mem_map.1 hspan
    obtain ⟨hdecl, hparent⟩ := hmem index decl parent hcyclic
    refine ⟨index, (hiff index decl hdecl).2 ⟨parent, hparent, hcyclic⟩, ?_⟩
    rcases index with _ | _ | _ | _
    all_goals cases hdecl
    all_goals cases hparent
    all_goals simp
  refine ⟨?_, ?_, fun hthird => ?_, hreports⟩
  · obtain ⟨index, hcyclic, hplace⟩ := hfound ⟨18, 19⟩ (by simp)
    obtain rfl : index = 0 := by simpa using hplace
    exact hcyclic
  · obtain ⟨index, hcyclic, hplace⟩ := hfound ⟨42, 43⟩ (by simp)
    obtain rfl : index = 1 := by simpa using hplace
    exact hcyclic
  · obtain ⟨parent, hparent, hcyclic⟩ := (hiff 2 _ rfl).1 hthird
    cases hparent
    have hspan := List.mem_map_of_mem (f := fun found => found.2.2.span) hcyclic
    rw [hspans] at hspan
    simp at hspan

end Resolver
end Idl
