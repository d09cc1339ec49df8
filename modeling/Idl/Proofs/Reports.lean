import Idl.Analysis
import Idl.Proofs.Silence

/-!
# What reports are like

A property of all reports of a computation is a property of all reports of its parts. The parts of
the type check fall into two kinds: those that check types make only messages about types, and
those that coerce initializers or check orders make none.
-/
namespace Idl

namespace Reporting

variable {α β : Type} {P : Report → Prop}

/-- All reports have a property. -/
def All (P : Report → Prop) (x : Reporting α) : Prop :=
  ∀ report ∈ x.reports, P report

theorem all_pure (a : α) : (pure a : Reporting α).All P :=
  fun _ hreport => absurd hreport List.not_mem_nil

theorem all_bind_iff (x : Reporting α) (f : α → Reporting β) :
    (x >>= f).All P ↔ x.All P ∧ (f x.value).All P := by
  simp only [All, reports_bind, List.mem_append, or_imp, forall_and]

theorem All.bind {x : Reporting α} {f : α → Reporting β} (hx : x.All P)
    (hf : ∀ a, (f a).All P) : (x >>= f).All P :=
  (all_bind_iff x f).2 ⟨hx, hf x.value⟩

theorem all_report {report : Report} (h : P report) : (Reporting.report report).All P := by
  intro other hother
  obtain rfl := List.mem_singleton.1 hother
  exact h

theorem all_error {span : Span} {message : Message} (h : P (.error span message)) :
    (error span message).All P :=
  all_report h

theorem All.ite {x y : Reporting α} {c : Prop} [Decidable c] (hx : x.All P) (hy : y.All P) :
    (if c then x else y).All P := by
  split
  · exact hx
  · exact hy

theorem all_forM_iff (f : α → Reporting Unit) (items : List α) :
    (items.forM f).All P ↔ ∀ item ∈ items, (f item).All P := by
  induction items with
  | nil => simp [all_pure]
  | cons head items ih =>
    change (f head >>= fun _ => items.forM f).All P ↔ _
    rw [all_bind_iff, ih]
    simp

theorem all_foldlM {f : β → α → Reporting β} {items : List α}
    (h : ∀ b, ∀ item ∈ items, (f b item).All P) (b : β) : (items.foldlM f b).All P :=
  forall_reports_foldlM h

/-- If the steps of a fold report the same whatever was computed before, then the fold reports what
its steps report. -/
theorem reports_foldlM {f : β → α → Reporting β} {reports : α → List Report}
    (h : ∀ b item, (f b item).reports = reports item) (items : List α) (b : β) :
    (items.foldlM f b).reports = items.flatMap reports := by
  induction items generalizing b with
  | nil => rfl
  | cons head items ih => rw [List.foldlM_cons, reports_bind, h, ih, List.flatMap_cons]

theorem reports_forM (f : α → Reporting Unit) (items : List α) :
    (items.forM f).reports = items.flatMap fun item => (f item).reports := by
  induction items with
  | nil => rfl
  | cons head items ih =>
    change (f head >>= fun _ => items.forM f).reports = _
    rw [reports_bind, ih, List.flatMap_cons]

/-- What is made of each item, when no place matters. -/
theorem flatMap_fst_zipIdx (f : α → List β) (items : List α) :
    (items.zipIdx.flatMap fun item => f item.1) = items.flatMap f := by
  have hmap := List.flatMap_map (Prod.fst : α × Nat → α) f items.zipIdx
  rw [List.zipIdx_map_fst] at hmap
  exact hmap.symm

/-- What is made of each item and those before it. -/
theorem flatMap_zipIdx_take_cons (f : List α → α → List β) (before : List α) (item : α)
    (items : List α) :
    ((item :: items).zipIdx.flatMap fun (other, place) =>
        f (before ++ (item :: items).take place) other) =
      f before item ++ items.zipIdx.flatMap fun (other, place) =>
        f (before ++ [item] ++ items.take place) other := by
  rw [List.zipIdx_cons', List.flatMap_cons, List.flatMap_map]
  simp

/-- If a fold keeps track of the items it has passed, and what a step reports depends on these, then
so does what the fold reports at each item. -/
theorem reports_foldlM_of_tracks {f : β → α → Reporting β} {tracks : β → List α → Prop}
    {reports : List α → α → List Report}
    (hreports : ∀ {b before}, tracks b before → ∀ item, (f b item).reports = reports before item)
    (htracks : ∀ {b before}, tracks b before → ∀ item,
      tracks (f b item).value (before ++ [item]))
    {b : β} {before : List α} (h : tracks b before) (items : List α) :
    (items.foldlM f b).reports = items.zipIdx.flatMap fun (item, place) =>
      reports (before ++ items.take place) item := by
  induction items generalizing b before with
  | nil => rfl
  | cons item items ih =>
    rw [List.foldlM_cons, reports_bind, hreports h, ih (htracks h item),
      flatMap_zipIdx_take_cons reports]

/-- A property and its opposite hold of all reports only if there are none. -/
theorem silent_of_all {x : Reporting α} (h : x.All P) (hnot : x.All fun report => ¬ P report) :
    x.Silent :=
  List.eq_nil_iff_forall_not_mem.2 fun report hreport => hnot report hreport (h report hreport)

theorem Silent.all {x : Reporting α} (h : x.Silent) : x.All P := by
  intro report hreport
  rw [show x.reports = [] from h] at hreport
  exact absurd hreport List.not_mem_nil

end Reporting

open Reporting

/-- The message finds fault with a type or with the name of a parent service. -/
def Message.FaultsType : Message → Prop
  | notAType _ => True
  | voidNotAllowed => True
  | cyclicTypedef _ => True
  | notAnException _ => True
  | notAService _ => True
  | _ => False

/-- The report finds fault with a type or with the name of a parent service. -/
def Report.FaultsType (report : Report) : Prop :=
  report.message.FaultsType

/-- A property of errors that find fault with types. -/
def CoversFaults (P : Report → Prop) : Prop :=
  ∀ (span : Span) (message : Message), message.FaultsType → P (.error span message)

/-- A property of errors that find no fault with types. -/
def CoversOthers (P : Report → Prop) : Prop :=
  ∀ (span : Span) (message : Message), ¬ message.FaultsType → P (.error span message)

variable {P : Report → Prop}

/-! ### Checking types -/

namespace Resolver

variable (resolver : Resolver) (here : Nat)

theorem all_affirmType (hP : CoversFaults P) (type : TypeRef) :
    (resolver.affirmType here type).All P := by
  induction type with
  | builtin type span => exact all_pure _
  | list element span ih => exact ih
  | map key value span ihKey ihValue => exact ihKey.bind fun _ => ihValue.bind fun _ => all_pure _
  | name name =>
    unfold affirmType
    split
    · exact all_pure _
    · exact (all_pure _).ite (All.bind (all_error (hP _ _ trivial)) fun _ => all_pure _)

theorem all_checkVoid (hP : CoversFaults P) (allowed : Bool) (type : TypeRef) :
    (resolver.checkVoid here allowed type).All P := by
  induction type generalizing allowed with
  | builtin type span => exact All.ite (all_error (hP _ _ trivial)) (all_pure _)
  | list element span ih => exact ih false
  | map key value span ihKey ihValue => exact (ihKey false).bind fun _ => ihValue false
  | name name =>
    refine (all_pure _).ite ?_
    split
    · exact all_error (hP _ _ trivial)
    · exact all_pure _

theorem all_checkException (hP : CoversFaults P) (type : TypeRef) :
    (resolver.checkException here type).All P := by
  unfold checkException
  split
  · exact all_pure _
  · split
    · exact all_pure _
    · exact all_error (hP _ _ trivial)

theorem all_checkParent (hP : CoversFaults P) (name : Name) :
    (resolver.checkParent here name).All P := by
  unfold checkParent
  split
  · exact all_pure _
  · split
    · exact all_pure _
    · exact all_error (hP _ _ trivial)

end Resolver

/-! ### Orders and initializers -/

theorem all_checkOrdering (hP : CoversOthers P) (item : OrderedItem) (entries : List OrderedName) :
    (checkOrdering item entries).All P := by
  refine (all_foldlM (fun seen entry _ => ?_) []).bind fun _ => all_pure _
  obtain ⟨order, name⟩ := entry
  unfold OrderedName.check
  cases order with
  | none => exact (all_error (hP _ _ id)).bind fun _ => all_pure _
  | some literal =>
    obtain ⟨value, span⟩ := literal
    have hrest : ∀ seen : OrderedName.Seen, (do
        if value ≤ 0 then
          Reporting.error span (.nonPositiveOrder item name.text)
        return seen).All P :=
      fun seen => All.ite ((all_error (hP _ _ id)).bind fun _ => all_pure _) (all_pure _)
    simp only
    split
    · exact (all_error (hP _ _ id)).bind fun _ => all_pure _
    · cases seen.lookup value with
      | none => exact hrest _
      | some previous => exact (all_error (hP _ _ id)).bind fun _ => hrest _

theorem Resolver.all_checkOneway (hP : CoversOthers P) (method : Method) :
    (checkOneway method).All P := by
  have hthrows : (if method.throws.isEmpty then pure () else
      Reporting.error method.name.span (.onewayThrows method.name.text)).All P :=
    (all_pure _).ite (all_error (hP _ _ id))
  exact hthrows.ite (All.bind (all_error (hP _ _ id)) fun _ => hthrows)

namespace Coercion

variable {resolver : Resolver} {here : Nat}

theorem all_refuse {α : Type} (hP : CoversOthers P) (span : Span) {message : Message}
    (h : ¬ message.FaultsType) : (refuse span message : Reporting (Option α)).All P :=
  (all_error (hP span message h)).bind fun _ => all_pure _

theorem all_builtin (hP : CoversOthers P) (type : Builtin) (expr : Expr) :
    (builtin type expr).All P := by
  unfold builtin
  split
  · exact all_pure _
  · exact (all_pure _).ite (all_refuse hP _ id)
  · exact all_pure _
  · exact all_pure _
  · exact all_refuse hP _ id

theorem all_enumEntry (hP : CoversOthers P) (wanted : DeclRef) (expr : Expr) :
    (enumEntry resolver here wanted expr).All P := by
  unfold enumEntry
  split
  · split
    · exact all_pure _
    · split
      · exact all_refuse hP _ id
      · exact all_refuse hP _ id
      · exact all_refuse hP _ id
      · split
        · exact all_refuse hP _ id
        · exact (all_refuse hP _ id).ite (all_pure _)
  · exact all_refuse hP _ id

theorem all_missingFields (hP : CoversOthers P) (span : Span) (decl : StructDecl)
    (given : List Nat) : (missingFields span decl given).All P :=
  ((all_forM_iff _ _).2 fun _ _ => all_error (hP _ _ id)).bind fun _ => all_pure _

theorem all_fieldKey (hP : CoversOthers P) (decl : StructDecl) (fields : Scope) (given : List Nat)
    (key : Expr) : (fieldKey decl fields given key).All P := by
  unfold fieldKey
  split
  · split
    · exact all_refuse hP _ id
    · exact (all_refuse hP _ id).ite (all_pure _)
  · exact all_refuse hP _ id

mutual

theorem all_coerce (hP : CoversOthers P) :
    ∀ (expr : Expr) (type : LocatedType), (coerce resolver here type expr).All P
  | expr, type => by
    rw [coerce]
    split
    · exact all_pure _
    · split
      · exact all_builtin hP _ _
      · split
        · exact (all_coerceElements hP _ _).bind fun _ => all_pure _
        · exact all_refuse hP _ id
      · split
        · exact (all_coerceEntries hP _ _ _).bind fun _ => all_pure _
        · exact all_refuse hP _ id
      · split
        · exact all_enumEntry hP _ _
        · split
          · split
            · exact all_pure _
            · exact (all_coerceFields hP _ _ _ _ _).bind fun _ =>
                (all_missingFields hP _ _ _).bind fun _ => all_pure _
          · exact all_refuse hP _ id
        · exact all_refuse hP _ id

theorem all_coerceElements (hP : CoversOthers P) :
    ∀ (exprs : List Expr) (type : LocatedType), (coerceElements resolver here type exprs).All P
  | [], _ => by
    rw [coerceElements]
    exact all_pure _
  | expr :: exprs, type => by
    rw [coerceElements]
    exact (all_coerce hP expr type).bind fun _ =>
      (all_coerceElements hP exprs type).bind fun _ => all_pure _

theorem all_coerceEntries (hP : CoversOthers P) :
    ∀ (entries : List (Expr × Expr)) (keyType valueType : LocatedType),
      (coerceEntries resolver here keyType valueType entries).All P
  | [], _, _ => by
    rw [coerceEntries]
    exact all_pure _
  | (key, value) :: entries, keyType, valueType => by
    rw [coerceEntries]
    exact (all_coerce hP key keyType).bind fun _ => (all_coerce hP value valueType).bind fun _ =>
      (all_coerceEntries hP entries keyType valueType).bind fun _ => all_pure _

theorem all_coerceFields (hP : CoversOthers P) :
    ∀ (entries : List (Expr × Expr)) (struct : DeclRef) (decl : StructDecl) (fields : Scope)
      (progress : FieldProgress),
        (coerceFields resolver here struct decl fields progress entries).All P
  | [], _, _, _, _ => by
    rw [coerceFields]
    exact all_pure _
  | (key, value) :: entries, struct, decl, fields, progress => by
    rw [coerceFields]
    refine (all_fieldKey hP decl fields progress.given key).bind fun found => ?_
    cases found with
    | none => exact all_coerceFields hP entries _ _ _ _
    | some found =>
      simp only
      cases fieldType? struct decl found.2 with
      | none => exact all_coerceFields hP entries _ _ _ _
      | some type =>
        exact (all_coerce hP value type).bind fun _ => all_coerceFields hP entries _ _ _ _

end

end Coercion

/-! ### Parts of the type check -/

namespace Resolver

variable (resolver : Resolver) (here : Nat)

theorem all_checkValueType_iff (type : TypeRef) :
    (resolver.checkValueType here type).All P ↔ (resolver.affirmType here type).All P ∧
      ((resolver.affirmType here type).value = true →
        (resolver.checkVoid here false type).All P) := by
  unfold checkValueType
  rw [all_bind_iff]
  cases (resolver.affirmType here type).value with
  | true => simp only [all_bind_iff, if_true, all_pure, and_true, forall_const]
  | false => simp only [Bool.false_eq_true, if_false, all_pure, false_implies]

theorem all_checkMethod_iff (method : Method) :
    (resolver.checkMethod here method).All P ↔
      (resolver.affirmType here method.returns).All P ∧
      (resolver.checkVoid here true method.returns).All P ∧
      (method.oneway = true → (checkOneway method).All P) ∧
      (∀ argument ∈ method.arguments, (resolver.checkValueType here argument.type).All P) ∧
      (checkOrdering .argument (method.arguments.map Argument.ordered)).All P ∧
      (∀ thrown ∈ method.throws, (resolver.affirmType here thrown.type).All P ∧
        ((resolver.affirmType here thrown.type).value = true →
          (resolver.checkException here thrown.type).All P)) ∧
      (checkOrdering .exception (method.throws.map Argument.ordered)).All P := by
  have hthrown : ∀ thrown : Argument, (do
      if ← resolver.affirmType here thrown.type then
        resolver.checkException here thrown.type : Reporting Unit).All P ↔
      (resolver.affirmType here thrown.type).All P ∧
        ((resolver.affirmType here thrown.type).value = true →
          (resolver.checkException here thrown.type).All P) := by
    intro thrown
    rw [all_bind_iff]
    cases (resolver.affirmType here thrown.type).value with
    | true => simp
    | false => simp [all_pure]
  unfold checkMethod
  cases method.oneway with
  | true => simp only [all_bind_iff, all_forM_iff, hthrown, if_true, all_pure, and_true,
      forall_const]
  | false => simp only [all_bind_iff, all_forM_iff, hthrown, Bool.false_eq_true, if_false,
      all_pure, and_true, false_implies, true_and]

theorem all_checkService_iff (decl : ServiceDecl) :
    (resolver.checkService here decl).All P ↔
      (∀ parent, decl.parent = some parent → (resolver.checkParent here parent).All P) ∧
      ∀ method ∈ decl.methods, (resolver.checkMethod here method).All P := by
  unfold checkService
  cases decl.parent with
  | none => simp only [all_forM_iff, reduceCtorEq, false_implies, implies_true, true_and]
  | some parent =>
    simp only [all_bind_iff, all_forM_iff, Option.some.injEq, forall_eq']

theorem all_checkField_iff (hP : CoversOthers P) (field : Field) :
    (resolver.checkField here field).All P ↔ (resolver.checkValueType here field.type).All P := by
  unfold checkField
  rw [all_bind_iff, and_iff_left_iff_imp]
  intro _
  split
  · split
    · exact Coercion.all_coerce hP _ _
    · exact all_pure _
  · exact all_pure _

theorem all_checkConstant_iff (hP : CoversOthers P) (decl : ConstantDecl) :
    (resolver.checkConstant here decl).All P ↔ (resolver.checkValueType here decl.type).All P := by
  unfold checkConstant
  rw [all_bind_iff, and_iff_left_iff_imp]
  intro _
  exact (Coercion.all_coerce hP _ _).ite (all_pure _)

theorem all_checkStruct_iff (hP : CoversOthers P) (decl : StructDecl) :
    (resolver.checkStruct here decl).All P ↔
      ∀ field ∈ decl.fields, (resolver.checkValueType here field.type).All P := by
  unfold checkStruct
  rw [all_bind_iff, and_iff_right (all_checkOrdering hP _ _)]
  have hstep : ∀ (defaults : List (Nat × Value)) (item : Field × Nat), (do
      let value ← resolver.checkField here item.1
      return defaults ++ (value.map (item.2, ·)).toList : Reporting _).reports =
        (resolver.checkField here item.1).reports :=
    fun _ _ => List.append_nil _
  rw [All, reports_foldlM hstep]
  simp only [List.mem_flatMap, forall_exists_index, and_imp]
  constructor
  · intro h field hfield
    obtain ⟨place, hplace⟩ := List.getElem?_of_mem hfield
    exact (resolver.all_checkField_iff here hP field).1 fun report =>
      h report (field, place) (List.mem_zipIdx_iff_getElem?.2 hplace)
  · intro h report item hitem
    have hfield := h item.1 (List.fst_mem_of_mem_zipIdx hitem)
    exact (resolver.all_checkField_iff here hP item.1).2 hfield report

theorem all_checkTypedef_iff (index : Nat) (decl : TypedefDecl) :
    (resolver.checkTypedef here index decl).All P ↔
      if resolver.typedefIsCyclic ⟨here, index⟩ then
        P (.error decl.name.span (.cyclicTypedef decl.name.text))
      else (resolver.checkValueType here decl.type).All P := by
  unfold checkTypedef
  split
  · exact ⟨fun h => h _ List.mem_cons_self, all_error⟩
  · rw [all_bind_iff, and_iff_left (all_pure _)]

theorem all_checkValueType (hP : CoversFaults P) (type : TypeRef) :
    (resolver.checkValueType here type).All P :=
  (resolver.all_checkValueType_iff here type).2
    ⟨resolver.all_affirmType here hP type, fun _ => resolver.all_checkVoid here hP false type⟩

theorem all_checkTypedef (hP : CoversFaults P) (index : Nat) (decl : TypedefDecl) :
    (resolver.checkTypedef here index decl).All P := by
  rw [all_checkTypedef_iff]
  split
  · exact hP _ _ trivial
  · exact resolver.all_checkValueType here hP decl.type

/-- What is reported about a declaration does not depend on the values found before it. -/
theorem reports_checkDeclaration (index : Nat) (values : Values) (declaration : Declaration) :
    (resolver.checkDeclaration here index values declaration).reports =
      (resolver.checkDeclaration here index .empty declaration).reports := by
  cases declaration <;> rfl

theorem all_checkTypes_iff (document : Document) :
    (resolver.checkTypes here document).All P ↔
      ∀ index declaration, document.declarations[index]? = some declaration →
        (resolver.checkDeclaration here index .empty declaration).All P := by
  rw [checkTypes, All, reports_foldlM fun values item =>
    resolver.reports_checkDeclaration here item.2 values item.1]
  simp only [All, List.mem_flatMap, forall_exists_index, and_imp, Prod.forall,
    List.mem_zipIdx_iff_getElem?]
  constructor
  · intro h index declaration hdeclaration report hreport
    exact h report declaration index hdeclaration hreport
  · intro h report declaration index hdeclaration
    exact h index declaration hdeclaration report

end Resolver
end Idl
