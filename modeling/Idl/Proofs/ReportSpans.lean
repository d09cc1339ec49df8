import Idl.Analysis
import Idl.Proofs.Bindings
import Idl.Proofs.NodeParts

/-!
# Where reports lie

Every phase reports only what lies at a node of the file that it looks at, and so do the notes under
its reports. The file is given by its nodes, and each step of a phase by the node that it is about.
-/
namespace Idl
open Node

mutual

/-- The spans of a report and of all notes under it. -/
def Report.spans : Report → List Span
  | ⟨_, span, _, also⟩ => span :: Report.spansAll also

def Report.spansAll : List Report → List Span
  | [] => []
  | report :: reports => report.spans ++ Report.spansAll reports

end

theorem Report.spans_error (span : Span) (message : Message) :
    (Report.error span message).spans = [span] := by
  rw [Report.error, spans, spansAll]

theorem Report.span_mem_spans (report : Report) : report.span ∈ report.spans := by
  obtain ⟨severity, span, message, also⟩ := report
  rw [spans]
  exact List.mem_cons_self

namespace Reporting

variable {α β : Type} {p : Span → Prop}

/-- The spans of all reports have a property. -/
def Within (p : Span → Prop) (x : Reporting α) : Prop :=
  ∀ report ∈ x.reports, ∀ span ∈ report.spans, p span

theorem within_pure (a : α) : (pure a : Reporting α).Within p :=
  fun _ hreport => absurd hreport List.not_mem_nil

theorem within_error {span : Span} (h : p span) (message : Message) :
    (error span message).Within p := by
  intro report hreport other hother
  obtain rfl := List.mem_singleton.1 hreport
  rw [Report.spans_error, List.mem_singleton] at hother
  exact hother ▸ h

theorem Within.bind {x : Reporting α} {f : α → Reporting β} (hx : x.Within p)
    (hf : ∀ a, (f a).Within p) : (x >>= f).Within p := by
  intro report hreport
  rcases List.mem_append.1 hreport with hreport | hreport
  · exact hx report hreport
  · exact hf x.value report hreport

theorem Within.ite {x y : Reporting α} {c : Prop} [Decidable c] (hx : x.Within p)
    (hy : y.Within p) : (if c then x else y).Within p := by
  split
  · exact hx
  · exact hy

theorem within_foldlM {f : β → α → Reporting β} {items : List α}
    (h : ∀ b, ∀ item ∈ items, (f b item).Within p) (b : β) : (items.foldlM f b).Within p :=
  forall_reports_foldlM h

/-- A fold whose steps keep an invariant of the state. -/
theorem within_foldlM_of_invariant (I : β → Prop) {f : β → α → Reporting β} {items : List α}
    (h : ∀ b, ∀ item ∈ items, I b → (f b item).Within p ∧ I (f b item).value) {b : β} (hb : I b) :
    (items.foldlM f b).Within p := by
  induction items generalizing b with
  | nil => exact within_pure b
  | cons item items ih =>
    obtain ⟨hstep, hvalue⟩ := h b item List.mem_cons_self hb
    intro report hreport
    rw [List.foldlM_cons, reports_bind, List.mem_append] at hreport
    rcases hreport with hreport | hreport
    · exact hstep report hreport
    · exact ih (fun b other hother => h b other (List.mem_cons_of_mem _ hother)) hvalue report
        hreport

theorem within_forM {f : α → Reporting Unit} {items : List α}
    (h : ∀ item ∈ items, (f item).Within p) : (items.forM f).Within p :=
  forall_reports_forM h

theorem within_refuse {span : Span} (h : p span) (message : Message) :
    (Coercion.refuse span message : Reporting (Option α)).Within p :=
  (within_error h message).bind fun _ => within_pure _

end Reporting

open Reporting

/-! ### Entering symbols -/

namespace Scope

variable {p : Span → Prop} {scope : Scope} {symbol : Symbol}

/-- The names in a scope lie at spans with a property. -/
def Within (p : Span → Prop) (scope : Scope) : Prop :=
  ∀ symbol ∈ scope, p symbol.name.span

theorem within_declare (hscope : scope.Within p) (h : p symbol.name.span) :
    (scope.declare symbol).Within p := by
  unfold declare
  cases hfirst : scope.find? symbol.name.text with
  | none => exact within_pure _
  | some first =>
    refine Within.bind ?_ fun _ => within_pure _
    intro report hreport span hspan
    obtain rfl := List.mem_singleton.1 hreport
    have hspans : (redeclaration symbol first).spans = [symbol.name.span, first.name.span] := by
      simp [redeclaration, Report.error, Report.note, Report.spans, Report.spansAll]
    rw [hspans] at hspan
    rcases List.mem_pair.1 hspan with rfl | rfl
    · exact h
    · exact hscope first (List.mem_of_find?_eq_some hfirst)

/-- Declaring a symbol adds nothing but the symbol. -/
theorem mem_value_declare {other : Symbol} (h : other ∈ (scope.declare symbol).value) :
    other ∈ scope ∨ other = symbol := by
  unfold declare at h
  cases hfirst : scope.find? symbol.name.text with
  | some first =>
    rw [hfirst] at h
    exact .inl h
  | none =>
    rw [hfirst] at h
    exact (List.mem_append.1 h).imp_right List.mem_singleton.1

theorem within_value_declare (hscope : scope.Within p) (h : p symbol.name.span) :
    (scope.declare symbol).value.Within p := by
  intro other hother
  rcases mem_value_declare hother with hother | rfl
  · exact hscope other hother
  · exact h

theorem within_ofNames (kind : String) {names : List Identifier}
    (h : ∀ name ∈ names, p name.span) : (Scope.ofNames kind names).Within p := by
  refine within_foldlM_of_invariant (Scope.Within p) (fun scope item hitem hscope => ?_)
    fun _ hmem => absurd hmem List.not_mem_nil
  have hname := h _ (List.fst_mem_of_mem_zipIdx hitem)
  exact ⟨within_declare hscope hname, within_value_declare hscope hname⟩

end Scope

variable {whole : List Node}

theorem EnumProgress.within_enter {progress : EnumProgress}
    (hscope : progress.scope.Within (Marks whole)) {entry : EnumEntry}
    (h : Contains whole entry.toNode) (index : Nat) :
    (progress.enter entry index).Within (Marks whole) ∧
      (progress.enter entry index).value.scope.Within (Marks whole) := by
  have hname := Identifier.marks (h.trans entry.contains_name)
  have hspan : Marks whole ((entry.value.map (·.span)).getD entry.name.span) := by
    cases hvalue : entry.value with
    | none => exact hname
    | some literal => exact IntegerLiteral.marks (h.trans (EnumEntry.contains_value hvalue))
  have hdeclare : (progress.scope.declare ⟨entry.name, "enum entry", index⟩).Within (Marks whole) :=
    Scope.within_declare hscope hname
  have hvalue :
      (progress.scope.declare ⟨entry.name, "enum entry", index⟩).value.Within (Marks whole) :=
    Scope.within_value_declare hscope hname
  unfold enter
  by_cases hfits : FitsI32 ((entry.value.map (·.value)).getD progress.next)
  · simp only [hfits, if_true]
    exact ⟨hdeclare.bind fun _ => within_pure _, hvalue⟩
  · simp only [hfits, if_false]
    exact ⟨(within_error hspan _).bind fun _ => hdeclare.bind fun _ => within_pure _, hvalue⟩

theorem within_enterMembers {declaration : Declaration}
    (h : Contains whole declaration.toNode) :
    (enterMembers declaration).Within (Marks whole) := by
  cases declaration with
  | constant decl => exact within_pure _
  | typedef decl => exact within_pure _
  | enum decl =>
    refine Within.bind ?_ fun _ => within_pure _
    refine within_foldlM_of_invariant (fun progress : EnumProgress =>
      progress.scope.Within (Marks whole)) (fun progress item hitem hscope => ?_)
      fun _ hmem => absurd hmem List.not_mem_nil
    have hentry := List.fst_mem_of_mem_zipIdx hitem
    exact EnumProgress.within_enter hscope (h.trans (EnumDecl.contains_entry hentry)) item.2
  | struct decl =>
    refine Within.bind ?_ fun _ => within_pure _
    apply Scope.within_ofNames
    intro name hname
    obtain ⟨field, hfield, rfl⟩ := List.mem_map.1 hname
    exact Identifier.marks ((h.trans (StructDecl.contains_field hfield)).trans field.contains_name)
  | service decl =>
    refine Within.bind ?_ fun _ => within_pure _
    refine within_foldlM_of_invariant (Scope.Within (Marks whole))
      (fun scope item hitem hscope => ?_) fun _ hmem => absurd hmem List.not_mem_nil
    have hmethod := h.trans (ServiceDecl.contains_method (List.fst_mem_of_mem_zipIdx hitem))
    have hname := Identifier.marks (hmethod.trans item.1.contains_name)
    refine ⟨(Scope.within_declare hscope hname).bind fun _ => ?_,
      Scope.within_value_declare hscope hname⟩
    refine Within.bind ?_ fun _ => within_pure _
    apply Scope.within_ofNames
    intro name hname
    obtain ⟨argument, hargument, rfl⟩ := List.mem_map.1 hname
    rcases List.mem_append.1 hargument with hargument | hargument
    · exact Identifier.marks
        ((hmethod.trans (Method.contains_argument hargument)).trans argument.contains_name)
    · exact Identifier.marks
        ((hmethod.trans (Method.contains_throws hargument)).trans argument.contains_name)

theorem within_enterSymbols (document : Document) :
    (enterSymbols document).Within (Marks document.toNode.inner) := by
  refine within_foldlM_of_invariant (fun symbols : Symbols =>
    symbols.names.Within (Marks document.toNode.inner)) (fun symbols item hitem hscope => ?_)
    fun _ hmem => absurd hmem List.not_mem_nil
  have hdeclaration := Document.contains_declaration (List.fst_mem_of_mem_zipIdx hitem)
  have hname := Identifier.marks (hdeclaration.trans item.1.contains_name)
  refine ⟨(Scope.within_declare hscope hname).bind fun _ => ?_,
    Scope.within_value_declare hscope hname⟩
  exact (within_enterMembers hdeclaration).bind fun _ => within_pure _

/-! ### Binding names -/

theorem within_bindNames (symbols : Table Symbols) (number : Nat) (tree : SourceTree) :
    (bindNames symbols number tree).Within (Marks tree.document.toNode.inner) := by
  apply within_foldlM
  intro bindings name hname
  have hcomponent : ∀ identifier ∈ name.path, Marks tree.document.toNode.inner identifier.span :=
    fun identifier hidentifier => Identifier.marks
      ((Document.contains_reference hname).trans (Name.contains_identifier hidentifier))
  have hhead := hcomponent name.head List.mem_cons_self
  unfold bindName
  cases hresolve : resolveName symbols number tree name with
  | here binding => exact within_pure _
  | included package binding => exact within_pure _
  | unknown => exact (within_error hhead _).bind fun _ => within_pure _
  | bare => exact (within_error hhead _).bind fun _ => within_pure _
  | missing package member =>
    refine Within.bind ?_ fun _ => within_pure _
    apply within_error
    apply hcomponent
    exact mem_path_of_resolveName hresolve

/-! ### Checking types -/

theorem within_checkOrdering {p : Span → Prop} (item : OrderedItem) {entries : List OrderedName}
    (hname : ∀ entry ∈ entries, p entry.name.span)
    (horder : ∀ entry ∈ entries, ∀ literal, entry.order = some literal → p literal.span) :
    (checkOrdering item entries).Within p := by
  refine Within.bind ?_ fun _ => within_pure _
  apply within_foldlM
  intro seen entry hentry
  obtain ⟨order, name⟩ := entry
  unfold OrderedName.check
  cases order with
  | none => exact (within_error (hname _ hentry) _).bind fun _ => within_pure _
  | some literal =>
    obtain ⟨value, span⟩ := literal
    have hspan : p span := horder _ hentry _ rfl
    simp only
    split
    · exact (within_error hspan _).bind fun _ => within_pure _
    · cases seen.lookup value with
      | none =>
        simp only
        split
        · exact (within_error hspan _).bind fun _ => within_pure _
        · exact within_pure _
      | some previous =>
        refine (within_error hspan _).bind fun _ => ?_
        split
        · exact (within_error hspan _).bind fun _ => within_pure _
        · exact within_pure _

namespace Resolver

variable (resolver : Resolver) (here : Nat)

theorem within_affirmType {type : TypeRef} (h : Contains whole type.toNode) :
    (resolver.affirmType here type).Within (Marks whole) := by
  induction type with
  | builtin type span => exact within_pure _
  | list element span ih => exact ih (h.trans (TypeRef.contains_element element span))
  | map key value span ihKey ihValue =>
    refine (ihKey (h.trans (TypeRef.contains_key key value span))).bind fun _ => ?_
    exact (ihValue (h.trans (TypeRef.contains_value key value span))).bind fun _ => within_pure _
  | name name =>
    unfold affirmType
    split
    · exact within_pure _
    · split
      · exact within_pure _
      · exact (within_error (Name.marks h) _).bind fun _ => within_pure _

theorem within_checkVoid (allowed : Bool) {type : TypeRef} (h : Contains whole type.toNode) :
    (resolver.checkVoid here allowed type).Within (Marks whole) := by
  induction type generalizing allowed with
  | builtin type span =>
    unfold checkVoid
    split
    · exact within_error (TypeRef.marks h) _
    · exact within_pure _
  | list element span ih => exact ih false (h.trans (TypeRef.contains_element element span))
  | map key value span ihKey ihValue =>
    refine (ihKey false (h.trans (TypeRef.contains_key key value span))).bind fun _ => ?_
    exact ihValue false (h.trans (TypeRef.contains_value key value span))
  | name name =>
    unfold checkVoid
    cases allowed with
    | true => exact within_pure _
    | false =>
      simp only [Bool.false_eq_true, if_false]
      split
      · exact within_error (Name.marks h) _
      · exact within_pure _

theorem within_checkValueType {type : TypeRef} (h : Contains whole type.toNode) :
    (resolver.checkValueType here type).Within (Marks whole) := by
  refine (resolver.within_affirmType here h).bind fun isType => ?_
  cases isType with
  | true => exact (resolver.within_checkVoid here false h).bind fun _ => within_pure _
  | false => exact within_pure _

theorem within_checkException {type : TypeRef} (h : Contains whole type.toNode) :
    (resolver.checkException here type).Within (Marks whole) := by
  unfold checkException
  split
  · exact within_pure _
  · split
    · exact within_pure _
    · exact within_error (TypeRef.marks h) _

end Resolver

/-! ### Coercing expressions -/

namespace Coercion

variable {resolver : Resolver} {here : Nat}

/-- The components that bindings leave over are spelled in the file. -/
def TailsMark (resolver : Resolver) (here : Nat) (whole : List Node) : Prop :=
  ∀ name binding, resolver.binding? here name = some binding →
    ∀ member ∈ binding.tail, Marks whole member.span

/-- The components that the bindings of these names leave over are spelled in the file. -/
def TailsMarkOf (resolver : Resolver) (here : Nat) (names : List Name) (whole : List Node) : Prop :=
  ∀ name ∈ names, ∀ binding, resolver.binding? here name = some binding →
    ∀ member ∈ binding.tail, Marks whole member.span

theorem TailsMark.of (h : TailsMark resolver here whole) (names : List Name) :
    TailsMarkOf resolver here names whole :=
  fun name _ => h name

theorem TailsMarkOf.mono {names fewer : List Name} (h : TailsMarkOf resolver here names whole)
    (hsubset : fewer ⊆ names) : TailsMarkOf resolver here fewer whole :=
  fun name hname => h name (hsubset hname)

theorem within_builtin (type : Builtin) {expr : Expr} (h : Contains whole expr.toNode) :
    (builtin type expr).Within (Marks whole) := by
  unfold builtin
  split
  · exact within_pure _
  · split
    · exact within_pure _
    · exact within_refuse (Expr.marks h) _
  · exact within_pure _
  · exact within_pure _
  · exact within_refuse (Expr.marks h) _

theorem within_enumEntry (wanted : DeclRef) {expr : Expr}
    (htail : TailsMarkOf resolver here expr.references whole) (h : Contains whole expr.toNode) :
    (enumEntry resolver here wanted expr).Within (Marks whole) := by
  have hexpr := Expr.marks h
  cases expr with
  | name name =>
    rw [enumEntry]
    cases hbinding : resolver.binding? here name with
    | none => exact within_pure _
    | some binding =>
      obtain ⟨target, tail⟩ := binding
      simp only
      split
      · exact within_refuse hexpr _
      · exact within_refuse hexpr _
      · exact within_refuse hexpr _
      · next decl member _ =>
        have hmember := htail name (List.mem_singleton.2 rfl) _ hbinding member List.mem_cons_self
        split
        · exact within_refuse hmember _
        · split
          · exact within_refuse hexpr _
          · exact within_pure _
  | _ => exact within_refuse hexpr _

theorem within_missingFields {p : Span → Prop} {span : Span} (h : p span) (decl : StructDecl)
    (given : List Nat) : (missingFields span decl given).Within p :=
  (within_forM fun _ _ => within_error h _).bind fun _ => within_pure _

theorem within_fieldKey (decl : StructDecl) (fields : Scope) (given : List Nat) {key : Expr}
    (h : Contains whole key.toNode) : (fieldKey decl fields given key).Within (Marks whole) := by
  have hkey := Expr.marks h
  unfold fieldKey
  split
  · split
    · exact within_refuse hkey _
    · split
      · exact within_refuse hkey _
      · exact within_pure _
  · exact within_refuse hkey _

mutual

theorem within_coerce :
    ∀ (expr : Expr) (type : LocatedType), TailsMarkOf resolver here expr.references whole →
      Contains whole expr.toNode → (coerce resolver here type expr).Within (Marks whole)
  | expr, type, htail, h => by
    have hexpr := Expr.marks h
    rw [coerce]
    split
    · exact within_pure _
    · split
      · exact within_builtin _ h
      · split
        · exact (within_coerceElements _ _ htail (Expr.contains_elements h)).bind
            fun _ => within_pure _
        · exact within_refuse hexpr _
      · split
        · exact (within_coerceEntries _ _ _ htail (Expr.contains_entries h)).bind
            fun _ => within_pure _
        · exact within_refuse hexpr _
      · split
        · exact within_enumEntry _ htail h
        · split
          · split
            · exact within_pure _
            · refine (within_coerceFields _ _ _ _ _ htail
                (Expr.contains_entries h)).bind fun _ => ?_
              exact (within_missingFields hexpr _ _).bind fun _ => within_pure _
          · exact within_refuse hexpr _
        · exact within_refuse hexpr _

theorem within_coerceElements :
    ∀ (exprs : List Expr) (type : LocatedType),
      TailsMarkOf resolver here (Expr.referencesAll exprs) whole →
      (∀ expr ∈ exprs, Contains whole expr.toNode) →
        (coerceElements resolver here type exprs).Within (Marks whole)
  | [], _, _, _ => by
    rw [coerceElements]
    exact within_pure _
  | expr :: exprs, type, htail, h => by
    obtain ⟨hexpr, hexprs⟩ := List.forall_mem_cons.1 h
    have hfirst := within_coerce expr type (htail.mono (List.subset_append_left _ _)) hexpr
    have hrest :=
      within_coerceElements exprs type (htail.mono (List.subset_append_right _ _)) hexprs
    rw [coerceElements]
    exact hfirst.bind fun _ => hrest.bind fun _ => within_pure _

theorem within_coerceEntries :
    ∀ (entries : List (Expr × Expr)) (keyType valueType : LocatedType),
      TailsMarkOf resolver here (Expr.referencesEntries entries) whole →
      (∀ entry ∈ entries, Contains whole entry.1.toNode ∧ Contains whole entry.2.toNode) →
        (coerceEntries resolver here keyType valueType entries).Within (Marks whole)
  | [], _, _, _, _ => by
    rw [coerceEntries]
    exact within_pure _
  | (key, value) :: entries, keyType, valueType, htail, h => by
    obtain ⟨⟨hkey, hvalue⟩, hentries⟩ := List.forall_mem_cons.1 h
    have hfirst : TailsMarkOf resolver here (key.references ++ value.references) whole :=
      htail.mono (List.subset_append_left _ _)
    have hkey := within_coerce key keyType (hfirst.mono (List.subset_append_left _ _)) hkey
    have hvalue := within_coerce value valueType (hfirst.mono (List.subset_append_right _ _)) hvalue
    have hrest := within_coerceEntries entries keyType valueType
      (htail.mono (List.subset_append_right _ _)) hentries
    rw [coerceEntries]
    exact hkey.bind fun _ => hvalue.bind fun _ => hrest.bind fun _ => within_pure _

theorem within_coerceFields :
    ∀ (entries : List (Expr × Expr)) (struct : DeclRef) (decl : StructDecl) (fields : Scope)
      (progress : FieldProgress), TailsMarkOf resolver here (Expr.referencesEntries entries) whole →
      (∀ entry ∈ entries, Contains whole entry.1.toNode ∧ Contains whole entry.2.toNode) →
        (coerceFields resolver here struct decl fields progress entries).Within (Marks whole)
  | [], _, _, _, _, _, _ => by
    rw [coerceFields]
    exact within_pure _
  | (key, value) :: entries, struct, decl, fields, progress, htail, h => by
    obtain ⟨⟨hkey, hvalue⟩, hentries⟩ := List.forall_mem_cons.1 h
    have hfirst : TailsMarkOf resolver here (key.references ++ value.references) whole :=
      htail.mono (List.subset_append_left _ _)
    have hrest := fun progress => within_coerceFields entries struct decl fields progress
      (htail.mono (List.subset_append_right _ _)) hentries
    rw [coerceFields]
    refine (within_fieldKey decl fields progress.given hkey).bind fun found => ?_
    cases found with
    | none => exact hrest _
    | some found =>
      simp only
      cases fieldType? struct decl found.2 with
      | none => exact hrest _
      | some type =>
        exact (within_coerce value type (hfirst.mono (List.subset_append_right _ _)) hvalue).bind
          fun _ => hrest _

end

end Coercion

/-! ### Checking declarations -/

namespace Resolver

open Coercion

theorem mem_of_cyclicField? (resolver : Resolver) {struct : DeclRef} {fields : List Field}
    {field : Field} (h : resolver.cyclicField? struct fields = some field) : field ∈ fields := by
  induction fields with
  | nil => cases h
  | cons first fields ih =>
    rw [cyclicField?] at h
    split at h
    · cases h
      exact List.mem_cons_self
    · exact List.mem_cons_of_mem _ (ih h)
    · cases h

variable {resolver : Resolver} {here : Nat}

theorem within_checkTypedef (index : Nat) {decl : TypedefDecl}
    (h : Contains whole (Declaration.typedef decl).toNode) :
    (resolver.checkTypedef here index decl).Within (Marks whole) := by
  unfold checkTypedef
  split
  · exact within_error (Identifier.marks (h.trans (Declaration.typedef decl).contains_name)) _
  · exact (resolver.within_checkValueType here (h.trans decl.contains_type)).bind
      fun _ => within_pure _

theorem within_checkConstant {decl : ConstantDecl}
    (htail : TailsMarkOf resolver here decl.value.references whole)
    (h : Contains whole (Declaration.constant decl).toNode) :
    (resolver.checkConstant here decl).Within (Marks whole) := by
  refine (resolver.within_checkValueType here (h.trans decl.contains_type)).bind fun isType => ?_
  cases isType with
  | true => exact within_coerce _ _ htail (h.trans decl.contains_value)
  | false => exact within_pure _

theorem within_checkField {field : Field}
    (htail : TailsMarkOf resolver here field.references whole) (h : Contains whole field.toNode) :
    (resolver.checkField here field).Within (Marks whole) := by
  refine (resolver.within_checkValueType here (h.trans field.contains_type)).bind fun isType => ?_
  cases isType with
  | true =>
    cases hdefault : field.default with
    | none => exact within_pure _
    | some default =>
      have hsubset : default.references ⊆ field.references := by
        rw [Field.references, hdefault]
        exact List.subset_append_right _ _
      exact within_coerce _ _ (htail.mono hsubset) (h.trans (Field.contains_default hdefault))
  | false => exact within_pure _

theorem within_checkStruct {decl : StructDecl}
    (htail : TailsMarkOf resolver here (Declaration.struct decl).references whole)
    (h : Contains whole (Declaration.struct decl).toNode) :
    (resolver.checkStruct here decl).Within (Marks whole) := by
  have hfield : ∀ field ∈ decl.fields, Contains whole field.toNode :=
    fun field hfield => h.trans (StructDecl.contains_field hfield)
  refine Within.bind ?_ fun _ => ?_
  · apply within_checkOrdering
    · intro entry hentry
      obtain ⟨field, hmem, rfl⟩ := List.mem_map.1 hentry
      exact Identifier.marks ((hfield field hmem).trans field.contains_name)
    · intro entry hentry literal hliteral
      obtain ⟨field, hmem, rfl⟩ := List.mem_map.1 hentry
      exact IntegerLiteral.marks ((hfield field hmem).trans (Field.contains_order hliteral))
  · apply within_foldlM
    intro defaults item hitem
    have hmem := List.fst_mem_of_mem_zipIdx hitem
    have hsubset : item.1.references ⊆ (Declaration.struct decl).references :=
      fun name hname => List.mem_flatMap.2 ⟨item.1, hmem, hname⟩
    exact (within_checkField (htail.mono hsubset) (hfield item.1 hmem)).bind fun _ => within_pure _

theorem within_checkParent {name : Name} (h : Contains whole name.toNode) :
    (resolver.checkParent here name).Within (Marks whole) := by
  unfold checkParent
  split
  · exact within_pure _
  · split
    · exact within_pure _
    · exact within_error (Name.marks h) _

theorem within_checkOneway {method : Method} (h : Contains whole method.toNode) :
    (checkOneway method).Within (Marks whole) := by
  have hname := Identifier.marks (h.trans method.contains_name)
  have hthrows : (if method.throws.isEmpty then pure () else
      Reporting.error method.name.span (.onewayThrows method.name.text)).Within (Marks whole) :=
    (within_pure _).ite (within_error hname _)
  exact hthrows.ite ((within_error hname _).bind fun _ => hthrows)

theorem within_arguments {arguments : List Argument} (item : OrderedItem)
    (h : ∀ argument ∈ arguments, Contains whole argument.toNode) :
    (checkOrdering item (arguments.map Argument.ordered)).Within (Marks whole) := by
  apply within_checkOrdering
  · intro entry hentry
    obtain ⟨argument, hmem, rfl⟩ := List.mem_map.1 hentry
    exact Identifier.marks ((h argument hmem).trans argument.contains_name)
  · intro entry hentry literal hliteral
    obtain ⟨argument, hmem, rfl⟩ := List.mem_map.1 hentry
    exact IntegerLiteral.marks ((h argument hmem).trans (Argument.contains_order hliteral))

theorem within_checkMethod {method : Method} (h : Contains whole method.toNode) :
    (resolver.checkMethod here method).Within (Marks whole) := by
  have hreturns := h.trans method.contains_returns
  have harguments : ∀ argument ∈ method.arguments, Contains whole argument.toNode :=
    fun argument hargument => h.trans (Method.contains_argument hargument)
  have hthrows : ∀ argument ∈ method.throws, Contains whole argument.toNode :=
    fun argument hargument => h.trans (Method.contains_throws hargument)
  unfold checkMethod
  refine (resolver.within_affirmType here hreturns).bind fun _ => ?_
  refine (resolver.within_checkVoid here true hreturns).bind fun _ => ?_
  have hrest : (do
      method.arguments.forM fun argument => do
        let _ ← resolver.checkValueType here argument.type
      checkOrdering .argument (method.arguments.map Argument.ordered)
      method.throws.forM fun argument => do
        if ← resolver.affirmType here argument.type then
          resolver.checkException here argument.type
      checkOrdering .exception (method.throws.map Argument.ordered)).Within (Marks whole) := by
    refine Within.bind (within_forM fun argument hargument => ?_) fun _ => ?_
    · exact (resolver.within_checkValueType here
        ((harguments argument hargument).trans argument.contains_type)).bind fun _ => within_pure _
    refine (within_arguments .argument harguments).bind fun _ => ?_
    refine Within.bind (within_forM fun argument hargument => ?_) fun _ => ?_
    · have htype := (hthrows argument hargument).trans argument.contains_type
      refine (resolver.within_affirmType here htype).bind fun isType => ?_
      cases isType with
      | true => exact resolver.within_checkException here htype
      | false => exact within_pure _
    · exact within_arguments .exception hthrows
  cases method.oneway with
  | true => exact (within_checkOneway h).bind fun _ => hrest
  | false => exact hrest

theorem within_checkService {decl : ServiceDecl}
    (h : Contains whole (Declaration.service decl).toNode) :
    (resolver.checkService here decl).Within (Marks whole) := by
  have hmethods : (decl.methods.forM (resolver.checkMethod here)).Within (Marks whole) :=
    within_forM fun method hmethod =>
      within_checkMethod (h.trans (ServiceDecl.contains_method hmethod))
  unfold checkService
  cases hparent : decl.parent with
  | none => exact hmethods
  | some parent =>
    exact (within_checkParent (h.trans (ServiceDecl.contains_parent hparent))).bind
      fun _ => hmethods

theorem within_checkDeclaration (index : Nat) (values : Values) {declaration : Declaration}
    (htail : TailsMarkOf resolver here declaration.references whole)
    (h : Contains whole declaration.toNode) :
    (resolver.checkDeclaration here index values declaration).Within (Marks whole) := by
  cases declaration with
  | enum decl => exact within_pure _
  | typedef decl => exact (within_checkTypedef index h).bind fun _ => within_pure _
  | constant decl =>
    have hvalue := htail.mono (List.subset_append_right decl.type.references _)
    exact (within_checkConstant hvalue h).bind fun _ => within_pure _
  | struct decl => exact (within_checkStruct htail h).bind fun _ => within_pure _
  | service decl => exact (within_checkService h).bind fun _ => within_pure _

theorem within_checkTypes {document : Document}
    (htail : TailsMark resolver here document.toNode.inner) :
    (resolver.checkTypes here document).Within (Marks document.toNode.inner) := by
  apply within_foldlM
  intro values item hitem
  have hdeclaration := List.fst_mem_of_mem_zipIdx hitem
  exact within_checkDeclaration item.2 values (htail.of _)
    (Document.contains_declaration hdeclaration)

/-! ### Cycles and unused includes -/

/-- Cycles are reported at names of fields and at names of parents. -/
theorem within_checkCycles_of {p : Span → Prop} (resolver : Resolver) (here : Nat)
    {document : Document}
    (hfields : ∀ decl, .struct decl ∈ document.declarations →
      ∀ field ∈ decl.fields, p field.name.span)
    (hparents : ∀ decl, .service decl ∈ document.declarations →
      ∀ parent, decl.parent = some parent → p parent.span) :
    (resolver.checkCycles here document).Within p := by
  apply within_forM
  intro item hitem
  have hdeclaration := List.fst_mem_of_mem_zipIdx hitem
  obtain ⟨declaration, index⟩ := item
  cases declaration with
  | struct decl =>
    simp only [checkStructCycle]
    split
    · next field hfield =>
      exact within_error (hfields decl hdeclaration field (resolver.mem_of_cyclicField? hfield)) _
    · exact within_pure _
  | service decl =>
    simp only [checkServiceCycle]
    split
    · next parent hparent =>
      exact (within_error (hparents decl hdeclaration parent hparent) _).ite (within_pure _)
    · exact within_pure _
  | _ => exact within_pure _

theorem within_checkCycles (resolver : Resolver) (here : Nat) (document : Document) :
    (resolver.checkCycles here document).Within (Marks document.toNode.inner) := by
  refine resolver.within_checkCycles_of here (fun decl hdecl field hfield => ?_)
    fun decl hdecl parent hparent => ?_
  · exact Identifier.marks (((Document.contains_declaration hdecl).trans
      (StructDecl.contains_field hfield)).trans field.contains_name)
  · exact Name.marks ((Document.contains_declaration hdecl).trans
      (ServiceDecl.contains_parent hparent))

end Resolver

/-- The include directives of the file are those of the edges of its tree. -/
theorem within_checkUnused {tree : SourceTree} (bindings : Bindings)
    (h : ∀ edge ∈ tree.includes, edge.directive ∈ tree.document.includes) :
    (checkUnused tree bindings).Within (Marks tree.document.toNode.inner) :=
  within_forM fun edge hedge =>
    (within_pure _).ite (within_error (Document.contains_path (h edge hedge)).marks _)

end Idl
