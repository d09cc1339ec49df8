import Idl.Check
import Idl.Proofs.Coercion

/-!
# What a silent type check gives

If the names of a file are bound and its type check reports nothing, then every type in it stands
for something, no typedef of it is cyclic, and every constant and field default has its value.
-/
namespace Idl

/-- What one step of a fold brings about and no other step undoes holds in the end. -/
theorem Reporting.value_foldlM_of_mem {α β : Type} (P : β → Prop) {f : β → α → Reporting β}
    {items : List α} {item : α} (hitem : item ∈ items) (hgain : ∀ b, P (f b item).value)
    (hkeep : ∀ b other, P b → P (f b other).value) (b : β) : P (items.foldlM f b).value := by
  have hrest : ∀ (items : List α) b, P b → P (items.foldlM f b).value := by
    intro items
    induction items with
    | nil => exact fun _ h => h
    | cons other items ih =>
      intro b h
      rw [List.foldlM_cons, value_bind]
      exact ih _ (hkeep b other h)
  induction items generalizing b with
  | nil => cases hitem
  | cons other items ih =>
    rw [List.foldlM_cons, value_bind]
    rcases List.mem_cons.1 hitem with rfl | hitem
    · exact hrest items _ (hgain b)
    · exact ih hitem _

namespace Resolver

variable {resolver : Resolver} {here : Nat}

/-! ### Types -/

theorem isProper_of_silent_affirmType {type : TypeRef}
    (hbound : ∀ name ∈ type.references, (resolver.binding? here name).isSome)
    (h : (resolver.affirmType here type).Silent) :
    (resolver.affirmType here type).value = true ∧ resolver.IsProper ⟨here, type⟩ := by
  induction type with
  | builtin type span => exact ⟨rfl, fun name hname => absurd hname List.not_mem_nil⟩
  | list element span ih => exact ih hbound h
  | map key value span ihKey ihValue =>
    have hboundKey := fun name hname => hbound name (List.mem_append_left _ hname)
    have hboundValue := fun name hname => hbound name (List.mem_append_right _ hname)
    unfold affirmType at h
    obtain ⟨hkey, hproperKey⟩ := ihKey hboundKey h.first
    obtain ⟨hvalue, hproperValue⟩ := ihValue hboundValue h.rest.first
    refine ⟨by simp [affirmType, hkey, hvalue], fun name hname => ?_⟩
    rcases List.mem_append.1 hname with hname | hname
    · exact hproperKey name hname
    · exact hproperValue name hname
  | name name =>
    obtain ⟨⟨target, tail⟩, hbinding⟩ :=
      Option.isSome_iff_exists.1 (hbound name (List.mem_singleton.2 rfl))
    unfold affirmType at h ⊢
    simp only [hbinding] at h ⊢
    split at h
    next htype =>
      rw [if_pos htype]
      obtain ⟨hany, rfl⟩ := htype
      obtain ⟨declaration, hdeclaration, hkind⟩ := (Option.any_eq_true _ _).1 hany
      refine ⟨rfl, fun other hother => ?_⟩
      obtain rfl := List.mem_singleton.1 hother
      exact ⟨target, declaration, hbinding, hdeclaration, hkind⟩
    next =>
      exact absurd h.first (Reporting.not_silent_error _ _)

theorem silent_affirmType_of_checkValueType {type : TypeRef}
    (h : (resolver.checkValueType here type).Silent) : (resolver.affirmType here type).Silent :=
  h.first

theorem value_checkValueType (type : TypeRef) :
    (resolver.checkValueType here type).value = (resolver.affirmType here type).value := by
  unfold checkValueType
  rw [Reporting.value_bind]
  split <;> rfl

theorem silent_affirmType_of_checkMethod {method : Method}
    (h : (resolver.checkMethod here method).Silent) {type : TypeRef}
    (htype : type ∈ method.returns :: (method.arguments ++ method.throws).map (·.type)) :
    (resolver.affirmType here type).Silent := by
  unfold checkMethod at h
  have hreturns := h.first
  have h := h.rest.rest
  have hrest : (do
      method.arguments.forM fun argument => do
        let _ ← resolver.checkValueType here argument.type
      checkOrdering .argument (method.arguments.map Argument.ordered)
      method.throws.forM fun argument => do
        if ← resolver.affirmType here argument.type then
          resolver.checkException here argument.type
      checkOrdering .exception (method.throws.map Argument.ordered)).Silent := by
    cases honeway : method.oneway with
    | true =>
      simp only [honeway, if_true] at h
      exact h.rest
    | false =>
      simp only [honeway, Bool.false_eq_true, if_false] at h
      exact h
  have harguments := hrest.first
  have hthrows := hrest.rest.rest.first
  rw [Reporting.silent_forM_iff] at harguments hthrows
  rcases List.mem_cons.1 htype with rfl | htype
  · exact hreturns
  · obtain ⟨argument, hargument, rfl⟩ := List.mem_map.1 htype
    rcases List.mem_append.1 hargument with hargument | hargument
    · have hcheck := harguments argument hargument
      exact silent_affirmType_of_checkValueType hcheck.first
    · exact (hthrows argument hargument).first

/-- A silent check of a declaration affirms every type in it. -/
theorem silent_affirmType_of_mem_types {index : Nat} {values : Values} {declaration : Declaration}
    (h : (resolver.checkDeclaration here index values declaration).Silent) {type : TypeRef}
    (htype : type ∈ declaration.types) : (resolver.affirmType here type).Silent := by
  cases declaration with
  | enum decl => cases htype
  | typedef decl =>
    obtain rfl := List.mem_singleton.1 htype
    have hcheck := h.first
    unfold checkTypedef at hcheck
    split at hcheck
    · exact absurd hcheck (Reporting.not_silent_error _ _)
    · exact silent_affirmType_of_checkValueType hcheck.first
  | constant decl =>
    obtain rfl := List.mem_singleton.1 htype
    have hcheck := h.first
    exact silent_affirmType_of_checkValueType hcheck.first
  | struct decl =>
    obtain ⟨field, hfield, rfl⟩ := List.mem_map.1 htype
    have hcheck := h.first
    have hfields := hcheck.rest
    obtain ⟨place, hplace⟩ := List.getElem?_of_mem hfield
    have hitem : (field, place) ∈ decl.fields.zipIdx := List.mem_zipIdx_iff_getElem?.2 hplace
    obtain ⟨defaults, hstep⟩ := Reporting.silent_step_of_foldlM hfields hitem
    have hcheckField := hstep.first
    exact silent_affirmType_of_checkValueType hcheckField.first
  | service decl =>
    obtain ⟨method, hmethod, htype⟩ := List.mem_flatMap.1 htype
    have hcheck := h.first
    have hmethods : (decl.methods.forM (resolver.checkMethod here)).Silent := by
      unfold checkService at hcheck
      cases hparent : decl.parent with
      | none => simpa [hparent] using hcheck
      | some parent =>
        simp only [hparent] at hcheck
        exact hcheck.rest
    rw [Reporting.silent_forM_iff] at hmethods
    exact silent_affirmType_of_checkMethod (hmethods method hmethod) htype

/-! ### Whole files -/

/-- A silent check of a file checks each declaration silently. -/
theorem silent_checkDeclaration {document : Document}
    (h : (resolver.checkTypes here document).Silent) {index : Nat} {declaration : Declaration}
    (hdeclaration : document.declarations[index]? = some declaration) :
    ∃ values, (resolver.checkDeclaration here index values declaration).Silent := by
  have hitem : (declaration, index) ∈ document.declarations.zipIdx :=
    List.mem_zipIdx_iff_getElem?.2 hdeclaration
  exact Reporting.silent_step_of_foldlM h hitem

/-- The type check of every file reports nothing. -/
def IsChecked (resolver : Resolver) : Prop :=
  ∀ number tree, resolver.program.trees[number]? = some tree →
    (resolver.checkTypes number tree.document).Silent

theorem typesResolve_of_isChecked (hclean : resolver.IsClean) (hchecked : resolver.IsChecked) :
    resolver.TypesResolve := by
  intro number tree htree type htype
  obtain ⟨declaration, hdeclaration, hmem⟩ := List.mem_flatMap.1 htype
  obtain ⟨index, hindex⟩ := List.getElem?_of_mem hdeclaration
  obtain ⟨values, hsilent⟩ := silent_checkDeclaration (hchecked number tree htree) hindex
  have hbound : ∀ name ∈ type.references, (resolver.binding? number name).isSome :=
    fun name hname => isSome_binding? hclean htree
      (tree.document.references_subset_of_mem_types htype hname)
  exact (isProper_of_silent_affirmType hbound (silent_affirmType_of_mem_types hsilent hmem)).2

theorem typedefsEnd_of_isChecked (hchecked : resolver.IsChecked) : resolver.TypedefsEnd := by
  apply typedefsEnd_of_forall
  intro typedef htypedef
  obtain ⟨type, htype⟩ := Option.isSome_iff_exists.1 ((mem_typedefs_iff typedef).1 htypedef)
  obtain ⟨decl, hdecl, -⟩ := (typedef?_eq_some_iff typedef type).1 htype
  obtain ⟨tree, htree, hget⟩ := Option.bind_eq_some_iff.1 hdecl
  obtain ⟨values, hsilent⟩ := silent_checkDeclaration (hchecked typedef.tree tree htree) hget
  have hcheck := hsilent.first
  unfold checkTypedef at hcheck
  cases hcyclic : resolver.typedefIsCyclic ⟨typedef.tree, typedef.index⟩ with
  | false => rfl
  | true =>
    rw [hcyclic] at hcheck
    exact absurd hcheck (Reporting.not_silent_error _ _)

theorem value_checkValueType_of_silent (hclean : resolver.IsClean) {tree : SourceTree}
    (htree : resolver.program.trees[here]? = some tree) {type : TypeRef}
    (htype : type ∈ tree.document.types) (h : (resolver.checkValueType here type).Silent) :
    (resolver.checkValueType here type).value = true := by
  have hbound : ∀ name ∈ type.references, (resolver.binding? here name).isSome :=
    fun name hname => isSome_binding? hclean htree
      (tree.document.references_subset_of_mem_types htype hname)
  rw [value_checkValueType]
  exact (isProper_of_silent_affirmType hbound (silent_affirmType_of_checkValueType h)).1

/-- A silent coercion to a type that is written beside the expression gives a value. -/
theorem exists_value_of_silent_coerceHere (hclean : resolver.IsClean)
    (hchecked : resolver.IsChecked) {tree : SourceTree}
    (htree : resolver.program.trees[here]? = some tree) {type : TypeRef}
    (htype : type ∈ tree.document.types) {expr : Expr} (hexpr : expr ∈ tree.document.initializers)
    (h : (resolver.coerceHere here type expr).Silent) :
    ∃ value, (resolver.coerceHere here type expr).value = some value := by
  have hresolve := typesResolve_of_isChecked hclean hchecked
  have hend := typedefsEnd_of_isChecked hchecked
  have hbound : ∀ name ∈ expr.references, (resolver.binding? here name).isSome :=
    fun name hname => isSome_binding? hclean htree
      (tree.document.references_subset_of_mem_initializers hexpr hname)
  have hdecided := Coercion.decides_coerce hclean hresolve hend expr ⟨here, type⟩
    (hresolve here tree htree type htype) hbound
  exact Option.isSome_iff_exists.1 (hdecided.silent_iff.1 h)

/-- The value of a constant whose check reports nothing. -/
theorem exists_value_checkConstant (hclean : resolver.IsClean) (hchecked : resolver.IsChecked)
    {tree : SourceTree} (htree : resolver.program.trees[here]? = some tree) {index : Nat}
    {decl : ConstantDecl} (hdecl : tree.document.declarations[index]? = some (.constant decl)) :
    ∃ value, (resolver.checkConstant here decl).value = some value := by
  have hmem := List.mem_of_getElem? hdecl
  have htype : decl.type ∈ tree.document.types :=
    List.mem_flatMap.2 ⟨_, hmem, List.mem_singleton.2 rfl⟩
  have hexpr : decl.value ∈ tree.document.initializers :=
    List.mem_flatMap.2 ⟨_, hmem, List.mem_singleton.2 rfl⟩
  obtain ⟨values, hsilent⟩ := silent_checkDeclaration (hchecked here tree htree) hdecl
  have hcheck := hsilent.first
  unfold checkConstant at hcheck ⊢
  have htypeSilent := hcheck.first
  have hvalueSilent := hcheck.rest
  have htrue := value_checkValueType_of_silent hclean htree htype htypeSilent
  rw [htrue, if_pos rfl] at hvalueSilent
  rw [Reporting.value_bind, htrue, if_pos rfl]
  exact exists_value_of_silent_coerceHere hclean hchecked htree htype hexpr hvalueSilent

/-- The value of a field default whose check reports nothing. -/
theorem exists_value_checkField (hclean : resolver.IsClean) (hchecked : resolver.IsChecked)
    {tree : SourceTree} (htree : resolver.program.trees[here]? = some tree) {index : Nat}
    {decl : StructDecl} (hdecl : tree.document.declarations[index]? = some (.struct decl))
    {place : Nat} {field : Field} (hfield : decl.fields[place]? = some field) {default : Expr}
    (hdefault : field.default = some default) :
    ∃ value, (resolver.checkField here field).value = some value := by
  have hmem := List.mem_of_getElem? hdecl
  have hfieldMem := List.mem_of_getElem? hfield
  have htype : field.type ∈ tree.document.types :=
    List.mem_flatMap.2 ⟨_, hmem, List.mem_map_of_mem hfieldMem⟩
  have hexpr : default ∈ tree.document.initializers :=
    List.mem_flatMap.2 ⟨_, hmem, List.mem_filterMap.2 ⟨field, hfieldMem, hdefault⟩⟩
  obtain ⟨values, hsilent⟩ := silent_checkDeclaration (hchecked here tree htree) hdecl
  have hstruct := hsilent.first
  have hfields := hstruct.rest
  have hitem : (field, place) ∈ decl.fields.zipIdx := List.mem_zipIdx_iff_getElem?.2 hfield
  obtain ⟨defaults, hstep⟩ := Reporting.silent_step_of_foldlM hfields hitem
  have hcheck := hstep.first
  unfold checkField at hcheck ⊢
  have htypeSilent := hcheck.first
  have hvalueSilent := hcheck.rest
  have htrue := value_checkValueType_of_silent hclean htree htype htypeSilent
  simp only [htrue, if_true, hdefault] at hvalueSilent
  simp only [Reporting.value_bind, htrue, if_true, hdefault]
  exact exists_value_of_silent_coerceHere hclean hchecked htree htype hexpr hvalueSilent

/-! ### Tables of values -/

theorem isSome_lookup_of_mem {α β : Type} [BEq α] [LawfulBEq α] {list : List (α × β)} {key : α}
    {value : β} (h : (key, value) ∈ list) : (list.lookup key).isSome :=
  List.lookup_isSome_iff.2 ⟨_, h, beq_self_eq_true key⟩

/-- What has been added to the values of a file stays. -/
theorem value_checkDeclaration_subset (index : Nat) (values : Values) (declaration : Declaration) :
    values.constants ⊆ (resolver.checkDeclaration here index values declaration).value.constants ∧
      values.defaults ⊆
        (resolver.checkDeclaration here index values declaration).value.defaults := by
  cases declaration with
  | constant decl => exact ⟨List.subset_append_left _ _, List.Subset.refl _⟩
  | struct decl => exact ⟨List.Subset.refl _, List.subset_append_left _ _⟩
  | _ => exact ⟨List.Subset.refl _, List.Subset.refl _⟩

theorem isSome_constants (document : Document) {index : Nat} {decl : ConstantDecl}
    (hdecl : document.declarations[index]? = some (.constant decl)) {value : Value}
    (hvalue : (resolver.checkConstant here decl).value = some value) :
    ((resolver.checkTypes here document).value.constants.lookup index).isSome := by
  have hitem : (Declaration.constant decl, index) ∈ document.declarations.zipIdx :=
    List.mem_zipIdx_iff_getElem?.2 hdecl
  have hmem : (index, value) ∈ (resolver.checkTypes here document).value.constants := by
    apply Reporting.value_foldlM_of_mem (fun values : Values =>
      (index, value) ∈ values.constants) hitem
    · intro values
      apply List.mem_append_right
      change (index, value) ∈ ((resolver.checkConstant here decl).value.map (index, ·)).toList
      rw [hvalue]
      exact List.mem_cons_self
    · intro values other h
      exact (value_checkDeclaration_subset other.2 values other.1).1 h
  exact isSome_lookup_of_mem hmem

theorem mem_checkStruct {decl : StructDecl} {place : Nat} {field : Field}
    (hfield : decl.fields[place]? = some field) {value : Value}
    (hvalue : (resolver.checkField here field).value = some value) :
    (place, value) ∈ (resolver.checkStruct here decl).value := by
  have hitem : (field, place) ∈ decl.fields.zipIdx := List.mem_zipIdx_iff_getElem?.2 hfield
  unfold checkStruct
  rw [Reporting.value_bind]
  apply Reporting.value_foldlM_of_mem (fun defaults : List (Nat × Value) =>
    (place, value) ∈ defaults) hitem
  · intro defaults
    apply List.mem_append_right
    change (place, value) ∈ ((resolver.checkField here field).value.map (place, ·)).toList
    rw [hvalue]
    exact List.mem_cons_self
  · intro defaults other h
    exact List.mem_append_left _ h

theorem isSome_defaults (document : Document) {index : Nat} {decl : StructDecl}
    (hdecl : document.declarations[index]? = some (.struct decl)) {place : Nat} {field : Field}
    (hfield : decl.fields[place]? = some field) {value : Value}
    (hvalue : (resolver.checkField here field).value = some value) :
    ((resolver.checkTypes here document).value.defaults.lookup (index, place)).isSome := by
  have hitem : (Declaration.struct decl, index) ∈ document.declarations.zipIdx :=
    List.mem_zipIdx_iff_getElem?.2 hdecl
  have hmem : ((index, place), value) ∈ (resolver.checkTypes here document).value.defaults := by
    apply Reporting.value_foldlM_of_mem (fun values : Values =>
      ((index, place), value) ∈ values.defaults) hitem
    · intro values
      apply List.mem_append_right
      exact List.mem_map.2 ⟨(place, value), mem_checkStruct hfield hvalue, rfl⟩
    · intro values other h
      exact (value_checkDeclaration_subset other.2 values other.1).2 h
  exact isSome_lookup_of_mem hmem

end Resolver
end Idl
