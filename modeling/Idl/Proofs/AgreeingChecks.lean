import Idl.Proofs.AgreeingValues

/-!
# Checks under resolvers that agree

Declarations that match are checked alike, provided that their types are, and get the same values
up to the places of enums. Types that are the same are checked alike.
-/
namespace Idl

open Reporting Coercion

/-- In a table made block by block, each block under keys of its own, a key is looked up in the
block that owns it. -/
theorem lookup_flatMap_zipIdx {α κ β : Type} [BEq κ] [LawfulBEq κ] (owner : κ → Nat)
    (block : α → Nat → List (κ × β))
    (hblock : ∀ item place, ∀ entry ∈ block item place, owner entry.1 = place)
    (items : List α) {start : Nat} {key : κ} (hstart : start ≤ owner key) :
    ((items.zipIdx start).flatMap fun (item, place) => block item place).lookup key =
      items[owner key - start]?.bind fun item => (block item (owner key)).lookup key := by
  induction items generalizing start with
  | nil => rfl
  | cons item items ih =>
    rw [List.zipIdx_cons, List.flatMap_cons, List.lookup_append]
    by_cases howner : owner key = start
    · have hrest : ((items.zipIdx (start + 1)).flatMap fun (item, place) =>
          block item place).lookup key = none := by
        rw [List.lookup_eq_none_iff]
        intro entry hentry
        obtain ⟨⟨other, place⟩, hother, hmem⟩ := List.mem_flatMap.1 hentry
        have hplace := hblock other place entry hmem
        have hle : start + 1 ≤ place := (List.mem_zipIdx hother).1
        refine bne_iff_ne.2 fun h : key = entry.1 => ?_
        rw [← h, howner] at hplace
        omega
      rw [hrest, Option.or_none, howner, Nat.sub_self]
      rfl
    · have hhere : (block item start).lookup key = none := by
        rw [List.lookup_eq_none_iff]
        exact fun entry hentry => bne_iff_ne.2 fun h : key = entry.1 =>
          howner ((congrArg owner h).trans (hblock item start entry hentry))
      have hindex : owner key - start = owner key - (start + 1) + 1 := by omega
      rw [hhere, Option.none_or, ih (by omega), hindex, List.getElem?_cons_succ]

namespace Resolver

variable {old new : Resolver} {image : DeclRef → DeclRef} {here here' : Nat}

/-! ### The values of a file -/

section

variable (resolver : Resolver) (here : Nat)

/-- The value of a constant. -/
def constantValue : Declaration → Option Value
  | .constant decl => (resolver.checkConstant here decl).value
  | _ => none

/-- The defaults of a struct by the places of their fields. -/
def defaultValues : Declaration → List (Nat × Value)
  | .struct decl => (resolver.checkStruct here decl).value
  | _ => []

theorem value_checkDeclaration (index : Nat) (values : Values) (declaration : Declaration) :
    (resolver.checkDeclaration here index values declaration).value =
      ⟨values.constants ++ ((resolver.constantValue here declaration).map (index, ·)).toList,
        values.defaults ++ (resolver.defaultValues here declaration).map
          fun (field, value) => ((index, field), value)⟩ := by
  cases declaration with
  | constant decl =>
    change (⟨_, values.defaults⟩ : Values) = ⟨_, values.defaults ++ []⟩
    rw [List.append_nil]
    rfl
  | struct decl =>
    change (⟨values.constants, _⟩ : Values) = ⟨values.constants ++ [], _⟩
    rw [List.append_nil]
    rfl
  | _ =>
    change values = ⟨values.constants ++ [], values.defaults ++ []⟩
    rw [List.append_nil, List.append_nil]

theorem value_foldlM_checkDeclaration (items : List (Declaration × Nat)) (values : Values) :
    (items.foldlM (fun values (declaration, index) =>
        resolver.checkDeclaration here index values declaration) values).value =
      ⟨values.constants ++ items.flatMap fun (declaration, index) =>
          ((resolver.constantValue here declaration).map (index, ·)).toList,
        values.defaults ++ items.flatMap fun (declaration, index) =>
          (resolver.defaultValues here declaration).map
            fun (field, value) => ((index, field), value)⟩ := by
  induction items generalizing values with
  | nil => simp
  | cons item items ih =>
    rw [List.foldlM_cons, value_bind, ih, value_checkDeclaration]
    simp only [List.append_assoc, List.flatMap_cons]

/-- The value in the table of a file is that of the constant at the place. -/
theorem lookup_constants (document : Document) (index : Nat) :
    (resolver.checkTypes here document).value.constants.lookup index =
      document.declarations[index]?.bind (resolver.constantValue here) := by
  rw [checkTypes, value_foldlM_checkDeclaration]
  refine (lookup_flatMap_zipIdx id (fun declaration place =>
    ((resolver.constantValue here declaration).map (place, ·)).toList) ?_ document.declarations
    (Nat.zero_le index)).trans ?_
  · intro declaration place entry hentry
    obtain ⟨value, -, rfl⟩ := Option.map_eq_some_iff.1 (Option.mem_toList.1 hentry)
    rfl
  · congr 1
    funext declaration
    cases resolver.constantValue here declaration with
    | none => rfl
    | some value => simp

/-- The default in the table of a file is that of the field of the struct at the place. -/
theorem lookup_defaults (document : Document) (index place : Nat) :
    (resolver.checkTypes here document).value.defaults.lookup (index, place) =
      document.declarations[index]?.bind fun declaration =>
        (resolver.defaultValues here declaration).lookup place := by
  rw [checkTypes, value_foldlM_checkDeclaration]
  refine (lookup_flatMap_zipIdx Prod.fst (fun declaration index =>
    (resolver.defaultValues here declaration).map fun (field, value) => ((index, field), value))
    ?_ document.declarations (Nat.zero_le _)).trans ?_
  · intro declaration place entry hentry
    obtain ⟨value, -, rfl⟩ := List.mem_map.1 hentry
    rfl
  · congr 1
    funext declaration
    induction resolver.defaultValues here declaration with
    | nil => rfl
    | cons entry entries ih =>
      have hkey : ((index, place) == (index, entry.1)) = (place == entry.1) := by
        rw [Bool.eq_iff_iff, beq_iff_eq, beq_iff_eq, Prod.mk.injEq, eq_self_iff_true, true_and]
      rw [List.map_cons, List.lookup_cons, List.lookup_cons, ih]
      simp only [hkey]

/-- What is reported about a file is what is reported about each declaration of it. -/
theorem reports_checkTypes (document : Document) :
    (resolver.checkTypes here document).reports =
      document.declarations.zipIdx.flatMap fun (declaration, index) =>
        (resolver.checkDeclaration here index .empty declaration).reports :=
  reports_foldlM
    (fun values item => resolver.reports_checkDeclaration here item.2 values item.1) _ _

end

/-- Types in trees `here` and `here'` that agree and are affirmed and searched for `void` with the
same outcome. -/
structure CheckedAlike (old new : Resolver) (image : DeclRef → DeclRef) (here here' : Nat)
    (type type' : TypeRef) : Prop where
  agree : TypesAgree old new image ⟨here, type⟩ ⟨here', type'⟩
  affirm : Agree (· = ·) (old.affirmType here type) (new.affirmType here' type')
  void : ∀ allowed, Agree (fun _ _ => True) (old.checkVoid here allowed type)
    (new.checkVoid here' allowed type')

/-! ### Types that are the same -/

section

variable {type type' : TypeRef}

theorem typesAgree_of_matches (h : type.Matches (NamesAgree old new image here here') type') :
    TypesAgree old new image ⟨here, type⟩ ⟨here', type'⟩ := by
  induction h with
  | builtin => exact .builtin
  | list _ ih => exact .list ih
  | map _ _ ihKeys ihValues => exact .map ihKeys ihValues
  | name related => exact .name related

variable (hagrees : Agrees old new image)

include hagrees

theorem agree_affirmType (h : type.Matches (NamesAgree old new image here here') type') :
    Agree (· = ·) (old.affirmType here type) (new.affirmType here' type') := by
  induction h with
  | builtin => exact agree_pure rfl
  | list _ ih => exact ih
  | map _ _ ihKeys ihValues =>
    refine ihKeys.bind fun key _ hkey => ?_
    refine ihValues.bind fun value _ hvalue => ?_
    exact agree_pure (by rw [hkey, hvalue])
  | @name name name' related =>
    have hnot : Agree (· = ·)
        (do Reporting.error name.span (.notAType name.text); return false)
        (do Reporting.error name'.span (.notAType name'.text); return false) :=
      Agree.bind (p := fun _ _ => True)
        (agree_error (congrArg Message.notAType related.alike.text_eq) trivial)
        fun _ _ _ => agree_pure rfl
    unfold affirmType
    rcases related.binding_cases with
      ⟨hold, hnew⟩ | ⟨target, hold, hnew⟩ | ⟨target, member, tail, member', tail', hold, hnew, -⟩
    · rw [hold, hnew]
      exact agree_pure rfl
    · rw [hold, hnew]
      exact Agree.ite (by rw [hagrees.any_isTypeDeclaration]) (fun _ => agree_pure rfl)
        fun _ => hnot
    · rw [hold, hnew]
      exact Agree.ite (iff_of_false (by simp) (by simp)) (fun _ => agree_pure rfl) fun _ => hnot

theorem agree_checkVoid (h : type.Matches (NamesAgree old new image here here') type')
    (allowed : Bool) :
    Agree (fun _ _ => True) (old.checkVoid here allowed type)
      (new.checkVoid here' allowed type') := by
  induction h generalizing allowed with
  | builtin =>
    exact Agree.ite Iff.rfl (fun _ => agree_error rfl trivial) fun _ => agree_pure trivial
  | list _ ih => exact ih false
  | map _ _ ihKeys ihValues => exact (ihKeys false).bind fun _ _ _ => ihValues false
  | @name name name' related =>
    unfold checkVoid
    refine Agree.ite Iff.rfl (fun _ => agree_pure trivial) fun _ => ?_
    have htypes : TypesAgree old new image ⟨here, .name name⟩ ⟨here', .name name'⟩ := .name related
    have hunwrap := hagrees.unwrap htypes
    generalize old.unwrap ⟨here, .name name⟩ = unwrapped at hunwrap ⊢
    generalize new.unwrap ⟨here', .name name'⟩ = unwrapped' at hunwrap ⊢
    cases hunwrap with
    | error => exact agree_pure trivial
    | @ok unwrapped unwrapped' heads targets =>
      obtain ⟨last, target, typedef?⟩ := unwrapped
      obtain ⟨last', target', typedef?'⟩ := unwrapped'
      simp only at heads targets
      subst targets
      cases heads with
      | @builtin _ _ builtin =>
        cases target with
        | some _ => cases builtin <;> exact agree_pure trivial
        | none =>
          cases builtin with
          | void => exact agree_error rfl trivial
          | _ => exact agree_pure trivial
      | _ => exact agree_pure trivial

/-- Types that are the same are checked alike. -/
theorem checkedAlike_of_matches (h : type.Matches (NamesAgree old new image here here') type') :
    CheckedAlike old new image here here' type type' :=
  ⟨typesAgree_of_matches h, agree_affirmType hagrees h, agree_checkVoid hagrees h⟩

end

/-! ### Checks of declarations -/

theorem CheckedAlike.checkValueType {type type' : TypeRef}
    (h : CheckedAlike old new image here here' type type') :
    Agree (· = ·) (old.checkValueType here type) (new.checkValueType here' type') := by
  refine h.affirm.bind fun isType _ hisType => ?_
  subst hisType
  cases isType with
  | false => exact agree_pure rfl
  | true => exact (h.void false).bind fun _ _ _ => agree_pure rfl

theorem matches_void_iff (type : TypeRef) :
    (type matches .builtin .void _) = true ↔ ∃ span, type = .builtin .void span := by
  split <;> simp_all

theorem agree_checkOneway {method method' : Method} {types : TypeRef → TypeRef → Prop}
    (h : method.Matches types method')
    (hvoid : (∃ span, method.returns = .builtin .void span) ↔
      ∃ span, method'.returns = .builtin .void span) :
    Agree (fun _ _ => True) (checkOneway method) (checkOneway method') := by
  have hthrows : method.throws.isEmpty = true ↔ method'.throws.isEmpty = true := by
    rw [List.isEmpty_iff_length_eq_zero, List.isEmpty_iff_length_eq_zero, h.throws.length_eq]
  have herror {message message' : Message} (hmessage : message = message') :
      Agree (fun _ _ => True) (Reporting.error method.name.span message)
        (Reporting.error method'.name.span message') := agree_error hmessage trivial
  have hrest : Agree (fun _ _ => True)
      (unless method.throws.isEmpty do
        Reporting.error method.name.span (.onewayThrows method.name.text))
      (unless method'.throws.isEmpty do
        Reporting.error method'.name.span (.onewayThrows method'.name.text)) :=
    Agree.ite hthrows (fun _ => agree_pure trivial) fun _ => herror (by rw [h.name])
  unfold checkOneway
  refine Agree.ite ((matches_void_iff _).trans (hvoid.trans (matches_void_iff _).symm))
    (fun _ => hrest) fun _ => ?_
  exact (herror (by rw [h.name])).bind fun _ _ _ => hrest

section

variable (hagrees : Agrees old new image)

include hagrees

theorem agree_checkException {type type' : TypeRef}
    (h : TypesAgree old new image ⟨here, type⟩ ⟨here', type'⟩) :
    Agree (fun _ _ => True) (old.checkException here type) (new.checkException here' type') := by
  have hunwrap := hagrees.unwrap h
  unfold checkException
  generalize old.unwrap ⟨here, type⟩ = unwrapped at hunwrap ⊢
  generalize new.unwrap ⟨here', type'⟩ = unwrapped' at hunwrap ⊢
  cases hunwrap with
  | error => exact agree_pure trivial
  | @ok unwrapped unwrapped' heads targets =>
    have hkind : old.nonExceptionKind? unwrapped = new.nonExceptionKind? unwrapped' := by
      obtain ⟨last, target, typedef?⟩ := unwrapped
      obtain ⟨last', target', typedef?'⟩ := unwrapped'
      simp only at heads targets
      subst targets
      unfold nonExceptionKind?
      cases target with
      | none => cases heads <;> rfl
      | some ref =>
        have hdeclared := hagrees.declared ref
        simp only [Option.bind_some, Option.map_some]
        generalize old.declaration? ref = declaration at hdeclared ⊢
        generalize new.declaration? (image ref) = declaration' at hdeclared ⊢
        cases hdeclared with
        | none => cases heads <;> rfl
        | some hmatches =>
          have hkinds := hmatches.kind_eq
          cases hmatches with
          | struct hmatches => simp only [hmatches.kind]
          | _ => rfl
    simp only [hkind]
    cases new.nonExceptionKind? unwrapped' with
    | none => exact agree_pure trivial
    | some kind => exact agree_error rfl trivial

theorem agree_checkParent {name name' : Name}
    (h : NamesAgree old new image here here' name name') :
    Agree (fun _ _ => True) (old.checkParent here name) (new.checkParent here' name') := by
  have herror : Agree (fun _ _ => True) (Reporting.error name.span (.notAService name.text))
      (Reporting.error name'.span (.notAService name'.text)) :=
    agree_error (congrArg Message.notAService h.alike.text_eq) trivial
  unfold checkParent
  rcases h.binding_cases with
    ⟨hold, hnew⟩ | ⟨target, hold, hnew⟩ | ⟨target, member, tail, member', tail', hold, hnew, -⟩
  · rw [hold, hnew]
    exact agree_pure trivial
  · simp only [hold, hnew]
    rcases optionRel_cases (hagrees.declared target) with
      ⟨hdecl, hdecl'⟩ | ⟨_, _, hdecl, hdecl', hmatches⟩
    · rw [hdecl, hdecl']
      exact herror
    · rw [hdecl, hdecl']
      cases hmatches with
      | service _ => exact agree_pure trivial
      | _ => exact herror
  · simp only [hold, hnew]
    rcases optionRel_cases (hagrees.declared target) with
      ⟨hdecl, hdecl'⟩ | ⟨_, _, hdecl, hdecl', hmatches⟩
    · rw [hdecl, hdecl']
      exact herror
    · rw [hdecl, hdecl']
      cases hmatches <;> exact herror

theorem agree_checkMethod {method method' : Method}
    (h : method.Matches (CheckedAlike old new image here here') method') :
    Agree (fun _ _ => True) (old.checkMethod here method) (new.checkMethod here' method') := by
  refine h.returns.affirm.bind fun _ _ _ => (h.returns.void true).bind fun _ _ _ => ?_
  have hrest : Agree (fun _ _ => True)
      (do
        method.arguments.forM fun argument => do
          let _ ← old.checkValueType here argument.type
        checkOrdering .argument (method.arguments.map Argument.ordered)
        method.throws.forM fun argument => do
          if ← old.affirmType here argument.type then
            old.checkException here argument.type
        checkOrdering .exception (method.throws.map Argument.ordered))
      (do
        method'.arguments.forM fun argument => do
          let _ ← new.checkValueType here' argument.type
        checkOrdering .argument (method'.arguments.map Argument.ordered)
        method'.throws.forM fun argument => do
          if ← new.affirmType here' argument.type then
            new.checkException here' argument.type
        checkOrdering .exception (method'.throws.map Argument.ordered)) := by
    refine (agree_forM h.arguments fun argument argument' hargument => ?_).bind fun _ _ _ => ?_
    · exact hargument.type.checkValueType.bind fun _ _ _ => agree_pure trivial
    refine (agree_checkOrdering_arguments _ h.arguments).bind fun _ _ _ => ?_
    refine (agree_forM h.throws fun thrown thrown' hthrown => ?_).bind fun _ _ _ =>
      agree_checkOrdering_arguments _ h.throws
    refine hthrown.type.affirm.bind fun isType _ hisType => ?_
    subst hisType
    exact Agree.ite Iff.rfl (fun _ => agree_checkException hagrees hthrown.type.agree)
      fun _ => agree_pure trivial
  refine Agree.ite (by rw [h.oneway]) (fun _ => ?_) fun _ => hrest
  have hvoid := h.returns.agree.void_iff
  exact (agree_checkOneway h hvoid).bind fun _ _ _ => hrest

theorem agree_checkService {decl decl' : ServiceDecl}
    (h : decl.Matches (NamesAgree old new image here here') (CheckedAlike old new image here here')
      decl') :
    Agree (fun _ _ => True) (old.checkService here decl) (new.checkService here' decl') := by
  have hrest : Agree (fun _ _ => True) (decl.methods.forM (old.checkMethod here))
      (decl'.methods.forM (new.checkMethod here')) :=
    agree_forM h.methods fun _ _ hmethod => agree_checkMethod hagrees hmethod
  have hparent := h.parent
  unfold checkService
  generalize decl.parent = parent at hparent ⊢
  generalize decl'.parent = parent' at hparent ⊢
  cases hparent with
  | none => exact hrest
  | some hname => exact (agree_checkParent hagrees hname).bind fun _ _ _ => hrest

theorem agree_checkTypedef {index index' : Nat} (himage : image ⟨here, index⟩ = ⟨here', index'⟩)
    {decl decl' : TypedefDecl} (h : decl.Matches (CheckedAlike old new image here here') decl') :
    Agree (fun _ _ => True) (old.checkTypedef here index decl)
      (new.checkTypedef here' index' decl') := by
  refine Agree.ite (by rw [hagrees.typedefIsCyclic, himage]) (fun _ => ?_) fun _ => ?_
  · exact agree_error (congrArg Message.cyclicTypedef h.name) trivial
  · exact h.type.checkValueType.bind fun _ _ _ => agree_pure trivial

variable (hold : old.IsClean) (hnew : new.IsClean)

include hold hnew

/-- Whether a type that is checked first lets an expression be coerced. -/
theorem agree_coerceHere {type type' : TypeRef}
    (htype : CheckedAlike old new image here here' type type')
    {expr expr' : Expr} (hexpr : expr.Matches (NamesAgree old new image here here') expr') :
    Agree (SameValue image) (old.coerceHere here type expr) (new.coerceHere here' type' expr') :=
  agree_coerce hold hnew hagrees hexpr htype.agree

theorem agree_checkConstant {decl decl' : ConstantDecl}
    (h : decl.Matches (NamesAgree old new image here here') (CheckedAlike old new image here here')
      decl') :
    Agree (SameValue image) (old.checkConstant here decl) (new.checkConstant here' decl') := by
  refine h.type.checkValueType.bind fun isType _ hisType => ?_
  subst hisType
  cases isType with
  | false => exact agree_pure rfl
  | true => exact agree_coerceHere hagrees hold hnew h.type h.value

theorem agree_checkField {field field' : Field}
    (h : field.Matches (NamesAgree old new image here here') (CheckedAlike old new image here here')
      field') :
    Agree (SameValue image) (old.checkField here field) (new.checkField here' field') := by
  refine h.type.checkValueType.bind fun isType _ hisType => ?_
  subst hisType
  cases isType with
  | false => exact agree_pure rfl
  | true =>
    have hdefault := h.default
    simp only [if_true]
    generalize field.default = default at hdefault ⊢
    generalize field'.default = default' at hdefault ⊢
    cases hdefault with
    | none => exact agree_pure rfl
    | some hexpr => exact agree_coerceHere hagrees hold hnew h.type hexpr

theorem agree_checkStruct {decl decl' : StructDecl}
    (h : decl.Matches (NamesAgree old new image here here') (CheckedAlike old new image here here')
      decl') :
    Agree (fun defaults defaults' =>
      defaults.map (fun (index, value) => (index, Value.rename image value)) = defaults')
      (old.checkStruct here decl) (new.checkStruct here' decl') := by
  refine (agree_checkOrdering_fields h.fields).bind fun _ _ _ => ?_
  refine agree_foldlM (forall₂_zipIdx h.fields 0) rfl ?_
  rintro defaults _ ⟨field, index⟩ ⟨field', _⟩ rfl ⟨hfield, rfl⟩
  refine (agree_checkField hagrees hold hnew hfield).bind fun value _ hvalue => agree_pure ?_
  subst hvalue
  cases value <;> simp

theorem same_constantValue {declaration declaration' : Declaration}
    (h : declaration.Matches (NamesAgree old new image here here')
      (CheckedAlike old new image here here') declaration') :
    SameValue image (old.constantValue here declaration)
      (new.constantValue here' declaration') := by
  cases h with
  | constant h => exact (agree_checkConstant hagrees hold hnew h).value
  | _ => rfl

theorem same_defaultValues {declaration declaration' : Declaration}
    (h : declaration.Matches (NamesAgree old new image here here')
      (CheckedAlike old new image here here') declaration') (place : Nat) :
    SameValue image ((old.defaultValues here declaration).lookup place)
      ((new.defaultValues here' declaration').lookup place) := by
  cases h with
  | struct h =>
    have hvalue := (agree_checkStruct hagrees hold hnew h).value
    change SameValue image ((old.checkStruct here _).value.lookup place)
      ((new.checkStruct here' _).value.lookup place)
    rw [← hvalue]
    induction (old.checkStruct here _).value with
    | nil => rfl
    | cons entry entries ih =>
      rw [List.map_cons, List.lookup_cons, List.lookup_cons]
      cases place == entry.1 with
      | true => rfl
      | false => exact ih
  | _ => rfl

/-- Declarations that are the same and whose types are checked alike are checked alike. -/
theorem agree_checkDeclaration {index index' : Nat} (himage : image ⟨here, index⟩ = ⟨here', index'⟩)
    {declaration declaration' : Declaration}
    (h : declaration.Matches (NamesAgree old new image here here')
      (CheckedAlike old new image here here') declaration') (values values' : Values) :
    Agree (fun _ _ => True) (old.checkDeclaration here index values declaration)
      (new.checkDeclaration here' index' values' declaration') := by
  cases h with
  | enum _ => exact agree_pure trivial
  | typedef h =>
    exact (agree_checkTypedef hagrees himage h).bind fun _ _ _ => agree_pure trivial
  | constant h =>
    exact (agree_checkConstant hagrees hold hnew h).bind fun _ _ _ => agree_pure trivial
  | struct h =>
    exact (agree_checkStruct hagrees hold hnew h).bind fun _ _ _ => agree_pure trivial
  | service h => exact (agree_checkService hagrees h).bind fun _ _ _ => agree_pure trivial

end

end Resolver

end Idl
