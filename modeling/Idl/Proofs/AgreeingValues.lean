import Idl.Proofs.Agreement
import Idl.Proofs.AgreeingReports
import Idl.Proofs.Tables

/-!
# Values under resolvers that agree

Expressions that are the same take the same value at types that agree, up to the places of the
enums that the value names, and report the same.
-/
namespace Idl

/-! ### Values -/

mutual

/-- The value with every enum replaced by its image. -/
def Value.rename (image : DeclRef → DeclRef) : Value → Value
  | .bool value => .bool value
  | .i32 value => .i32 value
  | .i64 value => .i64 value
  | .string value => .string value
  | .list elements => .list (Value.renameAll image elements)
  | .map entries => .map (Value.renameEntries image entries)
  | .enum decl entry value => .enum (image decl) entry value
  | .struct fields => .struct (Value.renameFields image fields)

def Value.renameAll (image : DeclRef → DeclRef) : List Value → List Value
  | [] => []
  | value :: values => value.rename image :: Value.renameAll image values

def Value.renameEntries (image : DeclRef → DeclRef) : List (Value × Value) → List (Value × Value)
  | [] => []
  | (key, value) :: entries =>
    (key.rename image, value.rename image) :: Value.renameEntries image entries

def Value.renameFields (image : DeclRef → DeclRef) : List (String × Value) → List (String × Value)
  | [] => []
  | (name, value) :: fields => (name, value.rename image) :: Value.renameFields image fields

end

theorem Value.renameFields_append (image : DeclRef → DeclRef)
    (first second : List (String × Value)) :
    Value.renameFields image (first ++ second) =
      Value.renameFields image first ++ Value.renameFields image second := by
  induction first with
  | nil => rfl
  | cons field first ih =>
    obtain ⟨name, value⟩ := field
    simp only [List.cons_append, Value.renameFields, ih]

/-! ### Members that match -/

theorem map_numberEntries_of_matches {entries others : List EnumEntry}
    (h : List.Forall₂ EnumEntry.Matches entries others) (next : Int) :
    (numberEntries next entries).map (fun numbered => (numbered.1.name.text, numbered.2)) =
      (numberEntries next others).map fun numbered => (numbered.1.name.text, numbered.2) := by
  induction h generalizing next with
  | nil => rfl
  | cons head _ ih => simp only [numberEntries, List.map_cons, head.name, head.value, ih]

/-- Enums that match give a name the same number. -/
theorem EnumDecl.Matches.find?_numbered {decl other : EnumDecl} (h : decl.Matches other)
    (name : String) :
    (decl.numbered.find? (·.1.name.text == name)).map (·.2) =
      (other.numbered.find? (·.1.name.text == name)).map (·.2) := by
  have hfind (list : List (EnumEntry × Int)) :
      (list.find? (·.1.name.text == name)).map (·.2) =
        ((list.map fun numbered => (numbered.1.name.text, numbered.2)).find? (·.1 == name)).map
          (·.2) := by
    rw [List.find?_map, Option.map_map]
    rfl
  rw [hfind, hfind, EnumDecl.numbered, EnumDecl.numbered, map_numberEntries_of_matches h.entries]

section

variable {names : Name → Name → Prop} {types : TypeRef → TypeRef → Prop}

theorem findIdx?_of_matches {fields others : List Field}
    (h : List.Forall₂ (Field.Matches names types) fields others) (name : String) :
    fields.findIdx? (·.name.text == name) = others.findIdx? (·.name.text == name) := by
  induction h with
  | nil => rfl
  | cons head _ ih => rw [List.findIdx?_cons, List.findIdx?_cons, head.name, ih]

end

open Reporting Resolver

namespace Coercion

variable {old new : Resolver} {image : DeclRef → DeclRef} {here here' : Nat}
  {type type' : LocatedType} {expr expr' : Expr}

/-- Values of two coercions that agree. -/
abbrev SameValue (image : DeclRef → DeclRef) (value value' : Option Value) : Prop :=
  value.map (Value.rename image) = value'

theorem agree_refuse {α β : Type} {p : Option α → Option β → Prop} (hp : p none none)
    {span span' : Span} {message message' : Message} (h : message = message') :
    Agree p (refuse span message) (refuse span' message') :=
  Agree.bind (p := fun _ _ => True) (agree_error h trivial) fun _ _ _ => agree_pure hp

theorem agree_refuse_value {span span' : Span} {message message' : Message}
    (h : message = message') :
    Agree (SameValue image) (refuse span message) (refuse span' message') :=
  agree_refuse (p := SameValue image) rfl h

theorem kind_eq {names : Name → Name → Prop} (h : expr.Matches names expr') :
    expr.kind = expr'.kind := by
  cases h <;> rfl

theorem agree_builtin {names : Name → Name → Prop} (type : Builtin)
    (h : expr.Matches names expr') :
    Agree (SameValue image) (builtin type expr) (builtin type expr') := by
  have hrefuse : Agree (SameValue image) (refuse expr.span (.cannotCoerce expr.kind type.text))
      (refuse expr'.span (.cannotCoerce expr'.kind type.text)) :=
    agree_refuse_value (congrArg (Message.cannotCoerce · type.text) (kind_eq h))
  cases h with
  | @integer literal literal' value =>
    cases type with
    | i32 =>
      unfold builtin
      simp only [← value]
      exact Agree.ite Iff.rfl (fun _ => agree_pure rfl) fun _ => agree_refuse_value rfl
    | i64 => exact agree_pure (by simp [SameValue, Value.rename, value])
    | _ => exact hrefuse
  | string text =>
    cases type with
    | string => exact agree_pure (by simp [SameValue, Value.rename, text])
    | _ => exact hrefuse
  | bool =>
    cases type with
    | bool => exact agree_pure rfl
    | _ => exact hrefuse
  | _ => cases type <;> exact hrefuse

theorem agree_missingFields {span span' : Span} {decl decl' : StructDecl}
    {names : Name → Name → Prop} {types : TypeRef → TypeRef → Prop}
    (h : decl.Matches names types decl') (given : List Nat) :
    Agree (· = ·) (missingFields span decl given) (missingFields span' decl' given) := by
  have hmissing : List.Forall₂ (fun item item' : Field × Nat =>
      item.1.Matches names types item'.1 ∧ item.2 = item'.2)
      (decl.fields.zipIdx.filter fun item =>
        item.1.requiredness ≠ some .optional ∧ item.1.default.isNone ∧ item.2 ∉ given)
      (decl'.fields.zipIdx.filter fun item =>
        item.1.requiredness ≠ some .optional ∧ item.1.default.isNone ∧ item.2 ∉ given) := by
    refine List.rel_filter ?_ (forall₂_zipIdx h.fields 0)
    rintro ⟨field, index⟩ ⟨field', _⟩ ⟨hfield, rfl⟩
    have hrequiredness : field.requiredness = field'.requiredness := hfield.requiredness
    simp only [decide_eq_true_eq, hrequiredness, optionRel_isNone hfield.default]
  unfold missingFields
  refine (agree_forM hmissing fun item item' hitem => ?_).bind fun _ _ _ => agree_pure ?_
  · exact agree_error (by rw [hitem.1.name, h.name]) trivial
  · rw [Bool.eq_iff_iff, List.isEmpty_iff_length_eq_zero, List.isEmpty_iff_length_eq_zero,
      hmissing.length_eq]

theorem agree_fieldKey {decl decl' : StructDecl} {names names' : Name → Name → Prop}
    {types : TypeRef → TypeRef → Prop} (h : decl.Matches names types decl') {fields fields' : Scope}
    (hfields : ∀ name, fields.lookup name = fields'.lookup name) (given : List Nat)
    {key key' : Expr} (hkey : key.Matches names' key') :
    Agree (· = ·) (fieldKey decl fields given key) (fieldKey decl' fields' given key') := by
  cases hkey with
  | @string literal literal' text =>
    unfold fieldKey
    simp only [hfields, text]
    cases fields'.lookup literal'.text with
    | none => exact agree_refuse (p := (· = ·)) rfl (by rw [h.name])
    | some index =>
      exact Agree.ite Iff.rfl (fun _ => agree_refuse (p := (· = ·)) rfl rfl) fun _ => agree_pure rfl
  | _ => exact agree_refuse (p := (· = ·)) rfl rfl

/-- Progress with a struct initializer that agrees. -/
structure FieldProgress.Same (image : DeclRef → DeclRef) (progress progress' : FieldProgress) :
    Prop where
  given : progress.given = progress'.given
  values : progress.values.map (Value.renameFields image) = progress'.values

theorem FieldProgress.Same.add {progress progress' : FieldProgress}
    (h : progress.Same image progress') (name : String) {value value' : Option Value}
    (hvalue : SameValue image value value') :
    (progress.add name value).Same image (progress'.add name value') := by
  refine ⟨h.given, ?_⟩
  unfold FieldProgress.add
  rw [← h.values, ← hvalue]
  cases progress.values with
  | none => rfl
  | some values =>
    cases value with
    | none => rfl
    | some value => simp [Value.renameFields_append, Value.renameFields]

/-- The value of an initializer whose entries are all dealt with. -/
theorem agree_complete {span span' : Span} {decl decl' : StructDecl} {names : Name → Name → Prop}
    {types : TypeRef → TypeRef → Prop} (hdecl : decl.Matches names types decl')
    {progress progress' : FieldProgress} (h : progress.Same image progress') :
    Agree (SameValue image)
      (do
        let complete ← missingFields span decl progress.given
        return if complete then progress.values.map .struct else none)
      (do
        let complete ← missingFields span' decl' progress'.given
        return if complete then progress'.values.map .struct else none) := by
  rw [← h.given]
  refine (agree_missingFields hdecl _).bind fun complete _ hcomplete => ?_
  subst hcomplete
  refine agree_pure ?_
  cases complete with
  | false => rfl
  | true =>
    rw [SameValue, if_pos rfl, if_pos rfl, ← h.values]
    cases progress.values <;> rfl

theorem typesAgree_of_fieldType? {ref : DeclRef} {decl decl' : StructDecl}
    {names : Name → Name → Prop}
    (h : decl.Matches names (fun type type' =>
      TypesAgree old new image ⟨ref.tree, type⟩ ⟨(image ref).tree, type'⟩) decl') (index : Nat) :
    Option.Rel (TypesAgree old new image) (fieldType? ref decl index)
      (fieldType? (image ref) decl' index) := by
  unfold fieldType?
  have hfields := h.fields
  generalize decl.fields = fields at hfields ⊢
  generalize decl'.fields = fields' at hfields ⊢
  induction hfields generalizing index with
  | nil => exact .none
  | cons head _ ih =>
    cases index with
    | zero => exact .some head.type
    | succ index => exact ih index

variable (hold : old.IsClean) (hnew : new.IsClean)

include hold hnew

/-- Corresponding structs have the same fields. -/
theorem structMembers?_of_agrees {ref : DeclRef} {decl decl' : StructDecl}
    (hdecl : old.struct? ref = some decl) (hdecl' : new.struct? (image ref) = some decl')
    {names : Name → Name → Prop} {types : TypeRef → TypeRef → Prop}
    (h : decl.Matches names types decl') :
    ∃ fields fields', old.structMembers? ref = some fields ∧
      new.structMembers? (image ref) = some fields' ∧
      ∀ name, fields.lookup name = fields'.lookup name := by
  obtain ⟨fields, hfields, hlookup⟩ := structMembers?_lookup hold hdecl
  obtain ⟨fields', hfields', hlookup'⟩ := structMembers?_lookup hnew hdecl'
  refine ⟨fields, fields', hfields, hfields', fun name => ?_⟩
  rw [hlookup, hlookup', findIdx?_of_matches h.fields]

/-- Corresponding enums give a name the same value. -/
theorem enumMembers?_of_agrees {ref : DeclRef} {decl decl' : EnumDecl}
    (hdecl : old.enum? ref = some decl) (hdecl' : new.enum? (image ref) = some decl')
    (h : decl.Matches decl') (name : String) :
    ((old.enumMembers? ref).bind fun (entries, values) =>
        (entries.lookup name).map fun index => values[index]?.join) =
      (new.enumMembers? (image ref)).bind fun (entries, values) =>
        (entries.lookup name).map fun index => values[index]?.join := by
  have hnumber := congrArg (Option.map some) (h.find?_numbered name)
  rw [Option.map_map, Option.map_map] at hnumber
  exact (enumMembers?_lookup hold hdecl name).trans
    (hnumber.trans (enumMembers?_lookup hnew hdecl' name).symm)

variable (hagrees : Agrees old new image)

include hagrees

theorem agree_enumEntry (wanted : DeclRef)
    (h : expr.Matches (NamesAgree old new image here here') expr') :
    Agree (SameValue image) (enumEntry old here wanted expr)
      (enumEntry new here' (image wanted) expr') := by
  have hnotMember : Agree (SameValue image) (refuse expr.span (.notEnumMember (old.nameOf wanted)))
      (refuse expr'.span (.notEnumMember (new.nameOf (image wanted)))) :=
    agree_refuse_value (congrArg Message.notEnumMember (hagrees.nameOf wanted))
  cases h with
  | @name name name' related =>
    unfold enumEntry
    simp only
    rcases optionRel_cases related.bindings with
      ⟨hbound, hbound'⟩ | ⟨⟨target, tail⟩, ⟨_, tail'⟩, hbound, hbound', rfl, htail⟩
    · rw [hbound, hbound']
      exact agree_pure rfl
    simp only [hbound, hbound'] at htail ⊢
    rcases optionRel_cases (hagrees.enum? target) with
      ⟨hdecl, hdecl'⟩ | ⟨decl, decl', hdecl, hdecl', hmatches⟩
    · rw [hdecl, hdecl']
      exact hnotMember
    rw [hdecl, hdecl']
    match tail, tail', htail with
    | [], [], _ => exact agree_refuse_value (by rw [hmatches.name])
    | _ :: _ :: _, _ :: _ :: _, htail =>
      exact agree_refuse_value (by simp only [dotted, htail, hmatches.name])
    | [member], [member'], htail =>
      have hmember : member.text = member'.text := List.head_eq_of_cons_eq htail
      simp only [enumMembers?_of_agrees hold hnew hdecl hdecl' hmatches, ← hmember]
      generalize (new.enumMembers? (image target)).bind _ = number
      cases number with
      | none => exact agree_refuse_value (by rw [hmatches.name])
      | some number =>
        refine Agree.ite (not_congr hagrees.injective.eq_iff.symm) (fun _ => ?_) fun _ => ?_
        · exact agree_refuse_value (by rw [hmatches.name, hagrees.nameOf])
        · cases number <;> exact agree_pure rfl
    | [_], _ :: _ :: _, htail => simp at htail
    | _ :: _ :: _, [_], htail => simp at htail
  | _ => exact hnotMember

-- the recursive calls go through the hypotheses, which the linter does not see
set_option linter.unusedSectionVars false in
mutual

theorem agree_coerce : ∀ {expr expr' : Expr} {type type' : LocatedType},
    expr.Matches (NamesAgree old new image here here') expr' →
    TypesAgree old new image type type' →
    Agree (SameValue image) (coerce old here type expr) (coerce new here' type' expr')
  | expr, expr', type, type', h, htypes => by
    have hunwrap := hagrees.unwrap htypes
    rw [coerce, coerce]
    generalize old.unwrap type = unwrapped at hunwrap ⊢
    generalize new.unwrap type' = unwrapped' at hunwrap ⊢
    cases hunwrap with
    | error => exact agree_pure rfl
    | @ok unwrapped unwrapped' heads targets =>
      obtain ⟨last, target, typedef?⟩ := unwrapped
      obtain ⟨last', target', typedef?'⟩ := unwrapped'
      simp only at heads targets
      -- the heads have one form, and each form takes one form of expressions
      cases heads with
      | builtin => exact agree_builtin _ h
      | list elements =>
        cases h with
        | list hexprs =>
          refine (agree_coerceElements hexprs elements).bind fun values _ hvalues => agree_pure ?_
          subst hvalues
          cases values <;> rfl
        | _ => exact agree_refuse_value rfl
      | map keys values =>
        cases h with
        | map hentries =>
          refine (agree_coerceEntries hentries keys values).bind fun entries _ hentries =>
            agree_pure ?_
          subst hentries
          cases entries <;> rfl
        | _ => exact agree_refuse_value rfl
      | @name _ _ name name' related =>
        have hrefuse : Agree (SameValue image) (refuse expr.span (.cannotUseType name.text))
            (refuse expr'.span (.cannotUseType name'.text)) :=
          agree_refuse_value (congrArg Message.cannotUseType related.alike.text_eq)
        subst targets
        cases target with
        | none => exact hrefuse
        | some ref =>
          simp only [Option.bind_some, Option.map_some]
          rcases optionRel_cases (hagrees.declared ref) with
            ⟨hdecl, hdecl'⟩ | ⟨declaration, declaration', hdecl, hdecl', hmatches⟩
          · rw [hdecl, hdecl']
            exact hrefuse
          · rw [hdecl, hdecl']
            cases hmatches with
            | enum _ => exact agree_enumEntry hold hnew hagrees ref h
            | struct hstruct =>
              cases h with
              | map hentries =>
                obtain ⟨fields, fields', hfields, hfields', hlookup⟩ :=
                  structMembers?_of_agrees hold hnew ((struct?_eq_some_iff ref _).2 hdecl)
                    ((struct?_eq_some_iff _ _).2 hdecl') hstruct
                simp only [Option.map_some, hfields, hfields']
                have hempty : FieldProgress.Same image ⟨[], some []⟩ ⟨[], some []⟩ := ⟨rfl, rfl⟩
                exact (agree_coerceFields hentries ⟨_, hstruct⟩ hlookup hempty).bind
                  fun _ _ => agree_complete hstruct
              | _ => exact agree_refuse_value rfl
            | _ => exact hrefuse

theorem agree_coerceElements : ∀ {exprs exprs' : List Expr} {type type' : LocatedType},
    Expr.MatchesAll (NamesAgree old new image here here') exprs exprs' →
    TypesAgree old new image type type' →
    Agree (fun values values' => values.map (Value.renameAll image) = values')
      (coerceElements old here type exprs) (coerceElements new here' type' exprs')
  | [], _, _, _, .nil, _ => by
    rw [coerceElements, coerceElements]
    exact agree_pure rfl
  | expr :: exprs, _, _, _, .cons head tail, htypes => by
    rw [coerceElements, coerceElements]
    refine (agree_coerce head htypes).bind fun first first' hfirst => ?_
    refine (agree_coerceElements tail htypes).bind fun rest rest' hrest => agree_pure ?_
    subst hfirst hrest
    cases first with
    | none => rfl
    | some first => cases rest <;> rfl

theorem agree_coerceEntries : ∀ {entries entries' : List (Expr × Expr)}
    {keyType keyType' valueType valueType' : LocatedType},
    Expr.MatchesEntries (NamesAgree old new image here here') entries entries' →
    TypesAgree old new image keyType keyType' → TypesAgree old new image valueType valueType' →
    Agree (fun values values' => values.map (Value.renameEntries image) = values')
      (coerceEntries old here keyType valueType entries)
      (coerceEntries new here' keyType' valueType' entries')
  | [], _, _, _, _, _, .nil, _, _ => by
    rw [coerceEntries, coerceEntries]
    exact agree_pure rfl
  | (key, value) :: entries, _, _, _, _, _, .cons hkey hvalue tail, hkeys, hvalues => by
    rw [coerceEntries, coerceEntries]
    refine (agree_coerce hkey hkeys).bind fun first first' hfirst => ?_
    refine (agree_coerce hvalue hvalues).bind fun second second' hsecond => ?_
    refine (agree_coerceEntries tail hkeys hvalues).bind fun rest rest' hrest => agree_pure ?_
    subst hfirst hsecond hrest
    cases first with
    | none => rfl
    | some first =>
      cases second with
      | none => rfl
      | some second => cases rest <;> rfl

theorem agree_coerceFields : ∀ {entries entries' : List (Expr × Expr)} {ref : DeclRef}
    {decl decl' : StructDecl} {fields fields' : Scope} {progress progress' : FieldProgress},
    Expr.MatchesEntries (NamesAgree old new image here here') entries entries' →
    (∃ names, decl.Matches names (fun type type' =>
      TypesAgree old new image ⟨ref.tree, type⟩ ⟨(image ref).tree, type'⟩) decl') →
    (∀ name, fields.lookup name = fields'.lookup name) → progress.Same image progress' →
    Agree (FieldProgress.Same image) (coerceFields old here ref decl fields progress entries)
      (coerceFields new here' (image ref) decl' fields' progress' entries')
  | [], _, _, _, _, _, _, _, _, .nil, _, _, hprogress => by
    rw [coerceFields, coerceFields]
    exact agree_pure hprogress
  | (key, value) :: entries, _, ref, decl, decl', fields, fields', progress, progress',
      .cons hkey hvalue tail, ⟨names, hdecl⟩, hfields, hprogress => by
    rw [coerceFields, coerceFields, ← hprogress.given]
    refine (agree_fieldKey hdecl hfields _ hkey).bind fun found _ hfound => ?_
    subst hfound
    cases found with
    | none => exact agree_coerceFields tail ⟨names, hdecl⟩ hfields ⟨rfl, rfl⟩
    | some found =>
      obtain ⟨name, index⟩ := found
      have htype := typesAgree_of_fieldType? hdecl index
      have hadd (value value' : Option Value) (hvalue : SameValue image value value') :
          ({ progress with given := index :: progress.given }.add name value).Same image
            ({ progress' with given := index :: progress.given }.add name value') :=
        have hgiven : FieldProgress.Same image { progress with given := index :: progress.given }
            { progress' with given := index :: progress.given } := ⟨rfl, hprogress.values⟩
        hgiven.add name hvalue
      simp only
      generalize fieldType? ref decl index = type at htype ⊢
      generalize fieldType? (image ref) decl' index = type' at htype ⊢
      cases htype with
      | none =>
        exact agree_coerceFields tail ⟨names, hdecl⟩ hfields (hadd none none rfl)
      | some htype =>
        refine (agree_coerce hvalue htype).bind fun first first' hfirst => ?_
        exact agree_coerceFields tail ⟨names, hdecl⟩ hfields (hadd first first' hfirst)

end

end Coercion

end Idl
