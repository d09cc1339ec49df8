import Idl.Proofs.Conformance

/-!
# Coercion follows the typing rules

Coercing an expression gives exactly the value with which it conforms to the type, and reports
something exactly if it conforms with none. The proof follows the expression: the type is
unwrapped, which cannot fail, and then each rule has one form of type and expression.
-/
namespace Idl

/-- A result is the one that a rule allows, and reports are made exactly if there is none. -/
structure Reporting.Decides {α : Type} (x : Reporting (Option α)) (rule : α → Prop) : Prop where
  value_iff : ∀ a, x.value = some a ↔ rule a
  silent_iff : x.Silent ↔ x.value.isSome

namespace Reporting.Decides

variable {α β γ δ : Type}

theorem accept {a : α} {rule : α → Prop} (h : ∀ b, rule b ↔ b = a) :
    Decides (pure (some a)) rule where
  value_iff b := by simp [h, eq_comm]
  silent_iff := by simp [silent_pure]

theorem refuse {rule : α → Prop} (span : Span) (message : Message) (h : ∀ a, ¬ rule a) :
    Decides (Coercion.refuse span message) rule where
  value_iff a := by simp [Coercion.refuse, h]
  silent_iff := by simp [Coercion.refuse, Silent]

theorem congr {x : Reporting (Option α)} {rule rule' : α → Prop} (hx : x.Decides rule)
    (h : ∀ a, rule' a ↔ rule a) : x.Decides rule' where
  value_iff a := (hx.value_iff a).trans (h a).symm
  silent_iff := hx.silent_iff

theorem map {x : Reporting (Option α)} {rule : α → Prop} (hx : x.Decides rule) (f : α → β) :
    Decides (do return (← x).map f) fun b => ∃ a, rule a ∧ f a = b where
  value_iff b := by simp [Option.map_eq_some_iff, hx.value_iff]
  silent_iff := by simpa [Silent] using hx.silent_iff

/-- Both of two expressions must conform, and both are looked at. -/
theorem both {x : Reporting (Option α)} {y : Reporting (Option β)} {rule : α → Prop}
    {rule' : β → Prop} (hx : x.Decides rule) (hy : y.Decides rule') (f : α → β → γ) :
    Decides (do
      let a ← x
      let b ← y
      return a.bind fun a => b.map (f a)) fun c => ∃ a b, rule a ∧ rule' b ∧ f a b = c where
  value_iff c := by
    simp only [value_bind, value_pure, Option.bind_eq_some_iff, Option.map_eq_some_iff,
      hx.value_iff, hy.value_iff]
    constructor
    · rintro ⟨a, ha, b, hb, h⟩
      exact ⟨a, b, ha, hb, h⟩
    · rintro ⟨a, b, ha, hb, h⟩
      exact ⟨a, ha, b, hb, h⟩
  silent_iff := by
    simp only [silent_bind_iff, silent_pure, and_true, hx.silent_iff, hy.silent_iff, value_bind,
      value_pure]
    cases x.value <;> cases y.value <;> simp

theorem three {x : Reporting (Option α)} {y : Reporting (Option β)} {z : Reporting (Option γ)}
    {rule : α → Prop} {rule' : β → Prop} {rule'' : γ → Prop} (hx : x.Decides rule)
    (hy : y.Decides rule') (hz : z.Decides rule'') (f : α → β → γ → δ) :
    Decides (do
      let a ← x
      let b ← y
      let c ← z
      return a.bind fun a => b.bind fun b => c.map (f a b))
      fun d => ∃ a b c, rule a ∧ rule' b ∧ rule'' c ∧ f a b c = d := by
  have hall := hx.both (hy.both hz Prod.mk) fun a pair => f a pair.1 pair.2
  simp only [bind_assoc, pure_bind, Option.map_bind, Function.comp_def, Option.map_map] at hall
  refine hall.congr fun d => ⟨?_, ?_⟩
  · rintro ⟨a, b, c, ha, hb, hc, rfl⟩
    exact ⟨a, (b, c), ha, ⟨b, c, hb, hc, rfl⟩, rfl⟩
  · rintro ⟨a, _, ha, ⟨b, c, hb, hc, rfl⟩, rfl⟩
    exact ⟨a, b, c, ha, hb, hc, rfl⟩

end Reporting.Decides

namespace Coercion

open Reporting

variable {resolver : Resolver} {here : Nat}

theorem decides_builtin (tree : Nat) (type : Builtin) (span : Span) (expr : Expr) :
    (builtin type expr).Decides (Conforms resolver here ⟨tree, .builtin type span⟩ expr) := by
  have hno : ∀ {typedef next},
      ¬ resolver.Aliases ⟨tree, .builtin type span⟩ typedef next :=
    Conforms.not_aliases_of_not_name fun _ => TypeRef.noConfusion
  unfold builtin
  split
  · refine .accept fun value => ⟨fun h => ?_, fun h => h ▸ .bool⟩
    cases h with
    | typedef step => exact absurd step hno
    | bool => rfl
  · next literal =>
    split
    · next hfits =>
      refine .accept fun value => ⟨fun h => ?_, fun h => h ▸ .i32 hfits⟩
      cases h with
      | typedef step => exact absurd step hno
      | i32 => rfl
    · next hfits =>
      refine .refuse _ _ fun value h => ?_
      cases h with
      | typedef step => exact hno step
      | i32 fits => exact hfits fits
  · refine .accept fun value => ⟨fun h => ?_, fun h => h ▸ .i64⟩
    cases h with
    | typedef step => exact absurd step hno
    | i64 => rfl
  · refine .accept fun value => ⟨fun h => ?_, fun h => h ▸ .string⟩
    cases h with
    | typedef step => exact absurd step hno
    | string => rfl
  · next hbool hi32 hi64 hstring =>
    refine .refuse _ _ fun value h => ?_
    cases h with
    | typedef step => exact hno step
    | bool => exact hbool _ _ rfl rfl
    | i32 => exact hi32 _ rfl rfl
    | i64 => exact hi64 _ rfl rfl
    | string => exact hstring _ rfl rfl

/-- Among the items of a list without repeated keys, a key is found at the item that has it. -/
theorem find?_key_eq_some_iff {α : Type} {key : α → String} {items : List α}
    (hnodup : (items.map key).Nodup) (text : String) (item : α) :
    items.find? (key · == text) = some item ↔ item ∈ items ∧ key item = text := by
  constructor
  · intro h
    exact ⟨List.mem_of_find?_eq_some h, by simpa using List.find?_some h⟩
  · rintro ⟨hmem, rfl⟩
    cases hfind : items.find? (key · == key item) with
    | none => simpa using List.find?_eq_none.1 hfind item hmem
    | some other =>
      have hsame : key other = key item := by simpa using List.find?_some hfind
      rw [List.inj_on_of_nodup_map hnodup (List.mem_of_find?_eq_some hfind) hmem hsame]

theorem conforms_list_iff {tree : Nat} {element : TypeRef} {span : Span} {expr : Expr}
    {value : Value} :
    Conforms resolver here ⟨tree, .list element span⟩ expr value ↔
      ∃ exprs exprsSpan values, expr = .list exprs exprsSpan ∧
        ConformsAll resolver here ⟨tree, element⟩ exprs values ∧ .list values = value := by
  constructor
  · intro h
    cases h with
    | typedef step =>
      exact absurd step (Conforms.not_aliases_of_not_name fun _ => TypeRef.noConfusion)
    | list elements => exact ⟨_, _, _, rfl, elements, rfl⟩
  · rintro ⟨exprs, exprsSpan, values, rfl, hvalues, rfl⟩
    exact .list hvalues

theorem conforms_map_iff {tree : Nat} {key value : TypeRef} {span : Span} {expr : Expr}
    {result : Value} :
    Conforms resolver here ⟨tree, .map key value span⟩ expr result ↔
      ∃ exprs exprsSpan values, expr = .map exprs exprsSpan ∧
        ConformsEntries resolver here ⟨tree, key⟩ ⟨tree, value⟩ exprs values ∧
          .map values = result := by
  constructor
  · intro h
    cases h with
    | typedef step =>
      exact absurd step (Conforms.not_aliases_of_not_name fun _ => TypeRef.noConfusion)
    | map entries => exact ⟨_, _, _, rfl, entries, rfl⟩
  · rintro ⟨exprs, exprsSpan, values, rfl, hvalues, rfl⟩
    exact .map hvalues

/-- What conforms to an enum: the name of one of its entries. -/
theorem conforms_enum_iff {tree : Nat} {name : Name} {ref : DeclRef} {decl : EnumDecl}
    (hbinding : resolver.binding? tree name = some ⟨ref, []⟩)
    (hdecl : resolver.enum? ref = some decl) {expr : Expr} {value : Value} :
    Conforms resolver here ⟨tree, .name name⟩ expr value ↔
      ∃ path member numbered, expr = .name path ∧
        resolver.binding? here path = some ⟨ref, [member]⟩ ∧ numbered ∈ decl.numbered ∧
          numbered.1.name.text = member.text ∧ value = .enum ref member.text numbered.2 := by
  constructor
  · intro h
    cases h with
    | typedef step =>
      exact absurd step (Conforms.not_aliases_of_typedef? hbinding
        (Conforms.typedef?_of_enum? hdecl))
    | enum type declared bound numbered named =>
      obtain rfl := (Binding.mk.inj (Option.some.inj (hbinding.symm.trans type))).1
      obtain rfl := Option.some.inj (hdecl.symm.trans declared)
      exact ⟨_, _, _, rfl, bound, numbered, named, rfl⟩
    | struct type declared =>
      obtain rfl := (Binding.mk.inj (Option.some.inj (hbinding.symm.trans type))).1
      rw [Resolver.enum?_eq_some_iff] at hdecl
      rw [Resolver.struct?_eq_some_iff, hdecl] at declared
      cases declared
  · rintro ⟨path, member, numbered, rfl, hpath, hmem, hnamed, rfl⟩
    exact .enum hbinding hdecl hpath hmem hnamed

theorem conforms_enum_name_iff {tree : Nat} {name : Name} {ref target : DeclRef} {decl : EnumDecl}
    (hbinding : resolver.binding? tree name = some ⟨ref, []⟩)
    (hdecl : resolver.enum? ref = some decl) {path : Name} {tail : List Identifier}
    (hpath : resolver.binding? here path = some ⟨target, tail⟩) {value : Value} :
    Conforms resolver here ⟨tree, .name name⟩ (.name path) value ↔
      ∃ member numbered, target = ref ∧ tail = [member] ∧ numbered ∈ decl.numbered ∧
        numbered.1.name.text = member.text ∧ value = .enum ref member.text numbered.2 := by
  rw [conforms_enum_iff hbinding hdecl]
  constructor
  · rintro ⟨path, member, numbered, hpath', hbound', hrest⟩
    obtain rfl := Expr.name.inj hpath'
    obtain ⟨rfl, rfl⟩ := Binding.mk.inj (Option.some.inj (hpath.symm.trans hbound'))
    exact ⟨member, numbered, rfl, rfl, hrest⟩
  · rintro ⟨member, numbered, rfl, rfl, hrest⟩
    exact ⟨path, member, numbered, rfl, hpath, hrest⟩

/-- What conforms to a struct: an initializer that gives fields of it, none twice and none left out
that is required. -/
theorem conforms_struct_iff {tree : Nat} {name : Name} {ref : DeclRef} {decl : StructDecl}
    (hbinding : resolver.binding? tree name = some ⟨ref, []⟩)
    (hdecl : resolver.struct? ref = some decl) {expr : Expr} {value : Value} :
    Conforms resolver here ⟨tree, .name name⟩ expr value ↔
      ∃ exprs exprsSpan values, expr = .map exprs exprsSpan ∧
        ConformsFields resolver here ref decl exprs values ∧ (values.map Prod.fst).Nodup ∧
          (∀ field ∈ decl.fields, field.IsRequired → field.name.text ∈ values.map Prod.fst) ∧
            value = .struct values := by
  constructor
  · intro h
    cases h with
    | typedef step =>
      exact absurd step (Conforms.not_aliases_of_typedef? hbinding
        (Conforms.typedef?_of_struct? hdecl))
    | enum type declared =>
      obtain rfl := (Binding.mk.inj (Option.some.inj (hbinding.symm.trans type))).1
      rw [Resolver.struct?_eq_some_iff] at hdecl
      rw [Resolver.enum?_eq_some_iff, hdecl] at declared
      cases declared
    | struct type declared fields distinct complete =>
      obtain rfl := (Binding.mk.inj (Option.some.inj (hbinding.symm.trans type))).1
      obtain rfl := Option.some.inj (hdecl.symm.trans declared)
      exact ⟨_, _, _, rfl, fields, distinct, complete, rfl⟩
  · rintro ⟨exprs, exprsSpan, values, rfl, hfields, hdistinct, hcomplete, rfl⟩
    exact .struct hbinding hdecl hfields hdistinct hcomplete

/-- A name with one component after an enum that is the wanted one or another. -/
theorem decides_enumMember (hclean : resolver.IsClean) {tree : Nat} {name : Name}
    {ref target : DeclRef} {decl other : EnumDecl}
    (hbinding : resolver.binding? tree name = some ⟨ref, []⟩)
    (hdecl : resolver.enum? ref = some decl) {path : Name} {member : Identifier}
    (hpath : resolver.binding? here path = some ⟨target, [member]⟩)
    (htarget : resolver.enum? target = some other) :
    (enumEntry resolver here ref (.name path)).Decides
      (Conforms resolver here ⟨tree, .name name⟩ (.name path)) := by
  have hrule := fun value => @conforms_enum_name_iff _ _ _ _ _ _ _ hbinding hdecl _ _ hpath value
  have hnodup := Resolver.nodup_entries hclean htarget
  unfold enumEntry
  simp only [hpath, htarget, Resolver.enumMembers?_lookup hclean htarget]
  cases hfind : other.numbered.find? (·.1.name.text == member.text) with
  | none =>
    refine .refuse _ _ fun value h => ?_
    obtain ⟨member', numbered, rfl, htail, hmem, hnamed, -⟩ := (hrule value).1 h
    obtain rfl := (List.cons.inj htail).1
    obtain rfl := Option.some.inj (hdecl.symm.trans htarget)
    simpa [hnamed] using List.find?_eq_none.1 hfind numbered hmem
  | some numbered =>
    obtain ⟨hmem, hnamed⟩ := (find?_key_eq_some_iff hnodup _ _).1 hfind
    by_cases htargetEq : target = ref
    · obtain rfl := Option.some.inj (hdecl.symm.trans (htargetEq ▸ htarget))
      simp only [Option.map_some, htargetEq, ne_eq, not_true_eq_false, if_false]
      refine .accept fun value => (hrule value).trans ⟨?_, fun h => ?_⟩
      · rintro ⟨member', numbered', -, htail, hmem', hnamed', rfl⟩
        obtain rfl := (List.cons.inj htail).1
        have hfind' := (find?_key_eq_some_iff hnodup _ _).2 ⟨hmem', hnamed'⟩
        rw [Option.some.inj (hfind.symm.trans hfind')]
      · exact ⟨member, numbered, htargetEq, rfl, hmem, hnamed, h⟩
    · simp only [Option.map_some, ne_eq, htargetEq, not_false_eq_true, if_true]
      refine .refuse _ _ fun value h => ?_
      obtain ⟨member', numbered', h, -⟩ := (hrule value).1 h
      exact htargetEq h

theorem decides_enumEntry (hclean : resolver.IsClean) {tree : Nat} {name : Name} {ref : DeclRef}
    {decl : EnumDecl} (hbinding : resolver.binding? tree name = some ⟨ref, []⟩)
    (hdecl : resolver.enum? ref = some decl) (expr : Expr)
    (hbound : ∀ path ∈ expr.references, (resolver.binding? here path).isSome) :
    (enumEntry resolver here ref expr).Decides
      (Conforms resolver here ⟨tree, .name name⟩ expr) := by
  cases expr with
  | name path =>
    obtain ⟨⟨target, tail⟩, hpath⟩ :=
      Option.isSome_iff_exists.1 (hbound path (List.mem_singleton.2 rfl))
    cases htarget : resolver.enum? target with
    | none =>
      rw [enumEntry]
      simp only [hpath, htarget]
      refine .refuse _ _ fun value h => ?_
      obtain ⟨member, numbered, rfl, -⟩ := (conforms_enum_name_iff hbinding hdecl hpath).1 h
      exact Option.some_ne_none _ (hdecl.symm.trans htarget)
    | some other =>
      match tail with
      | [] =>
        rw [enumEntry]
        simp only [hpath, htarget]
        refine .refuse _ _ fun value h => ?_
        obtain ⟨_, _, -, htail, -⟩ := (conforms_enum_name_iff hbinding hdecl hpath).1 h
        cases htail
      | _ :: _ :: _ =>
        rw [enumEntry]
        simp only [hpath, htarget]
        refine .refuse _ _ fun value h => ?_
        obtain ⟨_, _, -, htail, -⟩ := (conforms_enum_name_iff hbinding hdecl hpath).1 h
        cases htail
      | [member] => exact decides_enumMember hclean hbinding hdecl hpath htarget
  | _ =>
    refine .refuse _ _ fun value h => ?_
    obtain ⟨path, member, numbered, h, -⟩ := (conforms_enum_iff hbinding hdecl).1 h
    cases h

/-- Values of fields that repeat neither each other nor a field given before. -/
structure IsFresh (decl : StructDecl) (given : List Nat) (values : List (String × Value)) :
    Prop where
  distinct : (values.map Prod.fst).Nodup
  new : ∀ index ∈ given, ∀ field, decl.fields[index]? = some field →
    field.name.text ∉ values.map Prod.fst

/-- What may be made of the entries of a struct initializer after some fields were given. -/
def FieldsRule (resolver : Resolver) (here : Nat) (ref : DeclRef) (decl : StructDecl)
    (given : List Nat) (entries : List (Expr × Expr)) (values : List (String × Value)) : Prop :=
  ConformsFields resolver here ref decl entries values ∧ IsFresh decl given values

/-- Progress through a struct initializer is what the rule allows: entries that it accepts are
added and nothing is reported, and after any other entries there are no values. -/
structure DecidesFields (decl : StructDecl) (progress : FieldProgress)
    (x : Reporting FieldProgress) (rule : List (String × Value) → Prop) : Prop where
  silent_iff : x.Silent ↔ ∃ values, rule values
  accepted : ∀ values, rule values → x.value.values = progress.values.map (· ++ values) ∧
    ∀ index, index ∈ x.value.given ↔ index ∈ progress.given ∨
      ∃ field, decl.fields[index]? = some field ∧ field.name.text ∈ values.map Prod.fst
  refused : (¬ ∃ values, rule values) → x.value.values = none

theorem DecidesFields.values_none {decl : StructDecl} {given : List Nat}
    {x : Reporting FieldProgress} {rule : List (String × Value) → Prop}
    (h : DecidesFields decl ⟨given, none⟩ x rule) : x.value.values = none := by
  by_cases hrule : ∃ values, rule values
  · obtain ⟨values, hvalues⟩ := hrule
    exact (h.accepted values hvalues).1
  · exact h.refused hrule

/-- A key either names a field that was not given before, or is refused. -/
theorem fieldKey_cases {decl : StructDecl} {fields : Scope}
    (hlookup : ∀ name, fields.lookup name = decl.fields.findIdx? (·.name.text == name))
    (given : List Nat) (key : Expr) :
    (∃ literal index field, key = .string literal ∧ decl.fields[index]? = some field ∧
        field.name.text = literal.text ∧ index ∉ given ∧
          fieldKey decl fields given key = pure (some (literal.text, index))) ∨
      ((∃ span message, fieldKey decl fields given key = refuse span message) ∧
        ∀ literal, key = .string literal →
          (∀ field ∈ decl.fields, field.name.text ≠ literal.text) ∨
            ∃ index ∈ given, ∃ field, decl.fields[index]? = some field ∧
              field.name.text = literal.text) := by
  cases key with
  | string literal =>
    cases hindex : decl.fields.findIdx? (·.name.text == literal.text) with
    | none =>
      refine .inr ⟨⟨_, _, by simp only [fieldKey, hlookup, hindex]; rfl⟩, fun other hother => ?_⟩
      obtain rfl := Expr.string.inj hother
      exact .inl fun field hfield h =>
        by simpa [h] using List.findIdx?_eq_none_iff.1 hindex field hfield
    | some index =>
      obtain ⟨hlt, hnamed, -⟩ := List.findIdx?_eq_some_iff_getElem.1 hindex
      have hfield : decl.fields[index]? = some decl.fields[index] := List.getElem?_eq_getElem hlt
      by_cases hgiven : index ∈ given
      · refine .inr ⟨⟨_, _, by simp only [fieldKey, hlookup, hindex, hgiven, if_true]; rfl⟩,
          fun other hother => ?_⟩
        obtain rfl := Expr.string.inj hother
        exact .inr ⟨index, hgiven, _, hfield, by simpa using hnamed⟩
      · exact .inl ⟨literal, index, _, rfl, hfield, by simpa using hnamed, hgiven,
          by simp only [fieldKey, hlookup, hindex, hgiven, if_false]⟩
  | _ => exact .inr ⟨⟨_, _, rfl⟩, fun _ h => by cases h⟩

theorem getElem?_inj_of_nodup {decl : StructDecl}
    (hnodup : (decl.fields.map (·.name.text)).Nodup) {i j : Nat} {field : Field}
    (hi : decl.fields[i]? = some field) (hj : decl.fields[j]? = some field) : i = j := by
  have hfields : decl.fields.Nodup := List.Nodup.of_map _ hnodup
  obtain ⟨hlt, -⟩ := List.getElem?_eq_some_iff.1 hi
  exact (List.getElem?_inj hlt hfields).1 (hi.trans hj.symm)

/-- A field that is not among those given before extends what may be made of the entries. -/
theorem fieldsRule_cons_iff {ref : DeclRef} {decl : StructDecl}
    (hnodup : (decl.fields.map (·.name.text)).Nodup) {given : List Nat} {literal : StringLiteral}
    {index : Nat} {field : Field} (hfield : decl.fields[index]? = some field)
    (hnamed : field.name.text = literal.text) (hgiven : index ∉ given) (expr : Expr)
    (entries : List (Expr × Expr)) (values : List (String × Value)) :
    FieldsRule resolver here ref decl given ((.string literal, expr) :: entries) values ↔
      ∃ value rest, Conforms resolver here ⟨ref.tree, field.type⟩ expr value ∧
        FieldsRule resolver here ref decl (index :: given) entries rest ∧
          values = (literal.text, value) :: rest := by
  have hunique : ∀ other ∈ decl.fields, other.name.text = literal.text → other = field := by
    intro other hother h
    exact List.inj_on_of_nodup_map hnodup hother (List.mem_of_getElem? hfield)
      (h.trans hnamed.symm)
  constructor
  · rintro ⟨hconforms, hdistinct, hnew⟩
    cases hconforms with
    | cons declared named conforms tail =>
      obtain rfl := hunique _ declared named
      rw [List.map_cons, List.nodup_cons] at hdistinct
      refine ⟨_, _, conforms, ⟨tail, hdistinct.2, fun i hi other hother => ?_⟩, rfl⟩
      rcases List.mem_cons.1 hi with rfl | hi
      · obtain rfl := Option.some.inj (hfield.symm.trans hother)
        exact hnamed ▸ hdistinct.1
      · exact fun h => hnew i hi other hother (List.mem_cons_of_mem _ h)
  · rintro ⟨value, rest, hvalue, ⟨hrest, hdistinct, hnew⟩, rfl⟩
    have hmem := List.mem_of_getElem? hfield
    refine ⟨.cons hmem hnamed hvalue hrest, ?_, fun i hi other hother => ?_⟩
    · rw [List.map_cons, List.nodup_cons]
      exact ⟨hnamed ▸ hnew index List.mem_cons_self field hfield, hdistinct⟩
    · rw [List.map_cons, List.mem_cons, not_or]
      refine ⟨fun h => hgiven ?_, hnew i (List.mem_cons_of_mem _ hi) other hother⟩
      have hsame : other = field := hunique other (List.mem_of_getElem? hother) h
      exact getElem?_inj_of_nodup hnodup (hsame ▸ hother) hfield ▸ hi

theorem decidesFields_nil (ref : DeclRef) (decl : StructDecl) (progress : FieldProgress) :
    DecidesFields decl progress (pure progress)
      (FieldsRule resolver here ref decl progress.given []) where
  silent_iff := ⟨fun _ => ⟨[], .nil, by simp, by simp⟩, fun _ => silent_pure _⟩
  accepted values h := by
    obtain ⟨hconforms, -⟩ := h
    cases hconforms
    simp
  refused h := absurd ⟨[], .nil, by simp, by simp⟩ h

/-- The entries may be made something of exactly if the first has a value and the rest may. -/
theorem exists_fieldsRule_cons_iff {ref : DeclRef} {decl : StructDecl}
    (hnodup : (decl.fields.map (·.name.text)).Nodup) {given : List Nat} {literal : StringLiteral}
    {index : Nat} {field : Field} (hfield : decl.fields[index]? = some field)
    (hnamed : field.name.text = literal.text) (hgiven : index ∉ given) {expr : Expr}
    {entries : List (Expr × Expr)} {x : Reporting (Option Value)}
    (hx : x.Decides (Conforms resolver here ⟨ref.tree, field.type⟩ expr)) :
    (∃ values, FieldsRule resolver here ref decl given ((.string literal, expr) :: entries)
        values) ↔
      x.value.isSome ∧ ∃ values, FieldsRule resolver here ref decl (index :: given) entries
        values := by
  simp only [fieldsRule_cons_iff hnodup hfield hnamed hgiven, Option.isSome_iff_exists,
    hx.value_iff]
  constructor
  · rintro ⟨_, value, rest, hvalue, hrest, -⟩
    exact ⟨⟨value, hvalue⟩, rest, hrest⟩
  · rintro ⟨⟨value, hvalue⟩, rest, hrest⟩
    exact ⟨_, value, rest, hvalue, hrest, rfl⟩

/-- The fields that are given once one more is. -/
theorem given_cons_iff {decl : StructDecl} (hnodup : (decl.fields.map (·.name.text)).Nodup)
    {given : List Nat} {index : Nat} {field : Field} (hfield : decl.fields[index]? = some field)
    (names : List String) (i : Nat) :
    (i ∈ index :: given ∨ ∃ other, decl.fields[i]? = some other ∧ other.name.text ∈ names) ↔
      i ∈ given ∨ ∃ other, decl.fields[i]? = some other ∧
        other.name.text ∈ field.name.text :: names := by
  simp only [List.mem_cons]
  constructor
  · rintro ((rfl | hi) | ⟨other, hother, hmem⟩)
    · exact .inr ⟨field, hfield, .inl rfl⟩
    · exact .inl hi
    · exact .inr ⟨other, hother, .inr hmem⟩
  · rintro (hi | ⟨other, hother, hname | hmem⟩)
    · exact .inl (.inr hi)
    · have hsame : other = field := List.inj_on_of_nodup_map hnodup
        (List.mem_of_getElem? hother) (List.mem_of_getElem? hfield) hname
      exact .inl (.inl (getElem?_inj_of_nodup hnodup (hsame ▸ hother) hfield))
    · exact .inr ⟨other, hother, hmem⟩

/-- A field that was not given before is given, and its value is looked at. -/
theorem decidesFields_cons {ref : DeclRef} {decl : StructDecl}
    (hnodup : (decl.fields.map (·.name.text)).Nodup) {progress : FieldProgress}
    {literal : StringLiteral} {index : Nat} {field : Field}
    (hfield : decl.fields[index]? = some field) (hnamed : field.name.text = literal.text)
    (hgiven : index ∉ progress.given) {expr : Expr} {entries : List (Expr × Expr)}
    {x : Reporting (Option Value)} {rest : FieldProgress → Reporting FieldProgress}
    (hx : x.Decides (Conforms resolver here ⟨ref.tree, field.type⟩ expr))
    (hrest : ∀ progress, DecidesFields decl progress (rest progress)
      (FieldsRule resolver here ref decl progress.given entries)) :
    DecidesFields decl progress
      (do
        let value ← x
        rest (({ progress with given := index :: progress.given } : FieldProgress).add
          literal.text value))
      (FieldsRule resolver here ref decl progress.given ((.string literal, expr) :: entries)) := by
  have hexists := @exists_fieldsRule_cons_iff _ _ _ _ hnodup _ _ _ _ hfield hnamed hgiven _
    entries _ hx
  have hdecided := hrest
    (({ progress with given := index :: progress.given } : FieldProgress).add literal.text x.value)
  constructor
  · rw [silent_bind_iff, hx.silent_iff, hdecided.silent_iff, hexists]
    rfl
  · intro values h
    obtain ⟨value, values, hvalue, hvalues, rfl⟩ :=
      (fieldsRule_cons_iff hnodup hfield hnamed hgiven expr entries values).1 h
    obtain ⟨hadded, hindexes⟩ := hdecided.accepted values hvalues
    rw [value_bind, hadded]
    constructor
    · rw [(hx.value_iff value).2 hvalue]
      cases progress.values <;> simp [FieldProgress.add]
    · intro i
      rw [hindexes]
      exact hnamed ▸ given_cons_iff hnodup hfield (values.map Prod.fst) i
  · intro h
    rw [value_bind]
    -- if the rest is accepted, it is the value of this field that there is none of
    by_cases hrestRule : ∃ values,
        FieldsRule resolver here ref decl (index :: progress.given) entries values
    · have hnone : x.value = none :=
        Option.not_isSome_iff_eq_none.1 fun hvalue => h (hexists.2 ⟨hvalue, hrestRule⟩)
      obtain ⟨values, hvalues⟩ := hrestRule
      rw [(hdecided.accepted values hvalues).1, hnone]
      simp [FieldProgress.add]
    · exact hdecided.refused hrestRule

/-- A refused key spoils the whole initializer, and the entries after it are looked at. -/
theorem decidesFields_refuse {decl : StructDecl} {progress : FieldProgress} {span : Span}
    {message : Message} {rest : Option (String × Nat) → Reporting FieldProgress}
    {restRule rule : List (String × Value) → Prop}
    (hrest : DecidesFields decl { progress with values := none } (rest none) restRule)
    (hrule : ∀ values, ¬ rule values) :
    DecidesFields decl progress (refuse span message >>= rest) rule where
  silent_iff := by
    simp only [silent_bind_iff, refuse, not_silent_error, false_and, false_iff]
    exact fun ⟨values, h⟩ => hrule values h
  accepted values h := absurd h (hrule values)
  refused _ := hrest.values_none

/-- The check for missing fields is silent exactly if every required field was given. -/
theorem missingFields_spec (span : Span) (decl : StructDecl) (given : List Nat) :
    ((missingFields span decl given).Silent ↔ (missingFields span decl given).value = true) ∧
      ((missingFields span decl given).value = true ↔ ∀ index field,
        decl.fields[index]? = some field → field.IsRequired → index ∈ given) := by
  unfold missingFields
  constructor
  · rw [silent_bind_iff, silent_forM_iff]
    simp [silent_pure, not_silent_error, List.eq_nil_iff_forall_not_mem]
  · simp only [value_bind, value_pure, List.isEmpty_iff, List.filter_eq_nil_iff, Prod.forall,
      List.mem_zipIdx_iff_getElem?, decide_eq_true_eq, Field.IsRequired, Option.isNone_iff_eq_none]
    constructor
    · intro h index field hfield hrequired
      by_contra hgiven
      exact h field index hfield ⟨hrequired.1, hrequired.2, hgiven⟩
    · intro h field index hfield ⟨hrequiredness, hdefault, hgiven⟩
      exact hgiven (h index field hfield ⟨hrequiredness, hdefault⟩)

/-- An initializer conforms to a struct exactly if something may be made of its entries and no
field is missing. -/
theorem conforms_initializer_iff {tree : Nat} {name : Name} {ref : DeclRef} {decl : StructDecl}
    (hbinding : resolver.binding? tree name = some ⟨ref, []⟩)
    (hdecl : resolver.struct? ref = some decl) {entries : List (Expr × Expr)} {span : Span}
    {x : Reporting FieldProgress}
    (hx : DecidesFields decl ⟨[], some []⟩ x (FieldsRule resolver here ref decl [] entries))
    (value : Value) :
    Conforms resolver here ⟨tree, .name name⟩ (.map entries span) value ↔
      ∃ values, FieldsRule resolver here ref decl [] entries values ∧
        (missingFields span decl x.value.given).value = true ∧ value = .struct values := by
  have hcomplete := (missingFields_spec span decl x.value.given).2
  rw [conforms_struct_iff hbinding hdecl]
  constructor
  · rintro ⟨_, _, values, hentries, hfields, hdistinct, hall, rfl⟩
    obtain ⟨rfl, rfl⟩ := Expr.map.inj hentries
    have hvalues : FieldsRule resolver here ref decl [] entries values :=
      ⟨hfields, hdistinct, by simp⟩
    refine ⟨values, hvalues, hcomplete.2 fun index field hfield hrequired => ?_, rfl⟩
    exact ((hx.accepted _ hvalues).2 index).2
      (.inr ⟨field, hfield, hall field (List.mem_of_getElem? hfield) hrequired⟩)
  · rintro ⟨values, hvalues, hall, rfl⟩
    refine ⟨_, _, values, rfl, hvalues.1, hvalues.2.distinct, fun field hfield hrequired => ?_, rfl⟩
    obtain ⟨index, hlt, rfl⟩ := List.getElem_of_mem hfield
    have hget := List.getElem?_eq_getElem hlt
    rcases ((hx.accepted _ hvalues).2 index).1 (hcomplete.1 hall index _ hget hrequired) with
      h | ⟨other, hother, hmem⟩
    · cases h
    · exact Option.some.inj (hget.symm.trans hother) ▸ hmem

/-- The entries have values exactly if something may be made of them, and then these values. -/
theorem DecidesFields.values_eq_some_iff {decl : StructDecl} {x : Reporting FieldProgress}
    {rule : List (String × Value) → Prop} (hx : DecidesFields decl ⟨[], some []⟩ x rule)
    (values : List (String × Value)) : x.value.values = some values ↔ rule values := by
  constructor
  · intro hvalues
    by_cases haccepted : ∃ values, rule values
    · obtain ⟨accepted, haccepted⟩ := haccepted
      obtain rfl : accepted = values := by
        simpa [hvalues, eq_comm] using (hx.accepted accepted haccepted).1
      exact haccepted
    · cases (hx.refused haccepted).symm.trans hvalues
  · intro h
    simp [(hx.accepted values h).1]

/-- From the entries of a struct initializer to the initializer as a whole. -/
theorem decides_initializer {tree : Nat} {name : Name} {ref : DeclRef} {decl : StructDecl}
    (hbinding : resolver.binding? tree name = some ⟨ref, []⟩)
    (hdecl : resolver.struct? ref = some decl) {entries : List (Expr × Expr)} {span : Span}
    {x : Reporting FieldProgress}
    (hx : DecidesFields decl ⟨[], some []⟩ x (FieldsRule resolver here ref decl [] entries)) :
    Decides (do
        let progress ← x
        let complete ← missingFields span decl progress.given
        return if complete then progress.values.map .struct else none)
      (Conforms resolver here ⟨tree, .name name⟩ (.map entries span)) := by
  have hmissing := (missingFields_spec span decl x.value.given).1
  constructor
  · intro value
    rw [conforms_initializer_iff hbinding hdecl hx]
    simp only [value_bind, value_pure, ← hx.values_eq_some_iff]
    cases (missingFields span decl x.value.given).value <;>
      simp [Option.map_eq_some_iff, eq_comm]
  · rw [silent_bind_iff, silent_bind_iff, hx.silent_iff, hmissing]
    simp only [silent_pure, and_true, value_bind, value_pure, ← hx.values_eq_some_iff]
    cases (missingFields span decl x.value.given).value <;>
      simp [Option.isSome_iff_exists]

section

variable {tree : Nat} {expr : Expr}

theorem decides_list {element : TypeRef} {span : Span}
    (helements : ∀ exprs exprsSpan, expr = .list exprs exprsSpan →
      (coerceElements resolver here ⟨tree, element⟩ exprs).Decides
        (ConformsAll resolver here ⟨tree, element⟩ exprs)) :
    Decides (match expr with
      | .list exprs _ => do
        return (← coerceElements resolver here ⟨tree, element⟩ exprs).map .list
      | _ => Coercion.refuse expr.span (.notAList expr.kind))
      (Conforms resolver here ⟨tree, .list element span⟩ expr) := by
  cases expr with
  | list exprs exprsSpan =>
    refine ((helements exprs exprsSpan rfl).map Value.list).congr fun value => ?_
    rw [conforms_list_iff]
    constructor
    · rintro ⟨_, _, values, hexprs, hvalues, rfl⟩
      obtain ⟨rfl, rfl⟩ := Expr.list.inj hexprs
      exact ⟨values, hvalues, rfl⟩
    · rintro ⟨values, hvalues, rfl⟩
      exact ⟨_, _, values, rfl, hvalues, rfl⟩
  | _ =>
    refine .refuse _ _ fun value h => ?_
    obtain ⟨exprs, exprsSpan, values, h, -⟩ := conforms_list_iff.1 h
    cases h

theorem decides_map {key value : TypeRef} {span : Span}
    (hentries : ∀ exprs exprsSpan, expr = .map exprs exprsSpan →
      (coerceEntries resolver here ⟨tree, key⟩ ⟨tree, value⟩ exprs).Decides
        (ConformsEntries resolver here ⟨tree, key⟩ ⟨tree, value⟩ exprs)) :
    Decides (match expr with
      | .map exprs _ => do
        return (← coerceEntries resolver here ⟨tree, key⟩ ⟨tree, value⟩ exprs).map .map
      | _ => Coercion.refuse expr.span (.notAMap expr.kind))
      (Conforms resolver here ⟨tree, .map key value span⟩ expr) := by
  cases expr with
  | map exprs exprsSpan =>
    refine ((hentries exprs exprsSpan rfl).map Value.map).congr fun result => ?_
    rw [conforms_map_iff]
    constructor
    · rintro ⟨_, _, values, hexprs, hvalues, rfl⟩
      obtain ⟨rfl, rfl⟩ := Expr.map.inj hexprs
      exact ⟨values, hvalues, rfl⟩
    · rintro ⟨values, hvalues, rfl⟩
      exact ⟨_, _, values, rfl, hvalues, rfl⟩
  | _ =>
    refine .refuse _ _ fun result h => ?_
    obtain ⟨exprs, exprsSpan, values, h, -⟩ := conforms_map_iff.1 h
    cases h

theorem decides_struct {name : Name} {ref : DeclRef} {decl : StructDecl} {fields : Scope}
    (hbinding : resolver.binding? tree name = some ⟨ref, []⟩)
    (hdecl : resolver.struct? ref = some decl)
    (hmembers : resolver.structMembers? ref = some fields)
    (hfields : ∀ exprs exprsSpan, expr = .map exprs exprsSpan →
      DecidesFields decl ⟨[], some []⟩
        (coerceFields resolver here ref decl fields ⟨[], some []⟩ exprs)
        (FieldsRule resolver here ref decl [] exprs)) :
    Decides (match expr with
      | .map exprs span =>
        match resolver.structMembers? ref with
        | none => return none
        | some fields => do
          let progress ← coerceFields resolver here ref decl fields ⟨[], some []⟩ exprs
          let complete ← missingFields span decl progress.given
          return if complete then progress.values.map .struct else none
      | _ => Coercion.refuse expr.span .notStructInitializer)
      (Conforms resolver here ⟨tree, .name name⟩ expr) := by
  cases expr with
  | map exprs exprsSpan =>
    simp only [hmembers]
    exact decides_initializer hbinding hdecl (hfields exprs exprsSpan rfl)
  | _ =>
    refine .refuse _ _ fun value h => ?_
    obtain ⟨exprs, exprsSpan, values, h, -⟩ := (conforms_struct_iff hbinding hdecl).1 h
    cases h

end

/-- One level of coercion: a type that is no typedef name, and an expression whose parts are
treated as the rules say. -/
theorem decides_level (hclean : resolver.IsClean) (hresolve : resolver.TypesResolve)
    (hend : resolver.TypedefsEnd) {type : LocatedType} (hproper : resolver.IsProper type)
    {expr : Expr} (hbound : ∀ name ∈ expr.references, (resolver.binding? here name).isSome)
    (helements : ∀ elements span, expr = .list elements span → ∀ type, resolver.IsProper type →
      (coerceElements resolver here type elements).Decides
        (ConformsAll resolver here type elements))
    (hentries : ∀ entries span, expr = .map entries span → ∀ keyType valueType,
      resolver.IsProper keyType → resolver.IsProper valueType →
        (coerceEntries resolver here keyType valueType entries).Decides
          (ConformsEntries resolver here keyType valueType entries))
    (hfields : ∀ entries span, expr = .map entries span → ∀ ref decl fields progress,
      resolver.struct? ref = some decl → resolver.structMembers? ref = some fields →
        DecidesFields decl progress (coerceFields resolver here ref decl fields progress entries)
          (FieldsRule resolver here ref decl progress.given entries)) :
    (coerce resolver here type expr).Decides (Conforms resolver here type expr) := by
  obtain ⟨⟨⟨tree, written⟩, target, last⟩, hunwrap, hchain, hproper, hno, htarget⟩ :=
    Resolver.unwrap_ok hresolve hend hproper
  refine Decides.congr ?_ (Conforms.iff_of_chain hchain expr)
  rw [coerce, hunwrap]
  cases written with
  | builtin type span => exact decides_builtin tree type span expr
  | list element span =>
    exact decides_list fun exprs exprsSpan h => helements exprs exprsSpan h _ hproper
  | map key value span =>
    exact decides_map fun exprs exprsSpan h => hentries exprs exprsSpan h _ _
      (fun name hname => hproper name (List.mem_append_left _ hname))
      (fun name hname => hproper name (List.mem_append_right _ hname))
  | name name =>
    obtain ⟨ref, hbinding, rfl⟩ := htarget name rfl
    obtain ⟨ref', declaration, hbinding', hdeclaration, htype⟩ :=
      hproper name (List.mem_singleton.2 rfl)
    obtain rfl := (Binding.mk.inj (Option.some.inj (hbinding.symm.trans hbinding'))).1
    simp only [Option.bind_some, hdeclaration, Option.map_some]
    cases declaration with
    | enum decl =>
      exact decides_enumEntry hclean hbinding ((Resolver.enum?_eq_some_iff ref decl).2 hdeclaration)
        expr hbound
    | struct decl =>
      have hdecl : resolver.struct? ref = some decl :=
        (Resolver.struct?_eq_some_iff ref decl).2 hdeclaration
      obtain ⟨fields, hmembers, -⟩ := Resolver.structMembers?_lookup hclean hdecl
      exact decides_struct hbinding hdecl hmembers fun exprs exprsSpan h =>
        hfields exprs exprsSpan h ref decl fields _ hdecl hmembers
    | typedef decl =>
      exact absurd ⟨name, rfl, hbinding, (Resolver.typedef?_eq_some_iff ref _).2
        ⟨decl, hdeclaration, rfl⟩⟩ (hno ref ⟨ref.tree, decl.type⟩)
    | constant decl => cases htype
    | service decl => cases htype

mutual

theorem decides_coerce (hclean : resolver.IsClean) (hresolve : resolver.TypesResolve)
    (hend : resolver.TypedefsEnd) :
    ∀ (expr : Expr) (type : LocatedType), resolver.IsProper type →
      (∀ name ∈ expr.references, (resolver.binding? here name).isSome) →
        (coerce resolver here type expr).Decides (Conforms resolver here type expr)
  | .list elements _, type, hproper, hbound =>
    decides_level hclean hresolve hend hproper hbound
      (fun _ _ h type hproper => (Expr.list.inj h).1 ▸
        decides_coerceElements hclean hresolve hend elements type hproper hbound)
      (fun _ _ h => by cases h) (fun _ _ h => by cases h)
  | .map entries _, type, hproper, hbound =>
    decides_level hclean hresolve hend hproper hbound (fun _ _ h => by cases h)
      (fun _ _ h keyType valueType hkey hvalue => (Expr.map.inj h).1 ▸
        decides_coerceEntries hclean hresolve hend entries keyType valueType hkey hvalue hbound)
      (fun _ _ h ref decl fields progress hdecl hmembers => (Expr.map.inj h).1 ▸
        decides_coerceFields hclean hresolve hend entries ref decl fields progress hdecl hmembers
          hbound)
  | .integer _, type, hproper, hbound =>
    decides_level hclean hresolve hend hproper hbound (fun _ _ h => by cases h)
      (fun _ _ h => by cases h) (fun _ _ h => by cases h)
  | .string _, type, hproper, hbound =>
    decides_level hclean hresolve hend hproper hbound (fun _ _ h => by cases h)
      (fun _ _ h => by cases h) (fun _ _ h => by cases h)
  | .bool _ _, type, hproper, hbound =>
    decides_level hclean hresolve hend hproper hbound (fun _ _ h => by cases h)
      (fun _ _ h => by cases h) (fun _ _ h => by cases h)
  | .name _, type, hproper, hbound =>
    decides_level hclean hresolve hend hproper hbound (fun _ _ h => by cases h)
      (fun _ _ h => by cases h) (fun _ _ h => by cases h)

theorem decides_coerceElements (hclean : resolver.IsClean) (hresolve : resolver.TypesResolve)
    (hend : resolver.TypedefsEnd) :
    ∀ (exprs : List Expr) (type : LocatedType), resolver.IsProper type →
      (∀ name ∈ Expr.referencesAll exprs, (resolver.binding? here name).isSome) →
        (coerceElements resolver here type exprs).Decides (ConformsAll resolver here type exprs)
  | [], type, _, _ => by
    rw [coerceElements]
    refine .accept fun values => ⟨fun h => ?_, fun h => h ▸ .nil⟩
    cases h
    rfl
  | expr :: exprs, type, hproper, hbound => by
    rw [coerceElements]
    refine ((decides_coerce hclean hresolve hend expr type hproper
      fun name hname => hbound name (List.mem_append_left _ hname)).both
      (decides_coerceElements hclean hresolve hend exprs type hproper
        fun name hname => hbound name (List.mem_append_right _ hname)) List.cons).congr
      fun values => ⟨fun h => ?_, ?_⟩
    · cases h with
      | cons head tail => exact ⟨_, _, head, tail, rfl⟩
    · rintro ⟨value, values, hvalue, hvalues, rfl⟩
      exact .cons hvalue hvalues

theorem decides_coerceEntries (hclean : resolver.IsClean) (hresolve : resolver.TypesResolve)
    (hend : resolver.TypedefsEnd) :
    ∀ (entries : List (Expr × Expr)) (keyType valueType : LocatedType),
      resolver.IsProper keyType → resolver.IsProper valueType →
        (∀ name ∈ Expr.referencesEntries entries, (resolver.binding? here name).isSome) →
          (coerceEntries resolver here keyType valueType entries).Decides
            (ConformsEntries resolver here keyType valueType entries)
  | [], keyType, valueType, _, _, _ => by
    rw [coerceEntries]
    refine .accept fun values => ⟨fun h => ?_, fun h => h ▸ .nil⟩
    cases h
    rfl
  | (key, value) :: entries, keyType, valueType, hkey, hvalue, hbound => by
    have hkeyDecided := decides_coerce hclean hresolve hend key keyType hkey
      fun name hname => hbound name (List.mem_append_left _ (List.mem_append_left _ hname))
    have hvalueDecided := decides_coerce hclean hresolve hend value valueType hvalue
      fun name hname => hbound name (List.mem_append_left _ (List.mem_append_right _ hname))
    have hentries := decides_coerceEntries hclean hresolve hend entries keyType valueType hkey
      hvalue fun name hname => hbound name (List.mem_append_right _ hname)
    rw [coerceEntries]
    refine (hkeyDecided.three hvalueDecided hentries fun key value rest =>
      (key, value) :: rest).congr fun values => ⟨fun h => ?_, ?_⟩
    · cases h with
      | cons key value tail => exact ⟨_, _, _, key, value, tail, rfl⟩
    · rintro ⟨key, value, values, hkey, hvalue, hvalues, rfl⟩
      exact .cons hkey hvalue hvalues

theorem decides_coerceFields (hclean : resolver.IsClean) (hresolve : resolver.TypesResolve)
    (hend : resolver.TypedefsEnd) :
    ∀ (entries : List (Expr × Expr)) (ref : DeclRef) (decl : StructDecl) (fields : Scope)
      (progress : FieldProgress), resolver.struct? ref = some decl →
        resolver.structMembers? ref = some fields →
          (∀ name ∈ Expr.referencesEntries entries, (resolver.binding? here name).isSome) →
            DecidesFields decl progress
              (coerceFields resolver here ref decl fields progress entries)
              (FieldsRule resolver here ref decl progress.given entries)
  | [], ref, decl, fields, progress, _, _, _ => by
    rw [coerceFields]
    exact decidesFields_nil ref decl progress
  | (key, value) :: entries, ref, decl, fields, progress, hdecl, hmembers, hbound => by
    obtain ⟨fields', hmembers', hlookup⟩ := Resolver.structMembers?_lookup hclean hdecl
    obtain rfl := Option.some.inj (hmembers.symm.trans hmembers')
    have hrest := fun progress => decides_coerceFields hclean hresolve hend entries ref decl fields
      progress hdecl hmembers fun name hname => hbound name (List.mem_append_right _ hname)
    rw [coerceFields]
    rcases fieldKey_cases hlookup progress.given key with
      ⟨literal, index, field, rfl, hfield, hnamed, hgiven, hkey⟩ | ⟨⟨span, message, hkey⟩, hbad⟩
    · have hproper : resolver.IsProper ⟨ref.tree, field.type⟩ :=
        Resolver.isProper_of_declaration? hresolve
          ((Resolver.struct?_eq_some_iff ref decl).1 hdecl)
          (List.mem_map.2 ⟨field, List.mem_of_getElem? hfield, rfl⟩)
      have hvalue := decides_coerce hclean hresolve hend value ⟨ref.tree, field.type⟩ hproper
        fun name hname => hbound name (List.mem_append_left _ (List.mem_append_right _ hname))
      simp only [hkey, pure_bind, fieldType?, hfield, Option.map_some]
      have hnodup := Resolver.nodup_fields hclean hdecl
      exact decidesFields_cons hnodup hfield hnamed hgiven hvalue hrest
    · rw [hkey]
      refine decidesFields_refuse (hrest _) fun values h => ?_
      obtain ⟨hconforms, hdistinct, hnew⟩ := h
      cases hconforms with
      | cons declared named conforms tail =>
        rcases hbad _ rfl with hnone | ⟨index, hindex, other, hother, hname⟩
        · exact hnone _ declared named
        · exact hnew index hindex other hother (hname ▸ List.mem_cons_self)

end

/-- Coercion is exactly the typing rules. In a program whose names were entered and bound without
a report, in which every type name stands for a type and typedef chains end, an initializer or a
part of one gets the value with which it conforms to a type written anywhere in the program, and
there is a report exactly if it conforms with no value. -/
theorem coerce_iff_conforms (hclean : resolver.IsClean) (hresolve : resolver.TypesResolve)
    (hend : resolver.TypedefsEnd) {tree : SourceTree}
    (htree : resolver.program.trees[here]? = some tree) {type : LocatedType}
    (htype : resolver.IsWritten type) {initializer expr : Expr}
    (hinitializer : initializer ∈ tree.document.initializers) (hexpr : expr ∈ initializer.parts) :
    (∀ value, (coerce resolver here type expr).value = some value ↔
        Conforms resolver here type expr value) ∧
      ((coerce resolver here type expr).value.isSome ↔
        (coerce resolver here type expr).reports = []) := by
  have hdecided := decides_coerce hclean hresolve hend expr type
    (Resolver.isProper_of_isWritten hresolve htype) fun name hname =>
      Resolver.isSome_binding? hclean htree
        (tree.document.references_subset_of_mem_initializers hinitializer
          (Expr.references_subset_of_mem_parts hexpr hname))
  exact ⟨hdecided.value_iff, hdecided.silent_iff.symm⟩

/-- A file with an enum and a struct that has a field of it. -/
def pixelTree : SourceTree where
  package := "pixel"
  source := ⟨"pixel.thrift",
    "enum Color \x7b RED, GREEN = 5 \x7d struct Pixel \x7b 1: Color color \x7d"⟩
  document :=
    { namespaces := []
      includes := []
      declarations := [
        .enum ⟨⟨"Color", ⟨5, 10⟩⟩, [⟨⟨"RED", ⟨13, 16⟩⟩, none, ⟨13, 16⟩⟩,
          ⟨⟨"GREEN", ⟨18, 23⟩⟩, some ⟨5, ⟨26, 27⟩⟩, ⟨18, 27⟩⟩], ⟨0, 29⟩⟩,
        .struct ⟨.struct, ⟨"Pixel", ⟨37, 42⟩⟩, [⟨some ⟨1, ⟨45, 46⟩⟩, none,
          .name ⟨⟨"Color", ⟨48, 53⟩⟩, [], ⟨48, 53⟩⟩, ⟨"color", ⟨54, 59⟩⟩, none, ⟨45, 59⟩⟩],
          ⟨30, 61⟩⟩]
      span := ⟨0, 61⟩ }
  includes := []

/-- An initializer for a list of structs, written in the file of `rowTree`. -/
def rowExpr : Expr :=
  .list [.map [(.string ⟨"color", ⟨62, 69⟩⟩, .name ⟨⟨"pixel", ⟨71, 76⟩⟩,
    [⟨"Color", ⟨77, 82⟩⟩, ⟨"GREEN", ⟨83, 88⟩⟩], ⟨71, 88⟩⟩)] ⟨61, 89⟩] ⟨60, 90⟩

/-- A file with a typedef of a list of structs from another file, and a constant of that type. -/
def rowTree : SourceTree where
  package := "row"
  source := ⟨"row.thrift", "include \"pixel\" typedef list<pixel.Pixel> Row " ++
    "const Row R = [\x7b\"color\": pixel.Color.GREEN\x7d]"⟩
  document :=
    { namespaces := []
      includes := [⟨⟨"pixel", ⟨8, 15⟩⟩, ⟨0, 15⟩⟩]
      declarations := [
        .typedef ⟨.list (.name ⟨⟨"pixel", ⟨29, 34⟩⟩, [⟨"Pixel", ⟨35, 40⟩⟩], ⟨29, 40⟩⟩) ⟨24, 41⟩,
          ⟨"Row", ⟨42, 45⟩⟩, ⟨16, 45⟩⟩,
        .constant ⟨.name ⟨⟨"Row", ⟨52, 55⟩⟩, [], ⟨52, 55⟩⟩, ⟨"R", ⟨56, 57⟩⟩, rowExpr, ⟨46, 90⟩⟩]
      span := ⟨0, 90⟩ }
  includes := [⟨"pixel", ⟨⟨"pixel", ⟨8, 15⟩⟩, ⟨0, 15⟩⟩, 0⟩]

/-- The two files as a program, with their tables. -/
def rowResolver : Resolver :=
  let symbols : Table Symbols :=
    [(0, (enterSymbols pixelTree.document).value), (1, (enterSymbols rowTree.document).value)]
  { program := ⟨[pixelTree, rowTree], 1⟩
    symbols
    bindings := [(0, (bindNames symbols 0 pixelTree).value),
      (1, (bindNames symbols 1 rowTree).value)] }

theorem isClean_rowResolver : rowResolver.IsClean where
  symbols number := by
    match number with
    | 0 => rfl
    | 1 => rfl
    | _ + 2 => rfl
  bindings number := by
    match number with
    | 0 => rfl
    | 1 => rfl
    | _ + 2 => rfl
  entered := by
    simp only [rowResolver, List.forall_mem_cons]
    exact ⟨rfl, rfl, by simp⟩
  bound number tree htree := by
    match number with
    | 0 =>
      obtain rfl := Option.some.inj htree
      rfl
    | 1 =>
      obtain rfl := Option.some.inj htree
      rfl
    | _ + 2 => cases htree

theorem typesResolve_rowResolver : rowResolver.TypesResolve := by
  intro number tree htree type htype name hname
  match number with
  | 0 =>
    obtain rfl := Option.some.inj htree
    obtain rfl := List.mem_singleton.1 htype
    obtain rfl := List.mem_singleton.1 hname
    exact ⟨⟨0, 0⟩, _, rfl, rfl, rfl⟩
  | 1 =>
    obtain rfl := Option.some.inj htree
    rcases List.mem_cons.1 htype with rfl | htype
    · obtain rfl := List.mem_singleton.1 hname
      exact ⟨⟨0, 1⟩, _, rfl, rfl, rfl⟩
    · obtain rfl := List.mem_singleton.1 htype
      obtain rfl := List.mem_singleton.1 hname
      exact ⟨⟨1, 0⟩, _, rfl, rfl, rfl⟩
  | _ + 2 => cases htree

theorem typedefsEnd_rowResolver : rowResolver.TypedefsEnd := by
  refine Resolver.typedefsEnd_of_forall fun typedef htypedef => ?_
  obtain rfl := List.mem_singleton.1 (show typedef ∈ [⟨1, 0⟩] from htypedef)
  decide +kernel

/-- The initializer of the sample conforms to its typedef, through a list, a struct and an enum of
the other file, so it gets its value and nothing is reported. -/
theorem coerce_rowExpr :
    (rowResolver.IsClean ∧ rowResolver.TypesResolve ∧ rowResolver.TypedefsEnd) ∧
      (coerce rowResolver 1 ⟨1, .name ⟨⟨"Row", ⟨52, 55⟩⟩, [], ⟨52, 55⟩⟩⟩ rowExpr).value =
        some (.list [.struct [("color", .enum ⟨0, 0⟩ "GREEN" 5)]]) ∧
      (coerce rowResolver 1 ⟨1, .name ⟨⟨"Row", ⟨52, 55⟩⟩, [], ⟨52, 55⟩⟩⟩ rowExpr).reports = [] := by
  have htree : rowResolver.program.trees[1]? = some rowTree := rfl
  have htype : rowResolver.IsWritten ⟨1, .name ⟨⟨"Row", ⟨52, 55⟩⟩, [], ⟨52, 55⟩⟩⟩ :=
    ⟨rowTree, rfl, _, List.mem_cons_of_mem _ List.mem_cons_self, List.mem_cons_self⟩
  have hinitializer : rowExpr ∈ rowTree.document.initializers := List.mem_cons_self
  have hpart : rowExpr ∈ rowExpr.parts := List.mem_cons_self
  have h := coerce_iff_conforms isClean_rowResolver typesResolve_rowResolver
    typedefsEnd_rowResolver htree htype hinitializer hpart
  have hentry : (⟨⟨"GREEN", ⟨18, 23⟩⟩, some ⟨5, ⟨26, 27⟩⟩, ⟨18, 27⟩⟩, 5) ∈ (EnumDecl.mk
      ⟨"Color", ⟨5, 10⟩⟩ [⟨⟨"RED", ⟨13, 16⟩⟩, none, ⟨13, 16⟩⟩,
        ⟨⟨"GREEN", ⟨18, 23⟩⟩, some ⟨5, ⟨26, 27⟩⟩, ⟨18, 27⟩⟩] ⟨0, 29⟩).numbered :=
    List.mem_cons_of_mem _ List.mem_cons_self
  have hbound : rowResolver.binding? 1 ⟨⟨"pixel", ⟨71, 76⟩⟩,
      [⟨"Color", ⟨77, 82⟩⟩, ⟨"GREEN", ⟨83, 88⟩⟩], ⟨71, 88⟩⟩ =
        some ⟨⟨0, 0⟩, [⟨"GREEN", ⟨83, 88⟩⟩]⟩ := rfl
  have hgreen : Conforms rowResolver 1 ⟨0, .name ⟨⟨"Color", ⟨48, 53⟩⟩, [], ⟨48, 53⟩⟩⟩
      (.name ⟨⟨"pixel", ⟨71, 76⟩⟩, [⟨"Color", ⟨77, 82⟩⟩, ⟨"GREEN", ⟨83, 88⟩⟩], ⟨71, 88⟩⟩)
      (.enum ⟨0, 0⟩ "GREEN" 5) := .enum rfl rfl hbound hentry rfl
  have hfield : (⟨some ⟨1, ⟨45, 46⟩⟩, none, .name ⟨⟨"Color", ⟨48, 53⟩⟩, [], ⟨48, 53⟩⟩,
      ⟨"color", ⟨54, 59⟩⟩, none, ⟨45, 59⟩⟩ : Field) ∈ (StructDecl.mk .struct ⟨"Pixel", ⟨37, 42⟩⟩
        [⟨some ⟨1, ⟨45, 46⟩⟩, none, .name ⟨⟨"Color", ⟨48, 53⟩⟩, [], ⟨48, 53⟩⟩,
          ⟨"color", ⟨54, 59⟩⟩, none, ⟨45, 59⟩⟩] ⟨30, 61⟩).fields := List.mem_cons_self
  have hpixel : ConformsFields rowResolver 1 ⟨0, 1⟩ _
      [(.string ⟨"color", ⟨62, 69⟩⟩, .name ⟨⟨"pixel", ⟨71, 76⟩⟩,
        [⟨"Color", ⟨77, 82⟩⟩, ⟨"GREEN", ⟨83, 88⟩⟩], ⟨71, 88⟩⟩)]
      [("color", .enum ⟨0, 0⟩ "GREEN" 5)] := .cons hfield rfl hgreen .nil
  have hvalue := (h.1 (.list [.struct [("color", .enum ⟨0, 0⟩ "GREEN" 5)]])).2
    (.typedef ⟨_, rfl, rfl, rfl⟩ (.list (.cons
      (.struct rfl rfl hpixel (by simp) (by simp)) .nil)))
  exact ⟨⟨isClean_rowResolver, typesResolve_rowResolver, typedefsEnd_rowResolver⟩, hvalue,
    h.2.1 (Option.isSome_iff_exists.2 ⟨_, hvalue⟩)⟩

end Coercion
end Idl
