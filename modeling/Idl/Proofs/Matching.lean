import Idl.Proofs.WrittenTypes

/-!
# Declarations that match

Declarations match if they are the same but for positions, for their names, which are related in
one way, and for their types, which are related in another. With names of the same components on
both sides this is equality up to positions.
-/
namespace Idl

/-- Names with the same components. -/
def Name.Alike (name other : Name) : Prop :=
  name.path.map (·.text) = other.path.map (·.text)

theorem Name.Alike.text_eq {name other : Name} (h : name.Alike other) : name.text = other.text :=
  congrArg ".".intercalate h

/-- Types that are the same but for positions and names. -/
inductive TypeRef.Matches (names : Name → Name → Prop) : TypeRef → TypeRef → Prop
  | builtin {type span span'} : Matches names (.builtin type span) (.builtin type span')
  | list {element element' span span'} (elements : Matches names element element') :
      Matches names (.list element span) (.list element' span')
  | map {key key' value value' span span'} (keys : Matches names key key')
      (values : Matches names value value') :
      Matches names (.map key value span) (.map key' value' span')
  | name {name name'} (related : names name name') : Matches names (.name name) (.name name')

mutual

/-- Expressions that are the same but for positions and names. -/
inductive Expr.Matches (names : Name → Name → Prop) : Expr → Expr → Prop
  | integer {literal literal' : IntegerLiteral} (value : literal.value = literal'.value) :
      Matches names (.integer literal) (.integer literal')
  | string {literal literal' : StringLiteral} (text : literal.text = literal'.text) :
      Matches names (.string literal) (.string literal')
  | bool {value span span'} : Matches names (.bool value span) (.bool value span')
  | list {exprs exprs' span span'} (elements : MatchesAll names exprs exprs') :
      Matches names (.list exprs span) (.list exprs' span')
  | map {exprs exprs' span span'} (entries : MatchesEntries names exprs exprs') :
      Matches names (.map exprs span) (.map exprs' span')
  | name {name name'} (related : names name name') : Matches names (.name name) (.name name')

inductive Expr.MatchesAll (names : Name → Name → Prop) : List Expr → List Expr → Prop
  | nil : MatchesAll names [] []
  | cons {expr expr' exprs exprs'} (head : Expr.Matches names expr expr')
      (tail : MatchesAll names exprs exprs') : MatchesAll names (expr :: exprs) (expr' :: exprs')

inductive Expr.MatchesEntries (names : Name → Name → Prop) :
    List (Expr × Expr) → List (Expr × Expr) → Prop
  | nil : MatchesEntries names [] []
  | cons {key key' value value' entries entries'} (keys : Expr.Matches names key key')
      (values : Expr.Matches names value value') (tail : MatchesEntries names entries entries') :
      MatchesEntries names ((key, value) :: entries) ((key', value') :: entries')

end

section

variable (names : Name → Name → Prop) (types : TypeRef → TypeRef → Prop)

structure EnumEntry.Matches (entry other : EnumEntry) : Prop where
  name : entry.name.text = other.name.text
  value : entry.value.map (·.value) = other.value.map (·.value)

structure EnumDecl.Matches (decl other : EnumDecl) : Prop where
  name : decl.name.text = other.name.text
  entries : List.Forall₂ EnumEntry.Matches decl.entries other.entries

structure Field.Matches (field other : Field) : Prop where
  order : field.order.map (·.value) = other.order.map (·.value)
  requiredness : field.requiredness = other.requiredness
  type : types field.type other.type
  name : field.name.text = other.name.text
  default : Option.Rel (Expr.Matches names) field.default other.default

structure StructDecl.Matches (decl other : StructDecl) : Prop where
  kind : decl.kind = other.kind
  name : decl.name.text = other.name.text
  fields : List.Forall₂ (Field.Matches names types) decl.fields other.fields

structure Argument.Matches (argument other : Argument) : Prop where
  order : argument.order.map (·.value) = other.order.map (·.value)
  type : types argument.type other.type
  name : argument.name.text = other.name.text

structure Method.Matches (method other : Method) : Prop where
  oneway : method.oneway = other.oneway
  returns : types method.returns other.returns
  name : method.name.text = other.name.text
  arguments : List.Forall₂ (Argument.Matches types) method.arguments other.arguments
  throws : List.Forall₂ (Argument.Matches types) method.throws other.throws

structure ServiceDecl.Matches (decl other : ServiceDecl) : Prop where
  name : decl.name.text = other.name.text
  parent : Option.Rel names decl.parent other.parent
  methods : List.Forall₂ (Method.Matches types) decl.methods other.methods

structure ConstantDecl.Matches (decl other : ConstantDecl) : Prop where
  type : types decl.type other.type
  name : decl.name.text = other.name.text
  value : Expr.Matches names decl.value other.value

structure TypedefDecl.Matches (decl other : TypedefDecl) : Prop where
  type : types decl.type other.type
  name : decl.name.text = other.name.text

/-- Declarations that are the same but for positions, names and types. -/
inductive Declaration.Matches : Declaration → Declaration → Prop
  | constant {decl other} (h : ConstantDecl.Matches names types decl other) :
      Matches (.constant decl) (.constant other)
  | typedef {decl other} (h : TypedefDecl.Matches types decl other) :
      Matches (.typedef decl) (.typedef other)
  | enum {decl other} (h : EnumDecl.Matches decl other) : Matches (.enum decl) (.enum other)
  | struct {decl other} (h : StructDecl.Matches names types decl other) :
      Matches (.struct decl) (.struct other)
  | service {decl other} (h : ServiceDecl.Matches names types decl other) :
      Matches (.service decl) (.service other)

end

namespace Declaration.Matches

variable {names : Name → Name → Prop} {types : TypeRef → TypeRef → Prop}
  {declaration other : Declaration}

theorem text_name_eq (h : declaration.Matches names types other) :
    declaration.name.text = other.name.text := by
  cases h with
  | constant h => exact h.name
  | typedef h => exact h.name
  | enum h => exact h.name
  | struct h => exact h.name
  | service h => exact h.name

theorem kind_eq (h : declaration.Matches names types other) : declaration.kind = other.kind := by
  cases h with
  | struct h => exact congrArg StructKind.text h.kind
  | _ => rfl

end Declaration.Matches

/-! ### A declaration matches itself -/

section

variable {names : Name → Name → Prop} {types : TypeRef → TypeRef → Prop}

theorem Name.Alike.refl (name : Name) : name.Alike name := rfl

theorem TypeRef.Matches.refl (hnames : ∀ name, names name name) (type : TypeRef) :
    type.Matches names type := by
  induction type with
  | builtin => exact .builtin
  | list _ _ ih => exact .list ih
  | map _ _ _ ihKey ihValue => exact .map ihKey ihValue
  | name => exact .name (hnames _)

mutual

theorem Expr.Matches.refl (hnames : ∀ name, names name name) :
    ∀ expr : Expr, expr.Matches names expr
  | .integer _ => .integer rfl
  | .string _ => .string rfl
  | .bool _ _ => .bool
  | .list exprs _ => .list (Expr.MatchesAll.refl hnames exprs)
  | .map entries _ => .map (Expr.MatchesEntries.refl hnames entries)
  | .name n => .name (hnames n)

theorem Expr.MatchesAll.refl (hnames : ∀ name, names name name) :
    ∀ exprs : List Expr, Expr.MatchesAll names exprs exprs
  | [] => .nil
  | expr :: exprs => .cons (Expr.Matches.refl hnames expr) (Expr.MatchesAll.refl hnames exprs)

theorem Expr.MatchesEntries.refl (hnames : ∀ name, names name name) :
    ∀ entries : List (Expr × Expr), Expr.MatchesEntries names entries entries
  | [] => .nil
  | (key, value) :: entries =>
    .cons (Expr.Matches.refl hnames key) (Expr.Matches.refl hnames value)
      (Expr.MatchesEntries.refl hnames entries)

end

theorem optionRel_refl {α : Type} {r : α → α → Prop} (h : ∀ a, r a a) (value : Option α) :
    Option.Rel r value value := by
  cases value with
  | none => exact .none
  | some a => exact .some (h a)

theorem Declaration.Matches.refl (hnames : ∀ name, names name name)
    (htypes : ∀ type, types type type)
    (declaration : Declaration) : declaration.Matches names types declaration := by
  have hexprs := Expr.Matches.refl hnames
  have hfields (fields : List Field) : List.Forall₂ (Field.Matches names types) fields fields :=
    List.forall₂_same.2 fun field _ =>
      ⟨rfl, rfl, htypes field.type, rfl, optionRel_refl hexprs field.default⟩
  have harguments (arguments : List Argument) :
      List.Forall₂ (Argument.Matches types) arguments arguments :=
    List.forall₂_same.2 fun argument _ => ⟨rfl, htypes argument.type, rfl⟩
  cases declaration with
  | constant decl => exact .constant ⟨htypes decl.type, rfl, hexprs decl.value⟩
  | typedef decl => exact .typedef ⟨htypes decl.type, rfl⟩
  | enum decl => exact .enum ⟨rfl, List.forall₂_same.2 fun entry _ => ⟨rfl, rfl⟩⟩
  | struct decl => exact .struct ⟨rfl, rfl, hfields decl.fields⟩
  | service decl =>
    exact .service ⟨rfl, optionRel_refl hnames decl.parent, List.forall₂_same.2 fun method _ =>
      ⟨rfl, htypes method.returns, rfl, harguments method.arguments, harguments method.throws⟩⟩

end

/-! ### Lists of pairs -/

/-- Lists with related members in the same places, each pair known to be of members. -/
theorem forall₂_imp_mem {α β : Type} {r r' : α → β → Prop} {list : List α} {other : List β}
    (h : List.Forall₂ r list other) (himp : ∀ a ∈ list, ∀ b ∈ other, r a b → r' a b) :
    List.Forall₂ r' list other := by
  induction h with
  | nil => exact .nil
  | cons head _ ih =>
    refine .cons (himp _ List.mem_cons_self _ List.mem_cons_self head) (ih fun a ha b hb => ?_)
    exact himp a (List.mem_cons_of_mem _ ha) b (List.mem_cons_of_mem _ hb)

theorem forall₂_mem_right {α β : Type} {r : α → β → Prop} {list : List α} {other : List β}
    (h : List.Forall₂ r list other) {b : β} (hb : b ∈ other) : ∃ a ∈ list, r a b := by
  induction h with
  | nil => cases hb
  | cons head _ ih =>
    rcases List.mem_cons.1 hb with rfl | hb
    · exact ⟨_, List.mem_cons_self, head⟩
    · obtain ⟨a, ha, hr⟩ := ih hb
      exact ⟨a, List.mem_cons_of_mem _ ha, hr⟩

theorem forall₂_mem_left {α β : Type} {r : α → β → Prop} {list : List α} {other : List β}
    (h : List.Forall₂ r list other) {a : α} (ha : a ∈ list) : ∃ b ∈ other, r a b :=
  forall₂_mem_right h.flip ha

theorem optionRel_imp_mem {α β : Type} {r r' : α → β → Prop} {value : Option α}
    {other : Option β} (h : Option.Rel r value other)
    (himp : ∀ a ∈ value, ∀ b ∈ other, r a b → r' a b) : Option.Rel r' value other := by
  cases h with
  | none => exact .none
  | some h => exact .some (himp _ rfl _ rfl h)

section

variable {α β : Type} {r : α → β → Prop} {value : Option α} {other : Option β} {a : α} {b : β}

theorem optionRel_of_some (h : Option.Rel r value other) (hvalue : value = some a)
    (hother : other = some b) : r a b := by
  subst hvalue hother
  cases h with
  | some h => exact h

theorem exists_of_optionRel (h : Option.Rel r value other) (hvalue : value = some a) :
    ∃ b, other = some b ∧ r a b := by
  subst hvalue
  cases h with
  | some h => exact ⟨_, rfl, h⟩

theorem exists_of_optionRel_back (h : Option.Rel r value other) (hother : other = some b) :
    ∃ a, value = some a ∧ r a b := by
  subst hother
  cases h with
  | some h => exact ⟨_, rfl, h⟩

end

/-- Related options are both empty or both have a value. -/
theorem optionRel_cases {α β : Type} {r : α → β → Prop} {value : Option α} {other : Option β}
    (h : Option.Rel r value other) :
    (value = none ∧ other = none) ∨ ∃ a b, value = some a ∧ other = some b ∧ r a b := by
  cases h with
  | none => exact .inl ⟨rfl, rfl⟩
  | some h => exact .inr ⟨_, _, rfl, rfl, h⟩

theorem optionRel_isNone {α β : Type} {r : α → β → Prop} {value : Option α} {other : Option β}
    (h : Option.Rel r value other) : value.isNone = other.isNone := by
  cases h <;> rfl

theorem forall₂_toList {α β : Type} {r : α → β → Prop} {value : Option α} {other : Option β}
    (h : Option.Rel r value other) : List.Forall₂ r value.toList other.toList := by
  cases h with
  | none => exact .nil
  | some h => exact .cons h .nil

theorem forall₂_getD_map {α β γ δ : Type} {r : α → β → Prop} {p : γ → δ → Prop}
    {f : α → List γ} {g : β → List δ} {value : Option α} {other : Option β}
    (h : Option.Rel r value other) (hf : ∀ a b, r a b → List.Forall₂ p (f a) (g b)) :
    List.Forall₂ p ((value.map f).getD []) ((other.map g).getD []) := by
  cases h with
  | none => exact .nil
  | some h => exact hf _ _ h

/-! ### Changing the relations -/

section

variable {names names' : Name → Name → Prop}

theorem TypeRef.Matches.imp {type other : TypeRef} (h : type.Matches names other)
    (himp : ∀ name ∈ type.references, ∀ name' ∈ other.references, names name name' →
      names' name name') : type.Matches names' other := by
  induction h with
  | builtin => exact .builtin
  | list _ ih => exact .list (ih himp)
  | map _ _ ihKeys ihValues =>
    exact .map
      (ihKeys fun name hname name' hname' =>
        himp name (List.mem_append_left _ hname) name' (List.mem_append_left _ hname'))
      (ihValues fun name hname name' hname' =>
        himp name (List.mem_append_right _ hname) name' (List.mem_append_right _ hname'))
  | name related => exact .name (himp _ List.mem_cons_self _ List.mem_cons_self related)

mutual

theorem Expr.Matches.imp : ∀ {expr other : Expr}, expr.Matches names other →
    (∀ name ∈ expr.references, ∀ name' ∈ other.references, names name name' →
      names' name name') → expr.Matches names' other
  | .integer _, _, .integer value, _ => .integer value
  | .string _, _, .string text, _ => .string text
  | .bool _ _, _, .bool, _ => .bool
  | .list _ _, _, .list elements, himp => .list (Expr.MatchesAll.imp elements himp)
  | .map _ _, _, .map entries, himp => .map (Expr.MatchesEntries.imp entries himp)
  | .name _, _, .name related, himp =>
    .name (himp _ List.mem_cons_self _ List.mem_cons_self related)

theorem Expr.MatchesAll.imp : ∀ {exprs others : List Expr}, Expr.MatchesAll names exprs others →
    (∀ name ∈ Expr.referencesAll exprs, ∀ name' ∈ Expr.referencesAll others, names name name' →
      names' name name') → Expr.MatchesAll names' exprs others
  | [], _, .nil, _ => .nil
  | _ :: _, _, .cons head tail, himp =>
    .cons
      (Expr.Matches.imp head fun name hname name' hname' =>
        himp name (List.mem_append_left _ hname) name' (List.mem_append_left _ hname'))
      (Expr.MatchesAll.imp tail fun name hname name' hname' =>
        himp name (List.mem_append_right _ hname) name' (List.mem_append_right _ hname'))

theorem Expr.MatchesEntries.imp : ∀ {entries others : List (Expr × Expr)},
    Expr.MatchesEntries names entries others →
    (∀ name ∈ Expr.referencesEntries entries, ∀ name' ∈ Expr.referencesEntries others,
      names name name' → names' name name') → Expr.MatchesEntries names' entries others
  | [], _, .nil, _ => .nil
  | _ :: _, _, .cons keys values tail, himp =>
    .cons
      (Expr.Matches.imp keys fun name hname name' hname' =>
        himp name (List.mem_append_left _ (List.mem_append_left _ hname)) name'
          (List.mem_append_left _ (List.mem_append_left _ hname')))
      (Expr.Matches.imp values fun name hname name' hname' =>
        himp name (List.mem_append_left _ (List.mem_append_right _ hname)) name'
          (List.mem_append_left _ (List.mem_append_right _ hname')))
      (Expr.MatchesEntries.imp tail fun name hname name' hname' =>
        himp name (List.mem_append_right _ hname) name' (List.mem_append_right _ hname'))

end

variable {types types' : TypeRef → TypeRef → Prop}

theorem Field.Matches.imp {field other : Field} (h : field.Matches names types other)
    (hnames : ∀ name ∈ field.references, ∀ name' ∈ other.references, names name name' →
      names' name name')
    (htypes : types field.type other.type → types' field.type other.type) :
    field.Matches names' types' other where
  order := h.order
  requiredness := h.requiredness
  type := htypes h.type
  name := h.name
  default := optionRel_imp_mem h.default fun expr hexpr expr' hexpr' hmatches =>
    hmatches.imp fun name hname name' hname' => hnames name
      (List.mem_append_right _ (by simpa [Option.mem_def.1 hexpr] using hname)) name'
      (List.mem_append_right _ (by simpa [Option.mem_def.1 hexpr'] using hname'))

theorem Argument.Matches.imp {argument other : Argument} (h : argument.Matches types other)
    (htypes : types argument.type other.type → types' argument.type other.type) :
    argument.Matches types' other :=
  ⟨h.order, htypes h.type, h.name⟩

theorem Method.Matches.imp {method other : Method} (h : method.Matches types other)
    (htypes : ∀ type ∈ method.returns :: (method.arguments ++ method.throws).map (·.type),
      ∀ type' ∈ other.returns :: (other.arguments ++ other.throws).map (·.type),
        types type type' → types' type type') : method.Matches types' other where
  oneway := h.oneway
  returns := htypes _ List.mem_cons_self _ List.mem_cons_self h.returns
  name := h.name
  arguments := forall₂_imp_mem h.arguments fun _ hargument _ hargument' hmatches =>
    hmatches.imp (htypes _
      (List.mem_cons_of_mem _ (List.mem_map_of_mem (List.mem_append_left _ hargument))) _
      (List.mem_cons_of_mem _ (List.mem_map_of_mem (List.mem_append_left _ hargument'))))
  throws := forall₂_imp_mem h.throws fun _ hargument _ hargument' hmatches =>
    hmatches.imp (htypes _
      (List.mem_cons_of_mem _ (List.mem_map_of_mem (List.mem_append_right _ hargument))) _
      (List.mem_cons_of_mem _ (List.mem_map_of_mem (List.mem_append_right _ hargument'))))

/-- Declarations that match also do so with other relations that follow from the old ones at the
names and types in them. -/
theorem Declaration.Matches.imp {declaration other : Declaration}
    (h : declaration.Matches names types other)
    (hnames : ∀ name ∈ declaration.references, ∀ name' ∈ other.references, names name name' →
      names' name name')
    (htypes : ∀ type ∈ declaration.types, ∀ type' ∈ other.types, types type type' →
      types' type type') : declaration.Matches names' types' other := by
  cases h with
  | constant h =>
    refine .constant ⟨htypes _ List.mem_cons_self _ List.mem_cons_self h.type, h.name, ?_⟩
    exact h.value.imp fun name hname name' hname' =>
      hnames name (List.mem_append_right _ hname) name' (List.mem_append_right _ hname')
  | typedef h =>
    exact .typedef ⟨htypes _ List.mem_cons_self _ List.mem_cons_self h.type, h.name⟩
  | enum h => exact .enum h
  | struct h =>
    refine .struct ⟨h.kind, h.name, forall₂_imp_mem h.fields
      fun field hfield field' hfield' hmatches => hmatches.imp ?_ ?_⟩
    · exact fun name hname name' hname' => hnames name
        (List.mem_flatMap.2 ⟨field, hfield, hname⟩) name'
        (List.mem_flatMap.2 ⟨field', hfield', hname'⟩)
    · exact htypes _ (List.mem_map_of_mem hfield) _ (List.mem_map_of_mem hfield')
  | service h =>
    refine .service ⟨h.name, optionRel_imp_mem h.parent ?_, forall₂_imp_mem h.methods
      fun method hmethod method' hmethod' hmatches => hmatches.imp ?_⟩
    · exact fun name hname name' hname' => hnames name
        (List.mem_append_left _ (Option.mem_toList.2 hname)) name'
        (List.mem_append_left _ (Option.mem_toList.2 hname'))
    · exact fun type htype type' htype' => htypes type
        (List.mem_flatMap.2 ⟨method, hmethod, htype⟩) type'
        (List.mem_flatMap.2 ⟨method', hmethod', htype'⟩)

end

/-! ### What is written in them -/

section

variable {names : Name → Name → Prop} {types : TypeRef → TypeRef → Prop}
  {declaration other : Declaration}

theorem TypeRef.Matches.references {type other : TypeRef} (h : type.Matches names other) :
    List.Forall₂ names type.references other.references := by
  induction h with
  | builtin => exact .nil
  | list _ ih => exact ih
  | map _ _ ihKeys ihValues => exact List.rel_append ihKeys ihValues
  | name related => exact .cons related .nil

mutual

theorem Expr.Matches.references : ∀ {expr other : Expr}, expr.Matches names other →
    List.Forall₂ names expr.references other.references
  | .integer _, _, .integer _ => .nil
  | .string _, _, .string _ => .nil
  | .bool _ _, _, .bool => .nil
  | .list _ _, _, .list elements => Expr.MatchesAll.references elements
  | .map _ _, _, .map entries => Expr.MatchesEntries.references entries
  | .name _, _, .name related => .cons related .nil

theorem Expr.MatchesAll.references : ∀ {exprs others : List Expr},
    Expr.MatchesAll names exprs others →
      List.Forall₂ names (Expr.referencesAll exprs) (Expr.referencesAll others)
  | [], _, .nil => .nil
  | _ :: _, _, .cons head tail =>
    List.rel_append (Expr.Matches.references head) (Expr.MatchesAll.references tail)

theorem Expr.MatchesEntries.references : ∀ {entries others : List (Expr × Expr)},
    Expr.MatchesEntries names entries others →
      List.Forall₂ names (Expr.referencesEntries entries) (Expr.referencesEntries others)
  | [], _, .nil => .nil
  | _ :: _, _, .cons keys values tail =>
    List.rel_append
      (List.rel_append (Expr.Matches.references keys) (Expr.Matches.references values))
      (Expr.MatchesEntries.references tail)

end

/-- Relations between lists of names that hold of related names and of lists put together from
related ones. -/
structure Name.Compatible (names : Name → Name → Prop) (r : List Name → List Name → Prop) :
    Prop where
  nil : r [] []
  single : ∀ {name name'}, names name name' → r [name] [name']
  append : ∀ {list list' rest rest'},
    r list list' → r rest rest' → r (list ++ rest) (list' ++ rest')

theorem Name.compatible_forall₂ (names : Name → Name → Prop) :
    Name.Compatible names (List.Forall₂ names) :=
  ⟨.nil, fun h => .cons h .nil, fun h hrest => List.rel_append h hrest⟩

section

variable {r : List Name → List Name → Prop}

theorem Name.Compatible.forall₂ (hr : Name.Compatible names r) {list other : List Name}
    (h : List.Forall₂ names list other) : r list other := by
  induction h with
  | nil => exact hr.nil
  | cons head _ ih => exact hr.append (hr.single head) ih

theorem Name.Compatible.flatMap (hr : Name.Compatible names r) {α : Type} {p : α → α → Prop}
    {items others : List α} (h : List.Forall₂ p items others) {references : α → List Name}
    (hitem : ∀ item other, p item other → r (references item) (references other)) :
    r (items.flatMap references) (others.flatMap references) := by
  induction h with
  | nil => exact hr.nil
  | cons head _ ih => exact hr.append (hitem _ _ head) ih

/-- How the names in declarations that match are related, given how those in types are. -/
theorem Declaration.Matches.compatible (hr : Name.Compatible names r)
    (htypes : ∀ type type', types type type' → r type.references type'.references)
    (h : declaration.Matches names types other) : r declaration.references other.references := by
  cases h with
  | constant h => exact hr.append (htypes _ _ h.type) (hr.forall₂ h.value.references)
  | typedef h => exact htypes _ _ h.type
  | enum h => exact hr.nil
  | struct h =>
    exact hr.flatMap h.fields fun field field' hfield => hr.append (htypes _ _ hfield.type)
      (hr.forall₂ (forall₂_getD_map hfield.default fun _ _ h => h.references))
  | service h =>
    refine hr.append (hr.forall₂ (forall₂_toList h.parent))
      (hr.flatMap h.methods fun _ _ hmethod => ?_)
    exact hr.append (htypes _ _ hmethod.returns)
      (hr.flatMap (List.rel_append hmethod.arguments hmethod.throws) fun _ _ h => htypes _ _ h.type)

end

/-- Declarations with types that match have related names in the same order. -/
theorem Declaration.Matches.references
    (h : declaration.Matches names (TypeRef.Matches names) other) :
    List.Forall₂ names declaration.references other.references :=
  h.compatible (Name.compatible_forall₂ names) fun _ _ htypes => htypes.references

end

end Idl
