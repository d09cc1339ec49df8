import Idl.Proofs.Matching
import Idl.Proofs.Symbols
import Mathlib.Data.List.Sigma

/-!
# Documents with rearranged declarations

A document rearranges another one if it has the same declarations in another order and perhaps some
more. Types may be the same, or some of them may be abbreviated by typedefs that are among the
further declarations. Each declaration has a place in the second document, and names that are
declared once are found there.
-/
namespace Idl

/-! ### Places in permutations -/

/-- The same places, after one more in front. -/
def Nat.shiftPerm (place : Equiv.Perm Nat) : Equiv.Perm Nat where
  toFun
    | 0 => 0
    | index + 1 => place index + 1
  invFun
    | 0 => 0
    | index + 1 => place.symm index + 1
  left_inv index := by cases index <;> simp
  right_inv index := by cases index <;> simp

/-- A permutation of a list sends each place to one with the same item. -/
theorem exists_place_of_perm {α : Type} {list other : List α} (h : list.Perm other) :
    ∃ place : Equiv.Perm Nat, ∀ index : Nat, other[place index]? = list[index]? := by
  induction h with
  | nil => exact ⟨Equiv.refl Nat, fun _ => rfl⟩
  | cons item _ ih =>
    obtain ⟨place, hplace⟩ := ih
    refine ⟨Nat.shiftPerm place, fun index => ?_⟩
    cases index with
    | zero => rfl
    | succ index => exact hplace index
  | swap first second list =>
    refine ⟨Equiv.swap 0 1, fun index => ?_⟩
    match index with
    | 0 => rfl
    | 1 => rfl
    | index + 2 => rw [Equiv.swap_apply_of_ne_of_ne (by omega) (by omega)]; rfl
  | trans _ _ ihFirst ihSecond =>
    obtain ⟨place, hplace⟩ := ihFirst
    obtain ⟨next, hnext⟩ := ihSecond
    exact ⟨place.trans next, fun index => (hnext (place index)).trans (hplace index)⟩

/-! ### Abbreviated types -/

/-- Types that are the same but for positions, except that some parts of the second are names of
`typedefs` for what stands in the first. The type `void` itself is not abbreviated. -/
inductive TypeRef.Abbreviated (typedefs : List TypedefDecl) : TypeRef → TypeRef → Prop
  | builtin {type span span'} :
      Abbreviated typedefs (.builtin type span) (.builtin type span')
  | list {element element' span span'} (elements : Abbreviated typedefs element element') :
      Abbreviated typedefs (.list element span) (.list element' span')
  | map {key key' value value' span span'} (keys : Abbreviated typedefs key key')
      (values : Abbreviated typedefs value value') :
      Abbreviated typedefs (.map key value span) (.map key' value' span')
  | name {name name' : Name} (alike : name.Alike name') :
      Abbreviated typedefs (.name name) (.name name')
  | typedef {type : TypeRef} {decl : TypedefDecl} {name : Name} (declared : decl ∈ typedefs)
      (target : type.Matches Name.Alike decl.type) (stored : ∀ span, type ≠ .builtin .void span)
      (named : name.path.map (·.text) = [decl.name.text]) :
      Abbreviated typedefs type (.name name)

theorem TypeRef.Matches.abbreviated (typedefs : List TypedefDecl) {type type' : TypeRef}
    (h : type.Matches Name.Alike type') : type.Abbreviated typedefs type' := by
  induction h with
  | builtin => exact .builtin
  | list _ ih => exact .list ih
  | map _ _ ihKeys ihValues => exact .map ihKeys ihValues
  | name alike => exact .name alike

theorem TypeRef.Abbreviated.matches {type type' : TypeRef} (h : type.Abbreviated [] type') :
    type.Matches Name.Alike type' := by
  induction h with
  | builtin => exact .builtin
  | list _ ih => exact .list ih
  | map _ _ ihKeys ihValues => exact .map ihKeys ihValues
  | name alike => exact .name alike
  | typedef declared => cases declared

/-- The second document has the declarations of the first one in any order, with types that are
related to theirs, and the further declarations. -/
structure Document.Rearranges (types : TypeRef → TypeRef → Prop) (further : List Declaration)
    (document document' : Document) : Prop where
  includes : List.Forall₂ (fun directive directive' : IncludeDirective =>
    directive.path.text = directive'.path.text) document.includes document'.includes
  declarations : ∃ declarations,
    List.Forall₂ (Declaration.Matches Name.Alike types) document.declarations declarations ∧
      (declarations ++ further).Perm document'.declarations

/-- A document in which types that are written in another one are abbreviated by further
typedefs. -/
structure Document.Abbreviates (typedefs : List TypedefDecl) (document document' : Document) :
    Prop where
  rearranges : document.Rearranges (TypeRef.Abbreviated typedefs) (typedefs.map .typedef) document'
  written : ∀ decl ∈ typedefs, ∃ type ∈ document.types.flatMap TypeRef.parts,
    (∀ span, type ≠ .builtin .void span) ∧ type.Matches Name.Alike decl.type

/-- The same declarations in any order. -/
def Document.Reorders (document document' : Document) : Prop :=
  document.Rearranges (TypeRef.Matches Name.Alike) [] document'

theorem Document.Reorders.refl (document : Document) : document.Reorders document where
  includes := List.forall₂_same.2 fun _ _ => rfl
  declarations := ⟨document.declarations, List.forall₂_same.2 fun declaration _ =>
    Declaration.Matches.refl Name.Alike.refl (TypeRef.Matches.refl Name.Alike.refl) declaration,
    List.append_nil _ ▸ .refl _⟩

theorem Document.Reorders.abbreviates {document document' : Document}
    (h : document.Reorders document') : document.Abbreviates [] document' := by
  obtain ⟨hincludes, declarations, hmatches, hperm⟩ := h
  refine ⟨⟨hincludes, declarations, hmatches.imp fun declaration declaration' h => ?_, hperm⟩,
    nofun⟩
  exact h.imp (fun _ _ _ _ h => h) fun _ _ _ _ h => h.abbreviated []

/-! ### Places of declarations -/

/-- Where the declarations of a document are in one that abbreviates types of it. -/
structure Document.Places (typedefs : List TypedefDecl) (document document' : Document)
    (place : Nat → Nat) : Prop where
  injective : Function.Injective place
  declared : ∀ index : Nat,
    Option.Rel (Declaration.Matches Name.Alike (TypeRef.Abbreviated typedefs))
      document.declarations[index]? document'.declarations[place index]?
  others : ∀ (index' : Nat) (declaration' : Declaration),
    document'.declarations[index']? = some declaration' →
      (∃ index, place index = index') ∨ ∃ decl ∈ typedefs, declaration' = .typedef decl

/-- Places after those of a list, behind as many further ones. -/
def skipPlaces (length further index : Nat) : Nat :=
  if index < length then index else index + further

theorem getElem?_skipPlaces {α : Type} (list further : List α) (index : Nat) :
    (list ++ further)[skipPlaces list.length further.length index]? = list[index]? := by
  unfold skipPlaces
  split
  · next hlt => exact List.getElem?_append_left hlt
  · next hle =>
    have hlength : (list ++ further).length = list.length + further.length := List.length_append
    rw [List.getElem?_eq_none (by omega), List.getElem?_eq_none (by omega)]

theorem getElem?_of_forall₂ {α β : Type} {r : α → β → Prop} {list : List α} {other : List β}
    (h : List.Forall₂ r list other) (index : Nat) : Option.Rel r list[index]? other[index]? := by
  induction h generalizing index with
  | nil => exact .none
  | cons head _ ih =>
    cases index with
    | zero => exact .some head
    | succ index => exact ih index

theorem Document.Abbreviates.exists_places {typedefs : List TypedefDecl}
    {document document' : Document} (h : document.Abbreviates typedefs document') :
    ∃ place, document.Places typedefs document' place := by
  obtain ⟨declarations, hmatches, hperm⟩ := h.rearranges.declarations
  obtain ⟨place, hplace⟩ := exists_place_of_perm hperm
  have hlength := hmatches.length_eq
  set further : List Declaration := typedefs.map .typedef with hfurther
  refine ⟨fun index => place (skipPlaces declarations.length further.length index), ?_, ?_, ?_⟩
  · refine place.injective.comp fun index other hsame => ?_
    unfold skipPlaces at hsame
    split at hsame <;> split at hsame <;> omega
  · intro index
    rw [hplace, getElem?_skipPlaces]
    exact getElem?_of_forall₂ hmatches index
  · intro index' declaration' hdeclaration'
    obtain ⟨index, rfl⟩ := place.surjective index'
    rw [hplace] at hdeclaration'
    by_cases hlt : index < declarations.length
    · exact .inl ⟨index, by rw [skipPlaces, if_pos hlt]⟩
    · rw [List.getElem?_append_right (not_lt.1 hlt)] at hdeclaration'
      obtain ⟨decl, hdecl, rfl⟩ := List.mem_map.1 (List.mem_of_getElem? hdeclaration')
      exact .inr ⟨decl, hdecl, rfl⟩

namespace Document.Places

variable {typedefs : List TypedefDecl} {document document' : Document} {place : Nat → Nat}

theorem exists_matches (h : document.Places typedefs document' place) {index : Nat}
    {declaration : Declaration} (hdecl : document.declarations[index]? = some declaration) :
    ∃ declaration', document'.declarations[place index]? = some declaration' ∧
      declaration.Matches Name.Alike (TypeRef.Abbreviated typedefs) declaration' :=
  exists_of_optionRel (h.declared index) hdecl

theorem exists_matches_back (h : document.Places typedefs document' place) {index : Nat}
    {declaration' : Declaration}
    (hdecl' : document'.declarations[place index]? = some declaration') :
    ∃ declaration, document.declarations[index]? = some declaration ∧
      declaration.Matches Name.Alike (TypeRef.Abbreviated typedefs) declaration' :=
  exists_of_optionRel_back (h.declared index) hdecl'

/-- What holds of the further typedefs holds of all declarations of the second document if it does
so of corresponding ones in the first. -/
theorem forall_iff (h : document.Places typedefs document' place)
    {p q : Nat → Declaration → Prop}
    (hiff : ∀ index declaration declaration', document.declarations[index]? = some declaration →
      document'.declarations[place index]? = some declaration' →
        (p index declaration ↔ q (place index) declaration'))
    (hfurther : ∀ index' decl, decl ∈ typedefs →
      document'.declarations[index']? = some (.typedef decl) → q index' (.typedef decl)) :
    (∀ index declaration, document.declarations[index]? = some declaration → p index declaration) ↔
      ∀ index' declaration', document'.declarations[index']? = some declaration' →
        q index' declaration' := by
  constructor
  · intro hall index' declaration' hdecl'
    rcases h.others index' declaration' hdecl' with ⟨index, rfl⟩ | ⟨decl, hdecl, rfl⟩
    · obtain ⟨declaration, hdecl, -⟩ := h.exists_matches_back hdecl'
      exact (hiff index declaration declaration' hdecl hdecl').1 (hall index declaration hdecl)
    · exact hfurther index' decl hdecl hdecl'
  · intro hall index declaration hdecl
    obtain ⟨declaration', hdecl', -⟩ := h.exists_matches hdecl
    exact (hiff index declaration declaration' hdecl hdecl').2 (hall _ declaration' hdecl')

/-- Without further declarations, what is collected from the declarations is the same in another
order. -/
theorem perm_flatMap (h : document.Places [] document' place) {β : Type}
    {f g : Nat → Declaration → List β}
    (hsame : ∀ index declaration declaration', document.declarations[index]? = some declaration →
      document'.declarations[place index]? = some declaration' →
        f index declaration = g (place index) declaration') :
    (document.declarations.zipIdx.flatMap fun item => f item.2 item.1).Perm
      (document'.declarations.zipIdx.flatMap fun item => g item.2 item.1) := by
  let collect (index : Nat) : List β := (document'.declarations[index]?.map (g index)).getD []
  have hplaces : (document.declarations.zipIdx.map fun item => place item.2).Perm
      (document'.declarations.zipIdx.map Prod.snd) := by
    have hnodup := (List.nodup_zipIdx_map_snd document.declarations).map h.injective
    rw [List.map_map] at hnodup
    refine (List.perm_ext_iff_of_nodup hnodup (List.nodup_zipIdx_map_snd _)).2 fun index' => ?_
    simp only [List.mem_map, Function.comp_apply, Prod.exists, List.mem_zipIdx_iff_getElem?]
    constructor
    · rintro ⟨declaration, index, hdecl, rfl⟩
      obtain ⟨declaration', hdecl', -⟩ := h.exists_matches hdecl
      exact ⟨declaration', _, hdecl', rfl⟩
    · rintro ⟨declaration', _, hdecl', rfl⟩
      rcases h.others _ declaration' hdecl' with ⟨index, rfl⟩ | ⟨decl, hdecl, -⟩
      · obtain ⟨declaration, hdecl, -⟩ := h.exists_matches_back hdecl'
        exact ⟨declaration, index, hdecl, rfl⟩
      · cases hdecl
  calc document.declarations.zipIdx.flatMap fun item => f item.2 item.1
    _ = (document.declarations.zipIdx.map fun item => place item.2).flatMap collect := by
      rw [List.flatMap_map]
      refine List.flatMap_congr fun item hitem => ?_
      obtain ⟨declaration', hdecl', -⟩ := h.exists_matches (List.mem_zipIdx_iff_getElem?.1 hitem)
      simp only [collect, hdecl', Option.map_some, Option.getD_some]
      exact hsame _ _ _ (List.mem_zipIdx_iff_getElem?.1 hitem) hdecl'
    List.Perm _ ((document'.declarations.zipIdx.map Prod.snd).flatMap collect) :=
      hplaces.flatMap_right collect
    _ = document'.declarations.zipIdx.flatMap fun item => g item.2 item.1 := by
      rw [List.flatMap_map]
      refine List.flatMap_congr fun item hitem => ?_
      simp only [collect, List.mem_zipIdx_iff_getElem?.1 hitem, Option.map_some, Option.getD_some]

end Document.Places

/-! ### Declared names -/

/-- Among items with different names, the first of a name is the only one. -/
theorem findIdx?_eq_some_iff_of_nodup {α : Type} {list : List α} {name : α → String}
    (hnodup : (list.map name).Nodup) {text : String} {index : Nat} :
    list.findIdx? (name · == text) = some index ↔
      ∃ item, list[index]? = some item ∧ name item = text := by
  rw [List.findIdx?_eq_some_iff_getElem]
  constructor
  · rintro ⟨hlt, hname, -⟩
    exact ⟨_, List.getElem?_eq_getElem hlt, by simpa using hname⟩
  · rintro ⟨item, hitem, hname⟩
    obtain ⟨hlt, rfl⟩ := List.getElem?_eq_some_iff.1 hitem
    refine ⟨hlt, by simpa using hname, fun earlier hearlier => ?_⟩
    have hne := List.nodup_iff_getElem?_ne_getElem?.1 hnodup earlier index hearlier
      (by rwa [List.length_map])
    simpa [hearlier.trans hlt, hlt, hname] using hne

/-- The names are not declared in the document, and no name in it has them as components. -/
structure Document.Avoids (names : List String) (document : Document) : Prop where
  declared : ∀ declaration ∈ document.declarations, declaration.name.text ∉ names
  referenced : ∀ name ∈ document.references, ∀ component ∈ name.path, component.text ∉ names

section

variable {typedefs : List TypedefDecl} {names : List String} {document document' : Document}
  {place : Nat → Nat}

theorem map_name_of_matches {r : Name → Name → Prop} {types : TypeRef → TypeRef → Prop}
    {declarations others : List Declaration}
    (h : List.Forall₂ (Declaration.Matches r types) declarations others) :
    declarations.map (·.name.text) = others.map (·.name.text) := by
  induction h with
  | nil => rfl
  | cons head _ ih => simp only [List.map_cons, head.text_name_eq, ih]

theorem Document.Abbreviates.nodup_iff (h : document.Abbreviates typedefs document')
    (hnew : ∀ decl ∈ typedefs, decl.name.text ∈ names)
    (hdistinct : (typedefs.map (·.name.text)).Nodup) (havoids : document.Avoids names) :
    (document.declarations.map (·.name.text)).Nodup ↔
      (document'.declarations.map (·.name.text)).Nodup := by
  obtain ⟨declarations, hmatches, hperm⟩ := h.rearranges.declarations
  have htypedefs : (typedefs.map Declaration.typedef).map (·.name.text) =
      typedefs.map (·.name.text) := List.map_map
  rw [← (hperm.map (·.name.text)).nodup_iff, List.map_append, htypedefs,
    ← map_name_of_matches hmatches, List.nodup_append]
  refine ⟨fun hnodup => ⟨hnodup, hdistinct, ?_⟩, And.left⟩
  rintro _ hdeclared _ hother rfl
  obtain ⟨declaration, hdeclaration, hname⟩ := List.mem_map.1 hdeclared
  obtain ⟨decl, hdecl, hsame⟩ := List.mem_map.1 hother
  refine havoids.declared declaration hdeclaration ?_
  rw [hname, ← hsame]
  exact hnew decl hdecl

theorem Document.Abbreviates.typedef_mem (h : document.Abbreviates typedefs document')
    {decl : TypedefDecl} (hdecl : decl ∈ typedefs) : .typedef decl ∈ document'.declarations := by
  obtain ⟨declarations, -, hperm⟩ := h.rearranges.declarations
  exact hperm.mem_iff.1 (List.mem_append_right _ (List.mem_map_of_mem hdecl))

/-- Other names than those of the typedefs are declared at the places of their declarations. -/
theorem Document.Places.lookup (h : document.Places typedefs document' place)
    (hnodup : (document.declarations.map (·.name.text)).Nodup)
    (hnodup' : (document'.declarations.map (·.name.text)).Nodup) {name : String}
    (hname : ∀ decl ∈ typedefs, decl.name.text ≠ name) :
    (enterSymbols document').value.lookup name =
      ((enterSymbols document).value.lookup name).map place := by
  rw [lookup_enterSymbols, lookup_enterSymbols]
  ext index'
  rw [findIdx?_eq_some_iff_of_nodup hnodup', Option.map_eq_some_iff]
  constructor
  · rintro ⟨declaration', hdecl', hname'⟩
    rcases h.others index' declaration' hdecl' with ⟨index, rfl⟩ | ⟨decl, hdecl, rfl⟩
    · obtain ⟨declaration, hdecl, hmatches⟩ := h.exists_matches_back hdecl'
      exact ⟨index, (findIdx?_eq_some_iff_of_nodup hnodup).2
        ⟨declaration, hdecl, hmatches.text_name_eq.trans hname'⟩, rfl⟩
    · exact absurd hname' (hname decl hdecl)
  · rintro ⟨index, hindex, rfl⟩
    obtain ⟨declaration, hdecl, hname⟩ := (findIdx?_eq_some_iff_of_nodup hnodup).1 hindex
    obtain ⟨declaration', hdecl', hmatches⟩ := h.exists_matches hdecl
    exact ⟨declaration', hdecl', hmatches.text_name_eq.symm.trans hname⟩

/-- The names of the typedefs stand for them. -/
theorem Document.Abbreviates.lookup_typedef (h : document.Abbreviates typedefs document')
    (hnodup' : (document'.declarations.map (·.name.text)).Nodup) {decl : TypedefDecl}
    (hdecl : decl ∈ typedefs) :
    ∃ index', (enterSymbols document').value.lookup decl.name.text = some index' ∧
      document'.declarations[index']? = some (.typedef decl) := by
  obtain ⟨index', hindex'⟩ := List.getElem?_of_mem (h.typedef_mem hdecl)
  exact ⟨index', by
    rw [lookup_enterSymbols, findIdx?_eq_some_iff_of_nodup hnodup']
    exact ⟨_, hindex', rfl⟩, hindex'⟩

/-! ### References -/

/-- Each name of the first list has a counterpart in the second or is exempt. -/
theorem Name.compatible_forth (exempt : Name → Prop) :
    Name.Compatible Name.Alike fun list list' =>
      ∀ name ∈ list, (∃ name' ∈ list', name.Alike name') ∨ exempt name where
  nil := nofun
  single halike := List.forall_mem_singleton.2 (.inl ⟨_, List.mem_cons_self, halike⟩)
  append hlist hrest := List.forall_mem_append.2
    ⟨fun name hname => (hlist name hname).imp_left fun ⟨name', hname', halike⟩ =>
      ⟨name', List.mem_append_left _ hname', halike⟩,
    fun name hname => (hrest name hname).imp_left fun ⟨name', hname', halike⟩ =>
      ⟨name', List.mem_append_right _ hname', halike⟩⟩

/-- Each name of the second list has a counterpart in the first or is exempt. -/
theorem Name.compatible_back (exempt : Name → Prop) :
    Name.Compatible Name.Alike fun list list' =>
      ∀ name' ∈ list', (∃ name ∈ list, name.Alike name') ∨ exempt name' where
  nil := nofun
  single halike := List.forall_mem_singleton.2 (.inl ⟨_, List.mem_cons_self, halike⟩)
  append hlist hrest := List.forall_mem_append.2
    ⟨fun name' hname' => (hlist name' hname').imp_left fun ⟨name, hname, halike⟩ =>
      ⟨name, List.mem_append_left _ hname, halike⟩,
    fun name' hname' => (hrest name' hname').imp_left fun ⟨name, hname, halike⟩ =>
      ⟨name, List.mem_append_right _ hname, halike⟩⟩

/-- How names in abbreviated types are related, given how the names in a type are related to that
of a typedef for it. -/
theorem TypeRef.Abbreviated.compatible {r : List Name → List Name → Prop}
    (hr : Name.Compatible Name.Alike r)
    (htypedef : ∀ decl ∈ typedefs, ∀ (type : TypeRef) (name : Name),
      type.Matches Name.Alike decl.type → name.path.map (·.text) = [decl.name.text] →
        r type.references [name])
    {type type' : TypeRef} (h : type.Abbreviated typedefs type') :
    r type.references type'.references := by
  induction h with
  | builtin => exact hr.nil
  | list _ ih => exact ih
  | map _ _ ihKeys ihValues => exact hr.append ihKeys ihValues
  | name alike => exact hr.single alike
  | typedef declared target _ named => exact htypedef _ declared _ _ target named

/-- Every name in the first document is in the second one too, perhaps in a typedef. -/
theorem Document.Abbreviates.exists_reference (h : document.Abbreviates typedefs document')
    {name : Name} (hname : name ∈ document.references) :
    ∃ name' ∈ document'.references, name.Alike name' := by
  obtain ⟨declarations, hmatches, hperm⟩ := h.rearranges.declarations
  obtain ⟨declaration, hdeclaration, hname⟩ := List.mem_flatMap.1 hname
  obtain ⟨declaration', hdeclaration', hmatches⟩ := forall₂_mem_left hmatches hdeclaration
  have hr := Name.compatible_forth fun name => ∃ decl ∈ typedefs, ∃ name' ∈ decl.type.references,
    name.Alike name'
  have hreferences := hmatches.compatible hr fun type type' htypes =>
    htypes.compatible hr fun decl hdecl type _ htarget _ name hname =>
      .inr ⟨decl, hdecl, forall₂_mem_left htarget.references hname⟩
  rcases hreferences name hname with ⟨name', hname', halike⟩ | ⟨decl, hdecl, name', hname', halike⟩
  · have hmem := hperm.mem_iff.1 (List.mem_append_left _ hdeclaration')
    exact ⟨name', List.mem_flatMap.2 ⟨declaration', hmem, hname'⟩, halike⟩
  · exact ⟨name', List.mem_flatMap.2 ⟨_, h.typedef_mem hdecl, hname'⟩, halike⟩

/-- Every name in the second document is in the first one too or is that of a typedef. -/
theorem Document.Abbreviates.exists_reference_back (h : document.Abbreviates typedefs document')
    {name' : Name} (hname' : name' ∈ document'.references) :
    (∃ name ∈ document.references, name.Alike name') ∨
      ∃ decl ∈ typedefs, name'.path.map (·.text) = [decl.name.text] := by
  obtain ⟨declarations, hmatches, hperm⟩ := h.rearranges.declarations
  obtain ⟨declaration', hdeclaration', hname'⟩ := List.mem_flatMap.1 hname'
  rcases List.mem_append.1 (hperm.mem_iff.2 hdeclaration') with hmem | hmem
  · obtain ⟨declaration, hdeclaration, hmatches⟩ := forall₂_mem_right hmatches hmem
    have hr := Name.compatible_back fun name' =>
      ∃ decl ∈ typedefs, name'.path.map (·.text) = [decl.name.text]
    have hreferences := hmatches.compatible hr fun type type' htypes =>
      htypes.compatible hr fun decl hdecl _ _ _ hnamed =>
        List.forall_mem_singleton.2 (.inr ⟨decl, hdecl, hnamed⟩)
    refine (hreferences name' hname').imp_left fun ⟨name, hname, halike⟩ => ?_
    exact ⟨name, List.mem_flatMap.2 ⟨declaration, hdeclaration, hname⟩, halike⟩
  · obtain ⟨decl, hdecl, rfl⟩ := List.mem_map.1 hmem
    obtain ⟨type, htype, -, htarget⟩ := h.written decl hdecl
    obtain ⟨whole, hwhole, hpart⟩ := List.mem_flatMap.1 htype
    obtain ⟨name, hname, halike⟩ := forall₂_mem_right htarget.references hname'
    exact .inl ⟨name, document.references_subset_of_mem_types hwhole
      (TypeRef.references_subset_of_mem_parts hpart hname), halike⟩

end

end Idl
