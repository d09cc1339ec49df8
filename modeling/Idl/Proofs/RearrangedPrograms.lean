import Idl.Proofs.AgreeingTypes
import Idl.Proofs.NameResolution
import Idl.Proofs.PairedLoading
import Idl.Proofs.Rearranging

/-!
# Programs with rearranged declarations

The names in a program whose declarations are rearranged, file by file, stand for the same
declarations as before. So the resolvers of the two programs agree, with the place of each
declaration as its image.
-/
namespace Idl

/-- Tree by tree, the second program has the declarations of the first one and further typedefs for
types in them. Their names, which are among `names`, are new. -/
structure Program.Abbreviates (names : List String) (typedefs : Nat → List TypedefDecl)
    (place : Nat → Nat → Nat) (program program' : Program) : Prop where
  root : program.root = program'.root
  trees : ∀ number : Nat, Option.Rel (SourceTree.Pairs (Document.Abbreviates (typedefs number)))
    program.trees[number]? program'.trees[number]?
  places : ∀ (number : Nat) (tree tree' : SourceTree), program.trees[number]? = some tree →
    program'.trees[number]? = some tree' →
      tree.document.Places (typedefs number) tree'.document (place number)
  injective : ∀ number, Function.Injective (place number)
  new : ∀ number, ∀ decl ∈ typedefs number, decl.name.text ∈ names
  distinct : ∀ number, ((typedefs number).map (·.name.text)).Nodup
  avoids : ∀ tree ∈ program.trees, tree.document.Avoids names

/-- The declaration at the place of a declaration in the same tree. -/
def DeclRef.placed (place : Nat → Nat → Nat) (ref : DeclRef) : DeclRef :=
  ⟨ref.tree, place ref.tree ref.index⟩

namespace Program

/-- No file of the program declares a name twice. -/
def NamesDistinct (program : Program) : Prop :=
  ∀ tree ∈ program.trees, (tree.document.declarations.map (·.name.text)).Nodup

/-- The table has the symbols of every tree. -/
def SymbolsOf (program : Program) (symbols : Table Symbols) : Prop :=
  ∀ number, symbols.lookup number =
    program.trees[number]?.map fun tree => (enterSymbols tree.document).value

variable {names : List String} {typedefs : Nat → List TypedefDecl} {place : Nat → Nat → Nat}
  {program program' : Program} {number : Nat} {tree tree' : SourceTree}

/-- Programs in pairs whose documents abbreviate types have typedefs and places for each tree. -/
theorem Pairs.exists_abbreviates {good : List TypedefDecl → Prop} (hnil : good [])
    (hnew : ∀ typedefs, good typedefs → (∀ decl ∈ typedefs, decl.name.text ∈ names) ∧
      (typedefs.map (·.name.text)).Nodup)
    (havoids : ∀ tree ∈ program.trees, tree.document.Avoids names)
    (h : program.Pairs (fun document document' =>
      ∃ typedefs, good typedefs ∧ document.Abbreviates typedefs document') program') :
    ∃ typedefs place, (∀ number, good (typedefs number)) ∧
      program.Abbreviates names typedefs place program' := by
  have htree (number : Nat) : ∃ (typedefs : List TypedefDecl) (place : Nat → Nat), good typedefs ∧
      Function.Injective place ∧
      Option.Rel (SourceTree.Pairs (Document.Abbreviates typedefs)) program.trees[number]?
        program'.trees[number]? ∧
      ∀ tree tree', program.trees[number]? = some tree → program'.trees[number]? = some tree' →
        tree.document.Places typedefs tree'.document place := by
    have hpair := getElem?_of_forall₂ h.trees number
    generalize program.trees[number]? = tree at hpair ⊢
    generalize program'.trees[number]? = tree' at hpair ⊢
    cases hpair with
    | none => exact ⟨[], id, hnil, Function.injective_id, .none, nofun⟩
    | some hpair =>
      obtain ⟨typedefs, hgood, hdocuments⟩ := hpair.document
      obtain ⟨place, hplace⟩ := hdocuments.exists_places
      refine ⟨typedefs, place, hgood, hplace.injective,
        .some ⟨hpair.package, hpair.path, hdocuments, hpair.includes⟩, ?_⟩
      rintro _ _ ⟨⟩ ⟨⟩
      exact hplace
  choose typedefs place hgood hinjective htrees hplaces using htree
  exact ⟨typedefs, place, hgood, h.root, htrees, hplaces, hinjective,
    fun number => (hnew _ (hgood number)).1, fun number => (hnew _ (hgood number)).2, havoids⟩

namespace Abbreviates

variable (h : program.Abbreviates names typedefs place program')

include h

theorem exists_tree (htree : program.trees[number]? = some tree) :
    ∃ tree', program'.trees[number]? = some tree' ∧
      tree.Pairs (Document.Abbreviates (typedefs number)) tree' :=
  exists_of_optionRel (h.trees number) htree

theorem exists_tree_back (htree' : program'.trees[number]? = some tree') :
    ∃ tree, program.trees[number]? = some tree ∧
      tree.Pairs (Document.Abbreviates (typedefs number)) tree' :=
  exists_of_optionRel_back (h.trees number) htree'

theorem document (htree : program.trees[number]? = some tree)
    (htree' : program'.trees[number]? = some tree') :
    tree.document.Abbreviates (typedefs number) tree'.document :=
  (optionRel_of_some (h.trees number) htree htree').document

theorem injective_placed : Function.Injective (DeclRef.placed place) := by
  rintro ⟨number, index⟩ ⟨number', index'⟩ hsame
  obtain ⟨rfl, hindex⟩ := DeclRef.mk.inj hsame
  exact congrArg _ (h.injective number hindex)

theorem declared (ref : DeclRef) :
    Option.Rel (Declaration.Matches Name.Alike (TypeRef.Abbreviated (typedefs ref.tree)))
      (program.declaration? ref) (program'.declaration? (ref.placed place)) := by
  have hpair := h.trees ref.tree
  have hplaces := h.places ref.tree
  unfold declaration?
  rw [show (ref.placed place).tree = ref.tree from rfl]
  generalize program.trees[ref.tree]? = tree at hpair hplaces ⊢
  generalize program'.trees[ref.tree]? = tree' at hpair hplaces ⊢
  cases hpair with
  | none => exact .none
  | some _ => exact (hplaces _ _ rfl rfl).declared ref.index

theorem nodup_iff (htree : program.trees[number]? = some tree)
    (htree' : program'.trees[number]? = some tree') :
    (tree.document.declarations.map (·.name.text)).Nodup ↔
      (tree'.document.declarations.map (·.name.text)).Nodup :=
  (h.document htree htree').nodup_iff (h.new number) (h.distinct number)
    (h.avoids tree (List.mem_of_getElem? htree))

theorem namesDistinct_iff : program.NamesDistinct ↔ program'.NamesDistinct := by
  constructor
  · intro hdistinct tree' hmem
    obtain ⟨number, htree'⟩ := List.getElem?_of_mem hmem
    obtain ⟨tree, htree, -⟩ := h.exists_tree_back htree'
    exact (h.nodup_iff htree htree').1 (hdistinct tree (List.mem_of_getElem? htree))
  · intro hdistinct tree hmem
    obtain ⟨number, htree⟩ := List.getElem?_of_mem hmem
    obtain ⟨tree', htree', -⟩ := h.exists_tree htree
    exact (h.nodup_iff htree htree').2 (hdistinct tree' (List.mem_of_getElem? htree'))

/-! ### Symbols -/

variable {symbols symbols' : Table Symbols} (hsymbols : program.SymbolsOf symbols)
  (hsymbols' : program'.SymbolsOf symbols') (hdistinct : program.NamesDistinct)

include hsymbols hsymbols' hdistinct

/-- Names that are not new are declared at the places of their declarations. -/
theorem lookup {name : String} (hname : name ∉ names) (number : Nat) :
    (symbols'.lookup number).bind (·.lookup name) =
      ((symbols.lookup number).bind (·.lookup name)).map (place number) := by
  rw [hsymbols number, hsymbols' number]
  cases htree : program.trees[number]? with
  | none =>
    cases htree' : program'.trees[number]? with
    | none => rfl
    | some tree' =>
      obtain ⟨tree, htree, -⟩ := h.exists_tree_back htree'
      simp_all
  | some tree =>
    obtain ⟨tree', htree', -⟩ := h.exists_tree htree
    rw [htree']
    refine (h.places number tree tree' htree htree').lookup
      (hdistinct tree (List.mem_of_getElem? htree))
      (h.namesDistinct_iff.1 hdistinct tree' (List.mem_of_getElem? htree')) ?_
    rintro decl hdecl rfl
    exact hname (h.new number decl hdecl)

end Abbreviates

end Program

/-! ### Resolutions -/

/-- Bindings to corresponding declarations with the same components left over. -/
abbrev Binding.Corresponds (image : DeclRef → DeclRef) (binding binding' : Binding) : Prop :=
  image binding.target = binding'.target ∧
    binding.tail.map (·.text) = binding'.tail.map (·.text)

/-- Resolutions of the same kind that name corresponding declarations. -/
inductive Resolution.Corresponds (image : DeclRef → DeclRef) : Resolution → Resolution → Prop
  | here {binding binding' : Binding} (h : binding.Corresponds image binding') :
      Corresponds image (.here binding) (.here binding')
  | included {package} {binding binding' : Binding} (h : binding.Corresponds image binding') :
      Corresponds image (.included package binding) (.included package binding')
  | unknown : Corresponds image .unknown .unknown
  | bare : Corresponds image .bare .bare
  | missing {package} {member member' : Identifier} (h : member.text = member'.text) :
      Corresponds image (.missing package member) (.missing package member')

namespace Resolution.Corresponds

variable {image : DeclRef → DeclRef} {resolution resolution' : Resolution}

theorem binding? (h : resolution.Corresponds image resolution') :
    Option.Rel (Binding.Corresponds image) resolution.binding? resolution'.binding? := by
  cases h with
  | here h => exact .some h
  | included h => exact .some h
  | _ => exact .none

theorem package?_eq (h : resolution.Corresponds image resolution') :
    resolution.package? = resolution'.package? := by
  cases h <;> rfl

/-- The same is reported about names that are alike. -/
theorem gist_failure? (h : resolution.Corresponds image resolution') {name name' : Name}
    (halike : name.Alike name') :
    (failure? (resolution.outcome name)).map Report.gist =
      (failure? (resolution'.outcome name')).map Report.gist := by
  have hhead : name.head.text = name'.head.text := (List.cons.inj halike).1
  cases h with
  | unknown => simp [outcome, failure?, Report.gist, Report.error, hhead]
  | bare => simp [outcome, failure?, Report.gist, Report.error, hhead]
  | missing h => simp [outcome, failure?, Report.gist, Report.error, h]
  | _ => rfl

end Resolution.Corresponds

namespace Program.Abbreviates

variable {names : List String} {typedefs : Nat → List TypedefDecl} {place : Nat → Nat → Nat}
  {program program' : Program} {number : Nat} {tree tree' : SourceTree}
  {symbols symbols' : Table Symbols}

/-- Names without new components are resolved alike. -/
theorem resolveName (h : program.Abbreviates names typedefs place program')
    (hsymbols : program.SymbolsOf symbols) (hsymbols' : program'.SymbolsOf symbols')
    (hdistinct : program.NamesDistinct)
    (hpair : tree.Pairs (Document.Abbreviates (typedefs number)) tree') {name name' : Name}
    (halike : name.Alike name') (hname : ∀ component ∈ name.path, component.text ∉ names) :
    (Idl.resolveName symbols number tree name).Corresponds (DeclRef.placed place)
      (Idl.resolveName symbols' number tree' name') := by
  obtain ⟨head, tail, span⟩ := name
  obtain ⟨head', tail', span'⟩ := name'
  obtain ⟨hhead, htail⟩ : head.text = head'.text ∧ tail.map (·.text) = tail'.map (·.text) :=
    List.cons.inj halike
  have hlookup {text : String} (htext : text ∉ names) :=
    h.lookup hsymbols hsymbols' hdistinct htext
  -- no component is the name of a new typedef, so each is looked up to the same
  have hhere := hlookup (hname head List.mem_cons_self) number
  unfold Idl.resolveName
  simp only [← hhead, hhere]
  cases (symbols.lookup number).bind (·.lookup head.text) with
  | some index => exact .here ⟨rfl, htail⟩
  | none =>
    simp only [Option.map_none]
    have hedge := find?_of_pairs hpair.includes head.text
    unfold SourceTree.include?
    generalize tree.includes.find? _ = edge at hedge ⊢
    generalize tree'.includes.find? _ = edge' at hedge ⊢
    cases hedge with
    | none => exact .unknown
    | @some edge edge' hedge =>
      cases tail with
      | nil =>
        obtain rfl : tail' = [] := List.map_eq_nil_iff.1 htail.symm
        exact .bare
      | cons member tail =>
        cases tail' with
        | nil => cases htail
        | cons member' tail' =>
          obtain ⟨hmember, htail⟩ := List.cons.inj htail
          have hthere := hlookup (hname member (by simp [Name.path])) edge.tree
          simp only [← hmember, ← hedge.tree, ← hedge.name, hthere]
          cases (symbols.lookup edge.tree).bind (·.lookup member.text) with
          | some index => exact .included ⟨rfl, htail⟩
          | none => exact .missing hmember

/-- The name of a typedef is resolved to it. -/
theorem resolveName_typedef (h : program.Abbreviates names typedefs place program')
    (hsymbols' : program'.SymbolsOf symbols') (hdistinct : program.NamesDistinct)
    (htree' : program'.trees[number]? = some tree') {decl : TypedefDecl}
    (hdecl : decl ∈ typedefs number) {name' : Name}
    (hname' : name'.path.map (·.text) = [decl.name.text]) :
    ∃ index', Idl.resolveName symbols' number tree' name' = .here ⟨⟨number, index'⟩, []⟩ ∧
      tree'.document.declarations[index']? = some (.typedef decl) := by
  obtain ⟨head, tail, span⟩ := name'
  obtain ⟨hhead, htail⟩ : head.text = decl.name.text ∧ tail.map (·.text) = [] :=
    List.cons.inj hname'
  obtain rfl := List.map_eq_nil_iff.1 htail
  obtain ⟨tree, htree, hpair⟩ := h.exists_tree_back htree'
  obtain ⟨index', hlookup, hdeclared⟩ := hpair.document.lookup_typedef
    (h.namesDistinct_iff.1 hdistinct tree' (List.mem_of_getElem? htree')) hdecl
  refine ⟨index', ?_, hdeclared⟩
  have hhere : (symbols'.lookup number).bind (·.lookup head.text) = some index' := by
    rw [hsymbols' number, htree', hhead]
    exact hlookup
  unfold Idl.resolveName
  simp only [hhere]

end Program.Abbreviates

/-! ### Bindings -/

namespace Resolver

/-- A name in a tree is bound to what it is resolved to. -/
theorem binding?_eq {resolver : Resolver} (hclean : resolver.IsClean)
    (hread : resolver.program.IsRead) {number : Nat} {tree : SourceTree}
    (htree : resolver.program.trees[number]? = some tree) {name : Name}
    (hname : name ∈ tree.document.references) :
    resolver.binding? number name = (resolveName resolver.symbols number tree name).binding? := by
  obtain ⟨nodes, hparsed⟩ := hread.parsed tree (List.mem_of_getElem? htree)
  rw [binding?, hclean.bindings, htree, Option.map_some, Option.bind_some, Bindings.lookup,
    names_bindNames]
  exact lookup_filterMap_start (Source.pairwise_start_references hparsed) hname

theorem IsClean.namesDistinct {resolver : Resolver} (hclean : resolver.IsClean) :
    resolver.program.NamesDistinct :=
  fun tree htree => ((silent_enterSymbols_iff tree.document).1 (hclean.entered tree htree)).1

section

variable {old new : Resolver} {names : List String} {typedefs : Nat → List TypedefDecl}
  {place : Nat → Nat → Nat} (hold : old.IsClean) (hnew : new.IsClean)
  (hread : old.program.IsRead) (hread' : new.program.IsRead)
  (h : old.program.Abbreviates names typedefs place new.program)
  {number : Nat} {tree tree' : SourceTree} (htree : old.program.trees[number]? = some tree)
  (htree' : new.program.trees[number]? = some tree')

include hold hnew hread hread' h htree htree'

/-- Names of the two programs that are alike are bound to corresponding declarations. -/
theorem namesAgree {name name' : Name} (hname : name ∈ tree.document.references)
    (hname' : name' ∈ tree'.document.references) (halike : name.Alike name') :
    NamesAgree old new (DeclRef.placed place) number number name name' where
  alike := halike
  bindings := by
    have hpair := optionRel_of_some (h.trees number) htree htree'
    rw [binding?_eq hold hread htree hname, binding?_eq hnew hread' htree' hname']
    exact (h.resolveName hold.symbols hnew.symbols hold.namesDistinct hpair halike
      ((h.avoids tree (List.mem_of_getElem? htree)).referenced name hname)).binding?

omit hread in
/-- The name of a typedef stands for the type of the typedef. -/
theorem aliases_typedef {decl : TypedefDecl} (hdecl : decl ∈ typedefs number) {name' : Name}
    (hname' : name' ∈ tree'.document.references)
    (hnamed : name'.path.map (·.text) = [decl.name.text]) :
    ∃ index', (∀ ref, DeclRef.placed place ref ≠ ⟨number, index'⟩) ∧
      new.Aliases ⟨number, .name name'⟩ ⟨number, index'⟩ ⟨number, decl.type⟩ ∧
        .typedef decl ∈ tree'.document.declarations := by
  obtain ⟨index', hresolve, hdeclared⟩ := h.resolveName_typedef hnew.symbols hold.namesDistinct
    htree' hdecl hnamed
  have htypedef : new.declaration? ⟨number, index'⟩ = some (.typedef decl) := by
    rw [declaration?, Program.declaration?, htree']
    exact hdeclared
  refine ⟨index', ?_, ⟨name', rfl, ?_, (typedef?_eq_some_iff _ _).2 ⟨decl, htypedef, rfl⟩⟩,
    List.mem_of_getElem? hdeclared⟩
  · -- a declaration of that name would not be new
    rintro ref hplaced
    obtain rfl : ref.tree = number := congrArg DeclRef.tree hplaced
    obtain ⟨declaration, hdeclared', hmatches⟩ := exists_of_optionRel_back (h.declared ref)
      (show new.program.declaration? (ref.placed place) = some (.typedef decl) from
        hplaced ▸ htypedef)
    obtain ⟨other, hother, hget⟩ := Option.bind_eq_some_iff.1 hdeclared'
    refine (h.avoids other (List.mem_of_getElem? hother)).declared declaration
      (List.mem_of_getElem? hget) ?_
    rw [hmatches.text_name_eq]
    exact h.new _ decl hdecl
  · rw [binding?_eq hnew hread' htree' hname', hresolve]
    rfl

/-- Types of the two programs agree if parts of the second one abbreviate the first. -/
theorem typesAgree_of_abbreviated {type type' : TypeRef}
    (htypes : type.Abbreviated (typedefs number) type')
    (htype : type.references ⊆ tree.document.references)
    (htype' : type'.references ⊆ tree'.document.references) :
    TypesAgree old new (DeclRef.placed place) ⟨number, type⟩ ⟨number, type'⟩ := by
  have hnames {name name' : Name} (hname : name ∈ tree.document.references)
      (hname' : name' ∈ tree'.document.references) (halike : name.Alike name') :
      NamesAgree old new (DeclRef.placed place) number number name name' :=
    namesAgree hold hnew hread hread' h htree htree' hname hname' halike
  induction htypes with
  | builtin => exact .builtin
  | list _ ih => exact .list (ih htype htype')
  | map _ _ ihKeys ihValues =>
    obtain ⟨hkey, hvalue⟩ := List.append_subset.1 htype
    obtain ⟨hkey', hvalue'⟩ := List.append_subset.1 htype'
    exact .map (ihKeys hkey hkey') (ihValues hvalue hvalue')
  | name alike =>
    exact .name (hnames (htype List.mem_cons_self) (htype' List.mem_cons_self) alike)
  | @typedef type decl name declared target stored named =>
    obtain ⟨index', hfurther, halias, hmem⟩ := aliases_typedef hold hnew hread' h htree htree'
      declared (htype' List.mem_cons_self) named
    refine .typedef stored hfurther halias (typesAgree_of_matches ?_)
    have hdecl : decl.type.references ⊆ tree'.document.references := fun name hname =>
      List.mem_flatMap.2 ⟨_, hmem, hname⟩
    exact target.imp fun name hname name' hname' => hnames (htype hname) (hdecl hname')

/-- Declarations of the two programs agree if types in the second one abbreviate those in the
first. -/
theorem declarationsAgree_of_abbreviated {declaration declaration' : Declaration}
    (hmem : declaration ∈ tree.document.declarations)
    (hmem' : declaration' ∈ tree'.document.declarations)
    (hmatches : declaration.Matches Name.Alike (TypeRef.Abbreviated (typedefs number))
      declaration') :
    DeclarationsAgree old new (DeclRef.placed place) number number declaration declaration' := by
  refine hmatches.imp (fun name hname name' hname' halike => ?_)
    fun type htype type' htype' htypes => ?_
  · exact namesAgree hold hnew hread hread' h htree htree'
      (List.mem_flatMap.2 ⟨declaration, hmem, hname⟩)
      (List.mem_flatMap.2 ⟨declaration', hmem', hname'⟩) halike
  · exact typesAgree_of_abbreviated hold hnew hread hread' h htree htree' htypes
      (Document.references_subset_of_mem_types (List.mem_flatMap.2 ⟨declaration, hmem, htype⟩))
      (Document.references_subset_of_mem_types (List.mem_flatMap.2 ⟨declaration', hmem', htype'⟩))

omit htree htree'

/-- The resolver of a program agrees with that of one in which types are abbreviated. -/
theorem abbreviates : Abbreviates old new (DeclRef.placed place) where
  agrees :=
    { injective := h.injective_placed
      declared := fun ref => by
        refine optionRel_imp_mem (h.declared ref) fun declaration hdecl declaration' hdecl' => ?_
        obtain ⟨tree, htree, hget⟩ := Option.bind_eq_some_iff.1 hdecl
        obtain ⟨tree', htree', hget'⟩ := Option.bind_eq_some_iff.1 hdecl'
        exact declarationsAgree_of_abbreviated hold hnew hread hread' h htree htree'
          (List.mem_of_getElem? hget) (List.mem_of_getElem? hget') }
  declarations ref' declaration' hdecl' := by
    obtain ⟨tree', htree', hget'⟩ := Option.bind_eq_some_iff.1 hdecl'
    obtain ⟨tree, htree, hpair⟩ := h.exists_tree_back htree'
    rcases (h.places ref'.tree tree tree' htree htree').others ref'.index declaration' hget' with
      ⟨index, hindex⟩ | ⟨decl, hdecl, rfl⟩
    · exact .inl ⟨⟨ref'.tree, index⟩, congrArg (DeclRef.mk ref'.tree) hindex⟩
    · obtain ⟨type, htype, hstored, htarget⟩ := hpair.document.written decl hdecl
      obtain ⟨whole, hwhole, hpart⟩ := List.mem_flatMap.1 htype
      refine .inr ⟨decl, ⟨ref'.tree, type⟩, rfl, ⟨tree, htree, whole, hwhole, hpart⟩, hstored, ?_⟩
      refine typesAgree_of_abbreviated hold hnew hread hread' h htree htree'
        (htarget.abbreviated _) ?_ fun name hname =>
          List.mem_flatMap.2 ⟨_, List.mem_of_getElem? hget', hname⟩
      exact List.Subset.trans (TypeRef.references_subset_of_mem_parts hpart)
        (Document.references_subset_of_mem_types hwhole)

end

end Resolver

end Idl
