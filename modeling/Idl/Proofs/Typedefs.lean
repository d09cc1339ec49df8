import Idl.Proofs.WrittenTypes

/-!
# Typedef chains

A typedef whose type is the bare name of a typedef leads to that typedef. If no typedef leads back
to itself, then unwrapping a type whose names all stand for types goes through and ends at a type
that is no typedef name. A typedef that does lead back to itself is found to be cyclic.
-/
namespace Idl

@[simp] theorem Program.mem_declRefs_iff (program : Program) (ref : DeclRef) :
    ref ∈ program.declRefs ↔ (program.declaration? ref).isSome := by
  obtain ⟨number, index⟩ := ref
  simp only [declRefs, declaration?, List.mem_flatMap, List.mem_map, List.mem_range,
    Prod.exists, List.mem_zipIdx_iff_getElem?, DeclRef.mk.injEq]
  constructor
  · rintro ⟨tree, number', htree, index', hindex, rfl, rfl⟩
    simp [htree, hindex]
  · intro h
    obtain ⟨declaration, hdeclaration⟩ := Option.isSome_iff_exists.1 h
    obtain ⟨tree, htree, hget⟩ := Option.bind_eq_some_iff.1 hdeclaration
    exact ⟨tree, number, htree, index, (List.getElem?_eq_some_iff.1 hget).1, rfl, rfl⟩

theorem Program.nodup_declRefs (program : Program) : program.declRefs.Nodup := by
  rw [declRefs, List.nodup_flatMap]
  constructor
  · rintro ⟨tree, number⟩ -
    exact List.nodup_range.map fun i j h => (DeclRef.mk.inj h).2
  · have hnumbers : (program.trees.zipIdx.map Prod.snd).Nodup := by
      rw [List.zipIdx_map_snd]
      exact List.nodup_range'
    refine (List.pairwise_map.1 hnumbers).imp ?_
    rintro ⟨tree, number⟩ ⟨tree', number'⟩ hne ref href href'
    obtain ⟨index, -, rfl⟩ := List.mem_map.1 href
    obtain ⟨index', -, h⟩ := List.mem_map.1 href'
    exact hne (DeclRef.mk.inj h).1.symm

namespace Resolver

/-- The name, in a type of tree `tree`, stands for a struct, an enum or a typedef. -/
def NamesType (resolver : Resolver) (tree : Nat) (name : Name) : Prop :=
  ∃ target declaration, resolver.binding? tree name = some ⟨target, []⟩ ∧
    resolver.declaration? target = some declaration ∧ isTypeDeclaration declaration = true

/-- Every name in a type stands for a type. -/
def IsProper (resolver : Resolver) (type : LocatedType) : Prop :=
  ∀ name ∈ type.type.references, resolver.NamesType type.tree name

/-- A type that is written somewhere in the program, by itself or inside another type. -/
def IsWritten (resolver : Resolver) (type : LocatedType) : Prop :=
  ∃ tree, resolver.program.trees[type.tree]? = some tree ∧
    ∃ whole ∈ tree.document.types, type.type ∈ whole.parts

/-- Every type that is written in the program is proper. -/
def TypesResolve (resolver : Resolver) : Prop :=
  ∀ number tree, resolver.program.trees[number]? = some tree →
    ∀ type ∈ tree.document.types, resolver.IsProper ⟨number, type⟩

/-- A type is the bare name of a typedef that stands for the type `next`. -/
def Aliases (resolver : Resolver) (type : LocatedType) (typedef : DeclRef) (next : LocatedType) :
    Prop :=
  ∃ name, type.type = .name name ∧ resolver.binding? type.tree name = some ⟨typedef, []⟩ ∧
    resolver.typedef? typedef = some next

theorem Aliases.typedef?_eq {resolver : Resolver} {type next : LocatedType} {typedef : DeclRef}
    (h : resolver.Aliases type typedef next) : resolver.typedef? typedef = some next := by
  obtain ⟨-, -, -, htypedef⟩ := h
  exact htypedef

theorem Aliases.typedef_unique {resolver : Resolver} {type next next' : LocatedType}
    {typedef typedef' : DeclRef} (h : resolver.Aliases type typedef next)
    (h' : resolver.Aliases type typedef' next') : typedef = typedef' := by
  obtain ⟨name, hname, hbinding, -⟩ := h
  obtain ⟨name', hname', hbinding', -⟩ := h'
  obtain rfl := TypeRef.name.inj (hname.symm.trans hname')
  cases hbinding.symm.trans hbinding'
  rfl

/-- The type of a typedef is the bare name of another. -/
def LeadsTo (resolver : Resolver) (typedef other : DeclRef) : Prop :=
  ∃ type next, resolver.typedef? typedef = some type ∧ resolver.Aliases type other next

/-- No typedef comes back to itself along its chain of names. -/
def TypedefsEnd (resolver : Resolver) : Prop :=
  ∀ typedef, ¬ Relation.TransGen resolver.LeadsTo typedef typedef

variable {resolver : Resolver}

theorem typedef?_eq_some_iff (typedef : DeclRef) (type : LocatedType) :
    resolver.typedef? typedef = some type ↔
      ∃ decl, resolver.declaration? typedef = some (.typedef decl) ∧
        type = ⟨typedef.tree, decl.type⟩ := by
  unfold typedef?
  split
  · next decl hdecl => simp [hdecl, eq_comm]
  · next hdecl => simpa using fun decl h => absurd h (hdecl decl)

theorem isProper_of_isWritten (h : resolver.TypesResolve) {type : LocatedType}
    (htype : resolver.IsWritten type) : resolver.IsProper type := by
  obtain ⟨tree, htree, whole, hwhole, hpart⟩ := htype
  intro name hname
  exact h type.tree tree htree whole hwhole name
    (TypeRef.references_subset_of_mem_parts hpart hname)

/-- The declarations of a program are written in its trees. -/
theorem exists_tree_of_declaration? {ref : DeclRef} {declaration : Declaration}
    (h : resolver.declaration? ref = some declaration) :
    ∃ tree, resolver.program.trees[ref.tree]? = some tree ∧
      declaration ∈ tree.document.declarations := by
  obtain ⟨tree, htree, hget⟩ := Option.bind_eq_some_iff.1 h
  exact ⟨tree, htree, List.mem_of_getElem? hget⟩

theorem isProper_of_declaration? (h : resolver.TypesResolve) {ref : DeclRef}
    {declaration : Declaration} (hdeclaration : resolver.declaration? ref = some declaration)
    {type : TypeRef} (htype : type ∈ declaration.types) : resolver.IsProper ⟨ref.tree, type⟩ := by
  obtain ⟨tree, htree, hmem⟩ := exists_tree_of_declaration? hdeclaration
  exact h ref.tree tree htree type (List.mem_flatMap.2 ⟨declaration, hmem, htype⟩)

theorem isProper_of_aliases (h : resolver.TypesResolve) {type next : LocatedType}
    {typedef : DeclRef} (halias : resolver.Aliases type typedef next) : resolver.IsProper next := by
  obtain ⟨name, -, -, htypedef⟩ := halias
  obtain ⟨decl, hdecl, rfl⟩ := (typedef?_eq_some_iff typedef next).1 htypedef
  exact isProper_of_declaration? h hdecl (List.mem_singleton.2 rfl)

theorem mem_typedefs_iff (ref : DeclRef) :
    ref ∈ resolver.typedefs ↔ (resolver.typedef? ref).isSome := by
  rw [typedefs, List.mem_filter, Program.mem_declRefs_iff, isTypedef]
  refine ⟨fun h => h.2, fun h => ⟨?_, h⟩⟩
  obtain ⟨type, htype⟩ := Option.isSome_iff_exists.1 h
  obtain ⟨decl, hdecl, -⟩ := (typedef?_eq_some_iff ref type).1 htype
  exact Option.isSome_iff_exists.2 ⟨_, hdecl⟩

theorem unwrapFrom_of_aliases {unvisited : List DeclRef} {last : Option DeclRef}
    {type next : LocatedType} {typedef : DeclRef} (h : resolver.Aliases type typedef next) :
    resolver.unwrapFrom unvisited last type =
      if typedef ∈ unvisited then
        resolver.unwrapFrom (unvisited.erase typedef) (some typedef) next
      else .error (.cyclic typedef) := by
  obtain ⟨name, hname, hbinding, htypedef⟩ := h
  rw [unwrapFrom, hname]
  simp only [hbinding, htypedef, ne_eq, not_true_eq_false, if_false]

/-- Where unwrapping comes to an end: at no typedef name, with the declaration that is named. -/
structure IsUnwrapped (resolver : Resolver) (unwrapped : Unwrapped) : Prop where
  proper : resolver.IsProper unwrapped.type
  noAlias : ∀ typedef next, ¬ resolver.Aliases unwrapped.type typedef next
  target : ∀ name, unwrapped.type.type = .name name →
    ∃ ref, resolver.binding? unwrapped.type.tree name = some ⟨ref, []⟩ ∧
      unwrapped.target = some ref

theorem unwrapFrom_of_not_aliases (unvisited : List DeclRef) (last : Option DeclRef)
    {type : LocatedType} (hproper : resolver.IsProper type)
    (h : ∀ typedef next, ¬ resolver.Aliases type typedef next) :
    ∃ unwrapped, resolver.unwrapFrom unvisited last type = .ok unwrapped ∧
      unwrapped.type = type ∧ resolver.IsUnwrapped unwrapped := by
  rw [unwrapFrom]
  split
  · next name hname =>
    obtain ⟨ref, declaration, hbinding, -, -⟩ := hproper name (by simp [hname, TypeRef.references])
    have htypedef : resolver.typedef? ref = none :=
      Option.eq_none_iff_forall_ne_some.2 fun next hnext =>
        h ref next ⟨name, hname, hbinding, hnext⟩
    simp only [hbinding, htypedef]
    refine ⟨_, rfl, rfl, hproper, h, fun other hother => ?_⟩
    obtain rfl := TypeRef.name.inj (hname.symm.trans hother)
    exact ⟨ref, hbinding, rfl⟩
  · next hname => exact ⟨_, rfl, rfl, hproper, h, fun name h => absurd h (hname name)⟩

/-- A type and the type it is an alias of. -/
def AliasStep (resolver : Resolver) (type next : LocatedType) : Prop :=
  ∃ typedef, resolver.Aliases type typedef next

theorem unwrapFrom_ok (hresolve : resolver.TypesResolve) (hend : resolver.TypedefsEnd)
    {unvisited : List DeclRef} {last : Option DeclRef} {type : LocatedType}
    (hproper : resolver.IsProper type)
    (hunvisited : ∀ typedef next, resolver.Aliases type typedef next →
      ∀ other, Relation.ReflTransGen resolver.LeadsTo typedef other → other ∈ unvisited) :
    ∃ unwrapped, resolver.unwrapFrom unvisited last type = .ok unwrapped ∧
      Relation.ReflTransGen resolver.AliasStep type unwrapped.type ∧
        resolver.IsUnwrapped unwrapped := by
  induction hlength : unvisited.length using Nat.strong_induction_on
    generalizing unvisited last type with
  | _ length ih =>
    by_cases halias : ∃ typedef next, resolver.Aliases type typedef next
    · obtain ⟨typedef, next, halias⟩ := halias
      have hmem : typedef ∈ unvisited := hunvisited typedef next halias typedef .refl
      rw [unwrapFrom_of_aliases halias, if_pos hmem]
      -- what is reached from the next typedef is not the one just taken, as no chain comes back
      have hrest : ∀ other following, resolver.Aliases next other following →
          ∀ last, Relation.ReflTransGen resolver.LeadsTo other last →
            last ∈ unvisited.erase typedef := by
        intro other following hother last hlast
        have hstep : resolver.LeadsTo typedef other := by
          obtain ⟨-, -, -, htypedef⟩ := halias
          exact ⟨next, following, htypedef, hother⟩
        have htrans : Relation.TransGen resolver.LeadsTo typedef last :=
          Relation.TransGen.head' hstep hlast
        have hne : last ≠ typedef := fun h => hend typedef (h ▸ htrans)
        exact (List.mem_erase_of_ne hne).2
          (hunvisited typedef next halias last htrans.to_reflTransGen)
      obtain ⟨unwrapped, hok, hchain, hend⟩ :=
        @ih _ (hlength ▸ length_erase_lt hmem) _ (some typedef) next
          (isProper_of_aliases hresolve halias) hrest rfl
      exact ⟨unwrapped, hok, .head ⟨typedef, halias⟩ hchain, hend⟩
    · have hno : ∀ typedef next, ¬ resolver.Aliases type typedef next :=
        fun typedef next h => halias ⟨typedef, next, h⟩
      obtain ⟨unwrapped, hok, htype, hend⟩ :=
        unwrapFrom_of_not_aliases unvisited last hproper hno
      exact ⟨unwrapped, hok, htype ▸ .refl, hend⟩

/-- What unwrapping comes to lies on the chain of typedefs, and the last typedef on the way stands
for it. -/
structure EndsChain (resolver : Resolver) (last : Option DeclRef) (type : LocatedType)
    (unwrapped : Unwrapped) : Prop where
  chain : Relation.ReflTransGen resolver.AliasStep type unwrapped.type
  noAlias : ∀ typedef next, ¬ resolver.Aliases unwrapped.type typedef next
  typedef : (unwrapped.type = type ∧ unwrapped.typedef = last) ∨
    ∃ typedef part, unwrapped.typedef = some typedef ∧
      Relation.ReflTransGen resolver.AliasStep type part ∧
        resolver.Aliases part typedef unwrapped.type
  target : ∀ ref, unwrapped.target = some ref → ∃ name tail, unwrapped.type.type = .name name ∧
    resolver.binding? unwrapped.type.tree name = some ⟨ref, tail⟩
  noTarget : unwrapped.target = none → ∀ name, unwrapped.type.type ≠ .name name

theorem EndsChain.name {last : Option DeclRef} {type : LocatedType} {name : Name}
    {binding : Binding} (hname : type.type = .name name)
    (hbinding : resolver.binding? type.tree name = some binding)
    (hnone : binding.tail = [] → resolver.typedef? binding.target = none) :
    resolver.EndsChain last type ⟨type, some binding.target, last⟩ where
  chain := .refl
  noAlias typedef next halias := by
    obtain ⟨other, hother, hother', htypedef⟩ := halias
    obtain rfl := TypeRef.name.inj (hname.symm.trans hother)
    obtain rfl := Option.some.inj (hbinding.symm.trans hother')
    exact Option.some_ne_none _ (htypedef.symm.trans (hnone rfl))
  typedef := .inl ⟨rfl, rfl⟩
  target ref href := by
    obtain rfl := Option.some.inj href
    exact ⟨name, binding.tail, hname, hbinding⟩
  noTarget hnil := absurd hnil (Option.some_ne_none _)

theorem EndsChain.other {last : Option DeclRef} {type : LocatedType}
    (hname : ∀ name, type.type ≠ .name name) : resolver.EndsChain last type ⟨type, none, last⟩ where
  chain := .refl
  noAlias typedef next halias := by
    obtain ⟨name, hother, -⟩ := halias
    exact hname name hother
  typedef := .inl ⟨rfl, rfl⟩
  target ref href := absurd href.symm (Option.some_ne_none _)
  noTarget _ := hname

theorem EndsChain.step {last : Option DeclRef} {type next : LocatedType} {typedef : DeclRef}
    {unwrapped : Unwrapped} (halias : resolver.Aliases type typedef next)
    (h : resolver.EndsChain (some typedef) next unwrapped) :
    resolver.EndsChain last type unwrapped where
  chain := h.chain.head ⟨typedef, halias⟩
  noAlias := h.noAlias
  typedef := by
    right
    rcases h.typedef with ⟨htype, htypedef⟩ | ⟨other, part, hother, hpart, hlast⟩
    · exact ⟨typedef, type, htypedef, .refl, htype ▸ halias⟩
    · exact ⟨other, part, hother, hpart.head ⟨typedef, halias⟩, hlast⟩
  target := h.target
  noTarget := h.noTarget

theorem endsChain_of_unwrapFrom {unvisited : List DeclRef} {last : Option DeclRef}
    {type : LocatedType} {unwrapped : Unwrapped}
    (h : resolver.unwrapFrom unvisited last type = .ok unwrapped) :
    resolver.EndsChain last type unwrapped := by
  induction hlength : unvisited.length using Nat.strong_induction_on
    generalizing unvisited last type with
  | _ length ih =>
    rw [unwrapFrom] at h
    split at h
    · next name hname =>
      split at h
      · cases h
      · next binding hbinding =>
        split at h
        · next hnone =>
          obtain rfl := Except.ok.inj h
          exact .name hname hbinding fun _ => hnone
        · next next hnext =>
          split at h
          · next htail =>
            obtain rfl := Except.ok.inj h
            exact .name hname hbinding fun hnil => absurd hnil htail
          · next htail =>
            split at h
            · next hmem =>
              obtain ⟨target, tail⟩ := binding
              obtain rfl : tail = [] := not_not.1 htail
              exact .step ⟨name, hname, hbinding, hnext⟩
                (ih _ (hlength ▸ length_erase_lt hmem) h rfl)
            · cases h
    · next hname =>
      obtain rfl := Except.ok.inj h
      exact .other hname

theorem isSome_typedef?_of_leadsTo {typedef other : DeclRef}
    (h : resolver.LeadsTo typedef other) : (resolver.typedef? other).isSome := by
  obtain ⟨-, next, -, -, -, -, htypedef⟩ := h
  exact Option.isSome_iff_exists.2 ⟨next, htypedef⟩

/-- Unwrapping a proper type goes through if typedef chains end. -/
theorem unwrap_ok (hresolve : resolver.TypesResolve) (hend : resolver.TypedefsEnd)
    {type : LocatedType} (hproper : resolver.IsProper type) :
    ∃ unwrapped, resolver.unwrap type = .ok unwrapped ∧
      Relation.ReflTransGen resolver.AliasStep type unwrapped.type ∧
        resolver.IsUnwrapped unwrapped := by
  refine unwrapFrom_ok hresolve hend hproper fun typedef next halias other hreach => ?_
  rw [mem_typedefs_iff]
  cases hreach.cases_tail with
  | inl h =>
    obtain ⟨-, -, -, htypedef⟩ := halias
    exact Option.isSome_iff_exists.2 ⟨next, h ▸ htypedef⟩
  | inr h =>
    obtain ⟨middle, -, hstep⟩ := h
    exact isSome_typedef?_of_leadsTo hstep

theorem leadsTo_unique {typedef other other' : DeclRef} (h : resolver.LeadsTo typedef other)
    (h' : resolver.LeadsTo typedef other') : other = other' := by
  obtain ⟨type, next, htypedef, name, hname, hbinding, -⟩ := h
  obtain ⟨type', next', htypedef', name', hname', hbinding', -⟩ := h'
  obtain rfl := Option.some.inj (htypedef.symm.trans htypedef')
  obtain rfl := TypeRef.name.inj (hname.symm.trans hname')
  exact (Binding.mk.inj (Option.some.inj (hbinding.symm.trans hbinding'))).1

/-- A typedef leads to another in a number of steps. -/
def LeadsToIn (resolver : Resolver) : Nat → DeclRef → DeclRef → Prop
  | 0, typedef, other => typedef = other
  | n + 1, typedef, other =>
    ∃ middle, resolver.LeadsTo typedef middle ∧ resolver.LeadsToIn n middle other

theorem exists_leadsToIn {typedef other : DeclRef}
    (h : Relation.TransGen resolver.LeadsTo typedef other) :
    ∃ n, resolver.LeadsToIn (n + 1) typedef other := by
  induction h using Relation.TransGen.head_induction_on with
  | single h => exact ⟨0, _, h, rfl⟩
  | head h _ ih =>
    obtain ⟨n, hn⟩ := ih
    exact ⟨n + 1, _, h, hn⟩

/-- There is one way to go, so a longer walk passes where a shorter one ends. -/
theorem leadsToIn_rest {m n : Nat} {typedef middle other : DeclRef}
    (hmiddle : resolver.LeadsToIn m typedef middle)
    (hother : resolver.LeadsToIn (m + n) typedef other) : resolver.LeadsToIn n middle other := by
  induction m generalizing typedef with
  | zero =>
    obtain rfl : typedef = middle := hmiddle
    simpa using hother
  | succ m ih =>
    obtain ⟨next, hnext, hmiddle⟩ := hmiddle
    rw [Nat.add_right_comm] at hother
    obtain ⟨next', hnext', hother⟩ := hother
    obtain rfl := leadsTo_unique hnext hnext'
    exact ih hmiddle hother

theorem isSome_typedef?_of_leadsToIn {n : Nat} {typedef other : DeclRef}
    (h : resolver.LeadsToIn n typedef other) (htypedef : (resolver.typedef? typedef).isSome) :
    (resolver.typedef? other).isSome := by
  induction n generalizing typedef with
  | zero => exact (h : typedef = other) ▸ htypedef
  | succ n ih =>
    obtain ⟨middle, hstep, hrest⟩ := h
    exact ih hrest (isSome_typedef?_of_leadsTo hstep)

/-- A walk takes one step as long as it is at a typedef that is still unvisited. -/
theorem returnsTo_of_leadsTo {start current next : DeclRef} {unvisited : List DeclRef}
    (h : resolver.LeadsTo current next) (hmem : current ∈ unvisited) :
    resolver.returnsTo start unvisited current =
      resolver.returnsTo start (unvisited.erase current) next := by
  obtain ⟨type, following, htypedef, name, hname, hbinding, -⟩ := h
  rw [returnsTo]
  simp only [htypedef, hmem, if_true, hname, hbinding]

theorem returnsTo_of_leadsToIn {start current : DeclRef} {unvisited : List DeclRef} {n : Nat}
    (hstart : (resolver.typedef? start).isSome) (hvisited : start ∉ unvisited)
    (hreach : resolver.LeadsToIn n current start)
    (hfirst : ∀ k < n, ¬ resolver.LeadsToIn k current start)
    (hunvisited : ∀ k < n, ∀ other, resolver.LeadsToIn k current other → other ∈ unvisited) :
    resolver.returnsTo start unvisited current = true := by
  induction n generalizing current unvisited with
  | zero =>
    obtain rfl : current = start := hreach
    obtain ⟨type, htype⟩ := Option.isSome_iff_exists.1 hstart
    rw [returnsTo]
    simp [htype, hvisited]
  | succ n ih =>
    obtain ⟨next, hnext, hrest⟩ := hreach
    rw [returnsTo_of_leadsTo hnext (hunvisited 0 (by omega) current rfl)]
    refine ih (fun h => hvisited (List.mem_of_mem_erase h)) hrest
      (fun k hk h => hfirst (k + 1) (by omega) ⟨next, hnext, h⟩) fun k hk other hother => ?_
    have hwalk : resolver.LeadsToIn (k + 1) current other := ⟨next, hnext, hother⟩
    refine (List.mem_erase_of_ne fun h => ?_).2 (hunvisited (k + 1) (by omega) other hwalk)
    -- a walk that passes `current` again would have met `start` on a shorter way
    have hshort : resolver.LeadsToIn (n - k) current start := by
      rw [h] at hwalk
      refine leadsToIn_rest hwalk ?_
      rw [show k + 1 + (n - k) = n + 1 by omega]
      exact ⟨next, hnext, hrest⟩
    exact hfirst (n - k) (by omega) hshort

/-- A typedef that comes back to itself is found to be cyclic. -/
theorem typedefIsCyclic_of_transGen {typedef : DeclRef}
    (h : Relation.TransGen resolver.LeadsTo typedef typedef) :
    resolver.typedefIsCyclic typedef = true := by
  classical
  have hexists := exists_leadsToIn h
  have hreach := Nat.find_spec hexists
  have hleast : ∀ k < Nat.find hexists, ¬ resolver.LeadsToIn (k + 1) typedef typedef :=
    fun k hk => Nat.find_min hexists hk
  generalize Nat.find hexists = n at hreach hleast
  obtain ⟨next, hnext, hrest⟩ := hreach
  have hstart : (resolver.typedef? typedef).isSome := by
    obtain ⟨type, -, htypedef, -⟩ := hnext
    exact Option.isSome_iff_exists.2 ⟨type, htypedef⟩
  have hnodup : resolver.typedefs.Nodup := resolver.program.nodup_declRefs.filter _
  rw [typedefIsCyclic, returnsTo_of_leadsTo hnext ((mem_typedefs_iff typedef).2 hstart)]
  refine returnsTo_of_leadsToIn hstart hnodup.not_mem_erase hrest
    (fun k hk hback => hleast k hk ⟨next, hnext, hback⟩) fun k hk other hother => ?_
  have hne : other ≠ typedef := fun h => hleast k hk ⟨next, hnext, h ▸ hother⟩
  exact (List.mem_erase_of_ne hne).2 ((mem_typedefs_iff other).2
    (isSome_typedef?_of_leadsToIn hother (isSome_typedef?_of_leadsTo hnext)))

theorem reflTransGen_of_returnsTo {start current : DeclRef} {unvisited : List DeclRef}
    (h : resolver.returnsTo start unvisited current = true) :
    Relation.ReflTransGen resolver.LeadsTo current start ∧
      (resolver.typedef? current).isSome := by
  induction hlength : unvisited.length using Nat.strong_induction_on
    generalizing unvisited current with
  | _ length ih =>
    rw [returnsTo] at h
    split at h
    · cases h
    · next type htype =>
      refine ⟨?_, by rw [htype]; rfl⟩
      split at h
      · next hmem =>
        split at h
        · next name hname =>
          split at h
          · next target hbinding =>
            obtain ⟨hchain, hsome⟩ := ih _ (hlength ▸ length_erase_lt hmem) h rfl
            obtain ⟨next, hnext⟩ := Option.isSome_iff_exists.1 hsome
            exact hchain.head ⟨type, next, htype, name, hname, hbinding, hnext⟩
          · cases h
        · cases h
      · rw [beq_iff_eq] at h
        rw [h]

/-- A typedef is found to be cyclic exactly if it comes back to itself. -/
theorem typedefIsCyclic_iff (typedef : DeclRef) :
    resolver.typedefIsCyclic typedef = true ↔
      Relation.TransGen resolver.LeadsTo typedef typedef := by
  refine ⟨fun h => ?_, typedefIsCyclic_of_transGen⟩
  rw [typedefIsCyclic, returnsTo] at h
  split at h
  · cases h
  · next type htype =>
    have hmem : typedef ∈ resolver.typedefs :=
      (mem_typedefs_iff typedef).2 (Option.isSome_iff_exists.2 ⟨type, htype⟩)
    rw [if_pos hmem] at h
    split at h
    · next name hname =>
      split at h
      · next target hbinding =>
        obtain ⟨hchain, hsome⟩ := reflTransGen_of_returnsTo h
        obtain ⟨next, hnext⟩ := Option.isSome_iff_exists.1 hsome
        exact Relation.TransGen.head' ⟨type, next, htype, name, hname, hbinding, hnext⟩ hchain
      · cases h
    · cases h

/-- If no declared typedef is found to be cyclic, then typedef chains end. -/
theorem typedefsEnd_of_forall
    (h : ∀ typedef ∈ resolver.typedefs, resolver.typedefIsCyclic typedef = false) :
    resolver.TypedefsEnd := by
  intro typedef hcycle
  have hcyclic := typedefIsCyclic_of_transGen hcycle
  obtain ⟨middle, hstep, -⟩ := Relation.TransGen.head'_iff.1 hcycle
  have hmem : typedef ∈ resolver.typedefs := by
    obtain ⟨type, -, htypedef, -⟩ := hstep
    exact (mem_typedefs_iff typedef).2 (Option.isSome_iff_exists.2 ⟨type, htypedef⟩)
  rw [h typedef hmem] at hcyclic
  cases hcyclic

end Resolver
end Idl
