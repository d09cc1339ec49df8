import Idl.Proofs.CheckedTypes
import Idl.Proofs.RearrangedPrograms
import Idl.Proofs.ReportRegions
import Idl.Proofs.StructInitializers

/-!
# Reports about the parts of an initializer

A part of an initializer has a type that is expected of it: an element that of the list, a key and a
value those of the map, and the value behind the first key that names a field that of the field.
Among the reports about an initializer, those that begin in such a part are the reports about the
part alone, whatever is wrong with the parts beside it.
-/
namespace Idl
open Node

/-- An expression that stands in a file. -/
structure Document.Writes (document : Document) (expr : Expr) : Prop where
  node : Contains document.toNode.inner expr.toNode
  names : expr.references ⊆ document.references

theorem Expr.references_subset_of_mem {elements : List Expr} {element : Expr}
    (h : element ∈ elements) : element.references ⊆ Expr.referencesAll elements := by
  induction elements with
  | nil => cases h
  | cons first elements ih =>
    rw [Expr.referencesAll]
    rcases List.mem_cons.1 h with rfl | h
    · exact List.subset_append_left _ _
    · exact List.subset_append_of_subset_right _ (ih h)

theorem Expr.references_subset_of_mem_entryParts {entries : List (Expr × Expr)} {part : Expr}
    (h : part ∈ Expr.entryParts entries) : part.references ⊆ Expr.referencesEntries entries := by
  induction entries with
  | nil => cases h
  | cons entry entries ih =>
    obtain ⟨key, value⟩ := entry
    rw [Expr.referencesEntries]
    rcases List.mem_cons.1 h with rfl | h
    · exact List.subset_append_of_subset_left _ (List.subset_append_left _ _)
    rcases List.mem_cons.1 h with rfl | h
    · exact List.subset_append_of_subset_left _ (List.subset_append_right _ _)
    · exact List.subset_append_of_subset_right _ (ih h)

theorem Expr.mem_entryParts {entries : List (Expr × Expr)} {entry : Expr × Expr}
    (h : entry ∈ entries) : entry.1 ∈ entryParts entries ∧ entry.2 ∈ entryParts entries :=
  ⟨List.mem_flatMap.2 ⟨entry, h, List.mem_cons_self⟩,
    List.mem_flatMap.2 ⟨entry, h, List.mem_cons_of_mem _ List.mem_cons_self⟩⟩

namespace Document.Writes

variable {document : Document}

theorem element {elements : List Expr} {span : Span} (h : document.Writes (.list elements span)) :
    ∀ element ∈ elements, document.Writes element :=
  fun element helement => ⟨Expr.contains_elements h.node element helement,
    List.Subset.trans (Expr.references_subset_of_mem helement) h.names⟩

theorem entryPart {entries : List (Expr × Expr)} {span : Span}
    (h : document.Writes (.map entries span)) :
    ∀ part ∈ Expr.entryParts entries, document.Writes part := by
  intro part hpart
  refine ⟨?_, List.Subset.trans (Expr.references_subset_of_mem_entryParts hpart) h.names⟩
  obtain ⟨entry, hentry, hpart⟩ := List.mem_flatMap.1 hpart
  obtain ⟨hkey, hvalue⟩ := Expr.contains_entries h.node entry hentry
  rcases List.mem_pair.1 hpart with rfl | rfl
  · exact hkey
  · exact hvalue

theorem mem_inner {expr : Expr} (h : document.Writes expr) :
    expr.toNode ∈ document.toNode.inner :=
  h.node.mem

end Document.Writes

namespace Coercion

variable {resolver : Resolver} {here : Nat}

/-- A part of an initializer with the type that is expected of it, down from the initializer and
its type: elements, keys and values of lists and maps, and the values behind keys of structs that
name a field for the first time. -/
inductive Expects (resolver : Resolver) : LocatedType → Expr → LocatedType → Expr → Prop
  | self {type expr} : Expects resolver type expr type expr
  | element {type tree elementType span elements exprSpan element partType part}
      (comes : Relation.ReflTransGen resolver.AliasStep type ⟨tree, .list elementType span⟩)
      (mem : element ∈ elements)
      (inner : Expects resolver ⟨tree, elementType⟩ element partType part) :
      Expects resolver type (.list elements exprSpan) partType part
  | key {type tree keyType valueType span entries exprSpan entry partType part}
      (comes : Relation.ReflTransGen resolver.AliasStep type ⟨tree, .map keyType valueType span⟩)
      (mem : entry ∈ entries) (inner : Expects resolver ⟨tree, keyType⟩ entry.1 partType part) :
      Expects resolver type (.map entries exprSpan) partType part
  | value {type tree keyType valueType span entries exprSpan entry partType part}
      (comes : Relation.ReflTransGen resolver.AliasStep type ⟨tree, .map keyType valueType span⟩)
      (mem : entry ∈ entries) (inner : Expects resolver ⟨tree, valueType⟩ entry.2 partType part) :
      Expects resolver type (.map entries exprSpan) partType part
  | field {type tree name ref decl before literal value after exprSpan field partType part}
      (comes : Relation.ReflTransGen resolver.AliasStep type ⟨tree, .name name⟩)
      (bound : resolver.binding? tree name = some ⟨ref, []⟩)
      (declared : resolver.struct? ref = some decl)
      (known : field ∈ decl.fields) (named : field.name.text = literal.text)
      (new : hasKey before literal.text = false)
      (inner : Expects resolver ⟨ref.tree, field.type⟩ value partType part) :
      Expects resolver type (.map (before ++ (.string literal, value) :: after) exprSpan)
        partType part

/-! ### What a type comes to -/

/-- Unwrapping finds the end of the chain of typedefs. -/
theorem unwrap_of_comes (hresolve : resolver.TypesResolve) (hend : resolver.TypedefsEnd)
    {type last : LocatedType} (hproper : resolver.IsProper type)
    (h : Relation.ReflTransGen resolver.AliasStep type last)
    (hlast : ∀ next, ¬ resolver.AliasStep last next) :
    ∃ unwrapped, resolver.unwrap type = .ok unwrapped ∧ unwrapped.type = last ∧
      resolver.IsUnwrapped unwrapped := by
  obtain ⟨unwrapped, hunwrap, hchain, hunwrapped⟩ := Resolver.unwrap_ok hresolve hend hproper
  have hno : ∀ next, ¬ resolver.AliasStep unwrapped.type next :=
    fun next ⟨typedef, halias⟩ => hunwrapped.noAlias typedef next halias
  exact ⟨unwrapped, hunwrap, Resolver.chain_end_unique hchain hno h hlast, hunwrapped⟩

theorem not_aliasStep_of_not_name {tree : Nat} {type : TypeRef} (h : ∀ name, type ≠ .name name)
    (next : LocatedType) : ¬ resolver.AliasStep ⟨tree, type⟩ next :=
  fun ⟨_, halias⟩ => Conforms.not_aliases_of_not_name h halias

variable (hresolve : resolver.TypesResolve) (hend : resolver.TypedefsEnd) {type : LocatedType}
  (hproper : resolver.IsProper type) {tree : Nat}

/-! ### Reports part by part -/

theorem reports_coerceElements (elementType : LocatedType) (elements : List Expr) :
    (coerceElements resolver here elementType elements).reports =
      (elements.map fun element =>
        (element.span, (coerce resolver here elementType element).reports)).flatMap Prod.snd := by
  induction elements with
  | nil =>
    rw [coerceElements]
    rfl
  | cons element elements ih =>
    rw [coerceElements, List.map_cons, List.flatMap_cons, ← ih]
    simp

theorem reports_coerceEntries (keyType valueType : LocatedType) (entries : List (Expr × Expr)) :
    (coerceEntries resolver here keyType valueType entries).reports =
      (entries.flatMap fun entry =>
        [(entry.1.span, (coerce resolver here keyType entry.1).reports),
          (entry.2.span, (coerce resolver here valueType entry.2).reports)]).flatMap Prod.snd := by
  induction entries with
  | nil =>
    rw [coerceEntries]
    rfl
  | cons entry entries ih =>
    obtain ⟨key, value⟩ := entry
    rw [coerceEntries, List.flatMap_cons, List.flatMap_append, ← ih]
    simp

section

include hresolve hend hproper

theorem coerce_list {elementType : TypeRef} {span : Span}
    (h : Relation.ReflTransGen resolver.AliasStep type ⟨tree, .list elementType span⟩)
    (elements : List Expr) (exprSpan : Span) :
    resolver.IsProper ⟨tree, elementType⟩ ∧
      (coerce resolver here type (.list elements exprSpan)).reports =
        (elements.map fun element =>
          (element.span, (coerce resolver here ⟨tree, elementType⟩ element).reports)).flatMap
            Prod.snd := by
  obtain ⟨⟨last, target, typedef⟩, hunwrap, rfl, hunwrapped⟩ :=
    unwrap_of_comes hresolve hend hproper h
      (not_aliasStep_of_not_name fun _ => TypeRef.noConfusion)
  refine ⟨hunwrapped.proper, ?_⟩
  rw [coerce, ← reports_coerceElements]
  simp only [hunwrap, Reporting.reports_bind, Reporting.reports_pure, List.append_nil]

theorem coerce_map {keyType valueType : TypeRef} {span : Span}
    (h : Relation.ReflTransGen resolver.AliasStep type ⟨tree, .map keyType valueType span⟩)
    (entries : List (Expr × Expr)) (exprSpan : Span) :
    resolver.IsProper ⟨tree, keyType⟩ ∧ resolver.IsProper ⟨tree, valueType⟩ ∧
      (coerce resolver here type (.map entries exprSpan)).reports =
        (entries.flatMap fun entry =>
          [(entry.1.span, (coerce resolver here ⟨tree, keyType⟩ entry.1).reports),
            (entry.2.span, (coerce resolver here ⟨tree, valueType⟩ entry.2).reports)]).flatMap
              Prod.snd := by
  obtain ⟨⟨last, target, typedef⟩, hunwrap, rfl, hunwrapped⟩ :=
    unwrap_of_comes hresolve hend hproper h
      (not_aliasStep_of_not_name fun _ => TypeRef.noConfusion)
  refine ⟨fun name hname => hunwrapped.proper name (List.mem_append_left _ hname),
    fun name hname => hunwrapped.proper name (List.mem_append_right _ hname), ?_⟩
  rw [coerce, ← reports_coerceEntries]
  simp only [hunwrap, Reporting.reports_bind, Reporting.reports_pure, List.append_nil]

/-- What is reported about the keys and the values of a struct initializer, in turns. -/
def fieldThings (resolver : Resolver) (here : Nat) (ref : DeclRef) (decl : StructDecl)
    (entries : List (Expr × Expr)) : List (Span × List Report) :=
  entries.zipIdx.flatMap fun (entry, place) =>
    [(entry.1.span, (decl.keyReport? (entries.take place) entry.1).toList),
      (entry.2.span, decl.valueReports
        (fun field value => (coerce resolver here ⟨ref.tree, field.type⟩ value).reports)
        (entries.take place) entry)]

theorem coerce_struct (hclean : resolver.IsClean) {name : Name} {ref : DeclRef} {decl : StructDecl}
    (h : Relation.ReflTransGen resolver.AliasStep type ⟨tree, .name name⟩)
    (hbinding : resolver.binding? tree name = some ⟨ref, []⟩)
    (hdecl : resolver.struct? ref = some decl) (entries : List (Expr × Expr)) (exprSpan : Span) :
    (coerce resolver here type (.map entries exprSpan)).reports =
      (fieldThings resolver here ref decl entries).flatMap Prod.snd ++
        decl.missingReports exprSpan entries := by
  have hno : ∀ next, ¬ resolver.AliasStep ⟨tree, .name name⟩ next := fun next ⟨_, halias⟩ =>
    Conforms.not_aliases_of_typedef? hbinding (Conforms.typedef?_of_struct? hdecl) halias
  obtain ⟨⟨last, target, typedef⟩, hunwrap, rfl, hunwrapped⟩ :=
    unwrap_of_comes hresolve hend hproper h hno
  obtain ⟨other, hother, rfl⟩ := hunwrapped.target name rfl
  obtain rfl := (Binding.mk.inj (Option.some.inj (hbinding.symm.trans hother))).1
  obtain ⟨fields, hmembers, hlookup⟩ := Resolver.structMembers?_lookup hclean hdecl
  rw [reports_coerce_of_unwrap hdecl hmembers hlookup (Resolver.nodup_fields hclean hdecl) hunwrap,
    fieldThings, List.flatMap_assoc]
  congr 2
  funext item
  simp [StructDecl.entryReports]

end

/-! ### Where the reports lie -/

/-- Among the reports about an expression, those that begin in a part of it are the reports about
the part alone. -/
structure KeepsReports (resolver : Resolver) (here : Nat) (document : Document)
    (type : LocatedType) (expr : Expr) (partType : LocatedType) (part : Expr) : Prop where
  proper : resolver.IsProper partType
  writes : document.Writes part
  within : part.span.Within expr.span
  reports : reportsIn part.span (coerce resolver here type expr).reports =
    (coerce resolver here partType part).reports

/-- From the reports about a child of an expression to those about the expression. -/
theorem KeepsReports.outward {document : Document} {type childType partType : LocatedType}
    {expr child part : Expr} (h : KeepsReports resolver here document childType child partType part)
    (hchild : child.span.Within expr.span)
    (hreports : part.span.Within child.span →
      reportsIn part.span (coerce resolver here type expr).reports =
        reportsIn part.span (coerce resolver here childType child).reports) :
    KeepsReports resolver here document type expr partType part where
  proper := h.proper
  writes := h.writes
  within := h.within.trans hchild
  reports := (hreports h.within).trans h.reports

section

variable {file : SourceTree} (hclean : resolver.IsClean) (hread : resolver.program.IsRead)
  (hfile : resolver.program.trees[here]? = some file)

include hclean hread hfile

/-- The components that bindings leave over are spelled where the names are. -/
theorem tailsMarkOf {names : List Name} (hnames : names ⊆ file.document.references)
    {whole : List Node} (hwhole : ∀ name ∈ names, Contains whole name.toNode) :
    TailsMarkOf resolver here names whole := by
  intro name hname binding hbinding member hmember
  rw [Resolver.binding?_eq hclean hread hfile (hnames hname)] at hbinding
  exact Identifier.marks ((hwhole name hname).trans
    (Name.contains_identifier (tail_subset_of_resolveName hbinding hmember)))

/-- What is reported about an expression lies inside it. -/
theorem inside_coerce (type : LocatedType) {expr : Expr} (h : file.document.Writes expr) :
    ∀ report ∈ (coerce resolver here type expr).reports,
      report.span.Within expr.span ∧ report.span.StartsIn expr.span := by
  obtain ⟨nodes, hparsed⟩ := hread.parsed file (List.mem_of_getElem? hfile)
  have htails := tailsMarkOf hclean hread hfile h.names fun _ =>
    contains_of_names expr.names_toNode
  have hinside := Reporting.Within.inside hparsed h.mem_inner
    (within_coerce expr type htails (List.Subset.refl _))
  rwa [Expr.span_toNode] at hinside

omit hclean in
theorem within_of_writes {expr child : Expr} (h : file.document.Writes expr)
    (hchild : Contains expr.toNode.nodes child.toNode) : child.span.Within expr.span := by
  obtain ⟨nodes, hparsed⟩ := hread.parsed file (List.mem_of_getElem? hfile)
  have hwithin := (Source.within_of_mem_nodes hparsed h.mem_inner hchild.mem).1
  rwa [Expr.span_toNode, Expr.span_toNode] at hwithin

/-- Among the reports about a list, those in a part of an element are about this element. -/
theorem reportsIn_elements (elementType : LocatedType) {elements : List Expr} {exprSpan : Span}
    (h : file.document.Writes (.list elements exprSpan)) {element : Expr}
    (helement : element ∈ elements) {part : Span} (hpart : part.Within element.span) :
    reportsIn part ((elements.map fun element =>
        (element.span, (coerce resolver here elementType element).reports)).flatMap Prod.snd) =
      reportsIn part (coerce resolver here elementType element).reports := by
  obtain ⟨nodes, hparsed⟩ := hread.parsed file (List.mem_of_getElem? hfile)
  refine reportsIn_flatMap ?_ (fun thing hthing report hreport => ?_)
    (List.mem_map_of_mem helement) hpart
  · rw [List.map_map]
    exact Expr.pairwise_of_children hparsed h.mem_inner (Expr.children_list elements exprSpan)
  · obtain ⟨other, hother, rfl⟩ := List.mem_map.1 hthing
    exact (inside_coerce hclean hread hfile elementType (h.element other hother) report hreport).2

/-- Among the reports about a map, those in a part of a key or a value are about this key or
value. -/
theorem reportsIn_entries (keyType valueType : LocatedType) {entries : List (Expr × Expr)}
    {exprSpan : Span} (h : file.document.Writes (.map entries exprSpan)) {entry : Expr × Expr}
    (hentry : entry ∈ entries) {part : Span} {expr : Expr} {type : LocatedType}
    (hpart : part.Within expr.span)
    (hexpr : expr = entry.1 ∧ type = keyType ∨ expr = entry.2 ∧ type = valueType) :
    reportsIn part ((entries.flatMap fun entry =>
        [(entry.1.span, (coerce resolver here keyType entry.1).reports),
          (entry.2.span, (coerce resolver here valueType entry.2).reports)]).flatMap Prod.snd) =
      reportsIn part (coerce resolver here type expr).reports := by
  obtain ⟨nodes, hparsed⟩ := hread.parsed file (List.mem_of_getElem? hfile)
  refine @reportsIn_flatMap part _ ?_ (fun thing hthing report hreport => ?_)
    (expr.span, (coerce resolver here type expr).reports) (List.mem_flatMap.2 ⟨entry, hentry, ?_⟩)
    hpart
  · have hbehind :=
      Expr.pairwise_of_children hparsed h.mem_inner (Expr.children_map entries exprSpan)
    rw [Expr.entryParts, List.map_flatMap] at hbehind
    rw [List.map_flatMap]
    exact hbehind
  · obtain ⟨other, hother, hthing⟩ := List.mem_flatMap.1 hthing
    obtain ⟨hkey, hvalue⟩ := Expr.mem_entryParts hother
    rcases List.mem_pair.1 hthing with rfl | rfl
    · exact (inside_coerce hclean hread hfile keyType (h.entryPart _ hkey) report hreport).2
    · exact (inside_coerce hclean hread hfile valueType (h.entryPart _ hvalue) report hreport).2
  · rcases hexpr with ⟨rfl, rfl⟩ | ⟨rfl, rfl⟩
    · exact List.mem_cons_self
    · exact List.mem_cons_of_mem _ List.mem_cons_self

/-- The keys and values of a struct initializer lie one behind the other, and each report about one
of them begins in it. -/
theorem startsIn_fieldThings (ref : DeclRef) (decl : StructDecl) {entries : List (Expr × Expr)}
    {exprSpan : Span} (h : file.document.Writes (.map entries exprSpan)) :
    ((fieldThings resolver here ref decl entries).map Prod.fst).Pairwise Span.Before ∧
      ∀ thing ∈ fieldThings resolver here ref decl entries, ∀ report ∈ thing.2,
        report.span.StartsIn thing.1 := by
  obtain ⟨nodes, hparsed⟩ := hread.parsed file (List.mem_of_getElem? hfile)
  refine ⟨?_, fun thing hthing report hreport => ?_⟩
  · have hspans : (fieldThings resolver here ref decl entries).map Prod.fst =
        (Expr.entryParts entries).map Expr.span := by
      rw [fieldThings, Expr.entryParts, List.map_flatMap, List.map_flatMap]
      exact Reporting.flatMap_fst_zipIdx (fun entry => [entry.1.span, entry.2.span]) entries
    rw [hspans]
    exact Expr.pairwise_of_children hparsed h.mem_inner (Expr.children_map entries exprSpan)
  · obtain ⟨⟨entry, place⟩, hentry, hthing⟩ := List.mem_flatMap.1 hthing
    obtain ⟨hkey, hvalue⟩ := Expr.mem_entryParts (List.fst_mem_of_mem_zipIdx hentry)
    rcases List.mem_pair.1 hthing with rfl | rfl
    · have hnonempty := ((Source.spansExactly_of_parse hparsed).1 _
        (h.entryPart _ hkey).mem_inner).nonempty
      rw [Expr.span_toNode] at hnonempty
      rw [span_of_keyReport? (Option.mem_toList.1 hreport)]
      exact (Span.Within.refl _).startsIn hnonempty
    · simp only [StructDecl.valueReports] at hreport
      split at hreport
      · cases hreport
      · obtain ⟨field, -, hreport⟩ := List.mem_flatMap.1 hreport
        exact (inside_coerce hclean hread hfile _ (h.entryPart _ hvalue) report hreport).2

/-- Among the reports about a struct initializer, those in a part of a value behind a key that names
a field for the first time are about this value. -/
theorem reportsIn_fields {ref : DeclRef} {decl : StructDecl}
    (hdecl : resolver.struct? ref = some decl) {before after : List (Expr × Expr)}
    {literal : StringLiteral} {value : Expr} {exprSpan : Span}
    (h : file.document.Writes (.map (before ++ (.string literal, value) :: after) exprSpan))
    {field : Field} (hknown : field ∈ decl.fields) (hnamed : field.name.text = literal.text)
    (hnew : hasKey before literal.text = false) {part : Span} (hpart : part.Within value.span) :
    reportsIn part
        ((fieldThings resolver here ref decl (before ++ (.string literal, value) :: after)).flatMap
            Prod.snd ++
          decl.missingReports exprSpan (before ++ (.string literal, value) :: after)) =
      reportsIn part (coerce resolver here ⟨ref.tree, field.type⟩ value).reports := by
  obtain ⟨nodes, hparsed⟩ := hread.parsed file (List.mem_of_getElem? hfile)
  obtain ⟨hfield, hkey⟩ :=
    keyReport?_eq_none (Resolver.nodup_fields hclean hdecl) hknown hnamed hnew
  have hthing : (value.span, (coerce resolver here ⟨ref.tree, field.type⟩ value).reports) ∈
      fieldThings resolver here ref decl (before ++ (.string literal, value) :: after) := by
    refine List.mem_flatMap.2 ⟨((.string literal, value), before.length), ?_, ?_⟩
    · exact List.mem_zipIdx_iff_getElem?.2 (by simp)
    · simp [StructDecl.valueReports, hfield, hkey]
  obtain ⟨hbehind, hstarts⟩ := startsIn_fieldThings hclean hread hfile ref decl h
  have hmissing : reportsIn part
      (decl.missingReports exprSpan (before ++ (.string literal, value) :: after)) = [] := by
    refine reportsIn_eq_nil fun report hreport hin => ?_
    have hlt := Expr.start_lt_of_mem_entryParts hparsed h.mem_inner value
      (Expr.mem_entryParts (List.mem_append_right _ List.mem_cons_self)).2
    have hle := (hin.mono hpart).1
    rw [span_of_mem_missingReports hreport] at hle
    omega
  rw [reportsIn_append, hmissing, List.append_nil, reportsIn_flatMap hbehind hstarts hthing hpart]

/-- An initializer keeps the reports about every part that has an expected type. -/
theorem keepsReports_of_expects (hresolve : resolver.TypesResolve) (hend : resolver.TypedefsEnd)
    {type partType : LocatedType} {expr part : Expr} (h : Expects resolver type expr partType part)
    (hproper : resolver.IsProper type) (hwrites : file.document.Writes expr) :
    KeepsReports resolver here file.document type expr partType part := by
  induction h with
  | @self type expr =>
    exact ⟨hproper, hwrites, .refl _, reportsIn_eq_self fun report hreport =>
      (inside_coerce hclean hread hfile type hwrites report hreport).2⟩
  | @element type tree elementType span elements exprSpan element partType part comes mem inner
      ih =>
    obtain ⟨hproper, hreports⟩ := @coerce_list resolver here hresolve hend type hproper tree
      elementType span comes elements exprSpan
    have helement := within_of_writes hread hfile hwrites
      (Expr.contains_elements (List.Subset.refl _) element mem)
    refine (ih hproper (hwrites.element element mem)).outward helement fun hwithin => ?_
    rw [hreports, reportsIn_elements hclean hread hfile _ hwrites mem hwithin]
  | @key type tree keyType valueType span entries exprSpan entry partType part comes mem inner ih =>
    obtain ⟨hproper, -, hreports⟩ := @coerce_map resolver here hresolve hend type hproper tree
      keyType valueType span comes entries exprSpan
    have hkey := within_of_writes hread hfile hwrites
      (Expr.contains_entries (List.Subset.refl _) entry mem).1
    refine (ih hproper (hwrites.entryPart _ (Expr.mem_entryParts mem).1)).outward hkey
      fun hwithin => ?_
    rw [hreports, reportsIn_entries hclean hread hfile _ _ hwrites mem hwithin (.inl ⟨rfl, rfl⟩)]
  | @value type tree keyType valueType span entries exprSpan entry partType part comes mem inner
      ih =>
    obtain ⟨-, hproper, hreports⟩ := @coerce_map resolver here hresolve hend type hproper tree
      keyType valueType span comes entries exprSpan
    have hvalue := within_of_writes hread hfile hwrites
      (Expr.contains_entries (List.Subset.refl _) entry mem).2
    refine (ih hproper (hwrites.entryPart _ (Expr.mem_entryParts mem).2)).outward hvalue
      fun hwithin => ?_
    rw [hreports, reportsIn_entries hclean hread hfile _ _ hwrites mem hwithin (.inr ⟨rfl, rfl⟩)]
  | @field type tree name ref decl before literal value after exprSpan field partType part comes
      bound declared known named new inner ih =>
    have hreports := @coerce_struct resolver here hresolve hend type hproper tree hclean name ref
      decl comes bound declared (before ++ (.string literal, value) :: after) exprSpan
    have hmem : (Expr.string literal, value) ∈ before ++ (.string literal, value) :: after :=
      List.mem_append_right _ List.mem_cons_self
    have hfield : resolver.IsProper ⟨ref.tree, field.type⟩ :=
      Resolver.isProper_of_declaration? hresolve
        ((Resolver.struct?_eq_some_iff ref decl).1 declared) (List.mem_map.2 ⟨field, known, rfl⟩)
    have hvalue := within_of_writes hread hfile hwrites
      (Expr.contains_entries (List.Subset.refl _) _ hmem).2
    refine (ih hfield (hwrites.entryPart _ (Expr.mem_entryParts hmem).2)).outward hvalue
      fun hwithin => ?_
    rw [hreports, reportsIn_fields hclean hread hfile declared hwrites known named new hwithin]

/-- An expected part of an initializer conforms to its type exactly if no report about the
initializer begins in the part. -/
theorem conforms_iff_reportsIn_eq_nil (hresolve : resolver.TypesResolve)
    (hend : resolver.TypedefsEnd) {type partType : LocatedType} {expr part : Expr}
    (h : Expects resolver type expr partType part) (hproper : resolver.IsProper type)
    (hwrites : file.document.Writes expr) :
    (∃ value, Conforms resolver here partType part value) ↔
      reportsIn part.span (coerce resolver here type expr).reports = [] := by
  obtain ⟨hproper, hwrites, -, hreports⟩ :=
    keepsReports_of_expects hclean hread hfile hresolve hend h hproper hwrites
  have hdecided := decides_coerce hclean hresolve hend part partType hproper fun name hname =>
    Resolver.isSome_binding? hclean hfile (hwrites.names hname)
  rw [hreports, ← Reporting.Silent, hdecided.silent_iff, Option.isSome_iff_exists]
  exact exists_congr fun value => (hdecided.value_iff value).symm

end

end Coercion
end Idl
