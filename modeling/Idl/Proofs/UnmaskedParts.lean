import Idl.Proofs.AgreeingChecks
import Idl.Proofs.EmbeddedPrograms
import Idl.Proofs.InitializerParts

/-!
# No part of an initializer masks another

Whatever else is wrong in an initializer, in its declaration or in its file: an analysis finds
something inside a part with an expected type if the part does not conform to the type, and it finds
nothing there if the part conforms.
-/
namespace Idl
open Node

/-- The initializers of a declaration with the types that they are declared with. -/
def Declaration.typedInitializers : Declaration → List (TypeRef × Expr)
  | constant d => [(d.type, d.value)]
  | typedef _ => []
  | enum _ => []
  | struct d => d.fields.filterMap fun field => field.default.map (field.type, ·)
  | service _ => []

def Document.typedInitializers (document : Document) : List (TypeRef × Expr) :=
  document.declarations.flatMap Declaration.typedInitializers

theorem StructDecl.exists_field_of_mem_typedInitializers {decl : StructDecl} {type : TypeRef}
    {expr : Expr} (h : (type, expr) ∈ (Declaration.struct decl).typedInitializers) :
    ∃ field ∈ decl.fields, field.type = type ∧ field.default = some expr := by
  obtain ⟨field, hfield, hpair⟩ := List.mem_filterMap.1 h
  obtain ⟨default, hdefault, hpair⟩ := Option.map_eq_some_iff.1 hpair
  obtain ⟨rfl, rfl⟩ := Prod.mk.inj hpair
  exact ⟨field, hfield, rfl, hdefault⟩

/-- An initializer and its type are written in the declaration. -/
theorem Declaration.mem_typedInitializers {declaration : Declaration} {type : TypeRef} {expr : Expr}
    (h : (type, expr) ∈ declaration.typedInitializers) :
    type ∈ declaration.types ∧ expr ∈ declaration.initializers ∧
      Contains declaration.toNode.nodes expr.toNode := by
  cases declaration with
  | constant d =>
    obtain ⟨rfl, rfl⟩ := Prod.mk.inj (List.mem_singleton.1 h)
    exact ⟨List.mem_singleton.2 rfl, List.mem_singleton.2 rfl, d.contains_value⟩
  | struct d =>
    obtain ⟨field, hfield, rfl, hdefault⟩ := StructDecl.exists_field_of_mem_typedInitializers h
    exact ⟨List.mem_map_of_mem hfield, List.mem_filterMap.2 ⟨field, hfield, hdefault⟩,
      (StructDecl.contains_field hfield).trans (Field.contains_default hdefault)⟩
  | typedef d => cases h
  | enum d => cases h
  | service d => cases h

theorem Document.writes_of_mem_typedInitializers {document : Document} {type : TypeRef}
    {expr : Expr} (h : (type, expr) ∈ document.typedInitializers) :
    type ∈ document.types ∧ document.Writes expr := by
  obtain ⟨declaration, hdeclaration, h⟩ := List.mem_flatMap.1 h
  obtain ⟨htype, hexpr, hnode⟩ := declaration.mem_typedInitializers h
  exact ⟨List.mem_flatMap.2 ⟨declaration, hdeclaration, htype⟩,
    (Document.contains_declaration hdeclaration).trans hnode,
    document.references_subset_of_mem_initializers
      (List.mem_flatMap.2 ⟨declaration, hdeclaration, hexpr⟩)⟩

namespace Resolver

open Coercion Reporting

variable {resolver : Resolver} {here : Nat} {file : SourceTree} (hclean : resolver.IsClean)
  (hread : resolver.program.IsRead) (hfile : resolver.program.trees[here]? = some file)
  {part : Span}

theorem reports_checkStruct (decl : StructDecl) :
    (resolver.checkStruct here decl).reports =
      (checkOrdering .field (decl.fields.map Field.ordered)).reports ++
        (decl.fields.map fun field =>
          (field.span, (resolver.checkField here field).reports)).flatMap Prod.snd := by
  rw [checkStruct, reports_bind, List.flatMap_map]
  congr 1
  rw [reports_foldlM fun defaults item => by
    simp only [reports_bind, reports_pure, List.append_nil]
    rfl]
  exact flatMap_fst_zipIdx (fun field => (resolver.checkField here field).reports) decl.fields

/-! ### One initializer -/

section

include hread hfile

/-- Where a check reports at nodes in a node, the reports begin in this node. -/
theorem startsIn_of_within {α : Type} {x : Reporting α} {node : Node}
    (hnode : Node.Contains file.document.toNode.inner node) (h : x.Within (Marks node.nodes)) :
    ∀ report ∈ x.reports, report.span.StartsIn node.span := by
  obtain ⟨nodes, hparsed⟩ := hread.parsed file (List.mem_of_getElem? hfile)
  exact fun report hreport => (h.inside hparsed hnode.mem report hreport).2

/-- An initializer is coerced if the names in its type stand for types, and what is reported about
the type begins outside. -/
theorem reportsIn_initializer {type : TypeRef} (hproper : resolver.IsProper ⟨here, type⟩)
    (htype : Node.Contains file.document.toNode.inner type.toNode) {expr : Expr}
    (hapart : type.span.Apart expr.span) (hpart : part.Within expr.span) :
    reportsIn part (do
        if ← resolver.checkValueType here type then
          resolver.coerceHere here type expr
        else return none).reports =
      reportsIn part (coerce resolver here ⟨here, type⟩ expr).reports := by
  have hvalue : (resolver.checkValueType here type).value = true := by
    rw [value_checkValueType]
    exact (affirmType_of_isProper hproper).2
  have hstarts := startsIn_of_within hread hfile htype
    (resolver.within_checkValueType here (List.Subset.refl _))
  rw [type.span_toNode] at hstarts
  rw [reports_bind, hvalue, if_pos rfl, reportsIn_append,
    reportsIn_eq_nil fun report hreport => hapart.not_startsIn (hstarts report hreport) hpart]
  rfl

theorem reportsIn_checkConstant {decl : ConstantDecl}
    (hdecl : .constant decl ∈ file.document.declarations)
    (hproper : resolver.IsProper ⟨here, decl.type⟩) (hpart : part.Within decl.value.span) :
    reportsIn part (resolver.checkConstant here decl).reports =
      reportsIn part (coerce resolver here ⟨here, decl.type⟩ decl.value).reports := by
  obtain ⟨nodes, hparsed⟩ := hread.parsed file (List.mem_of_getElem? hfile)
  have hnode := Document.contains_declaration hdecl
  have hbehind := ((Source.spansExactly_of_parse hparsed).1 _ hnode.mem).behind
  have hpair : [decl.type.toNode, decl.value.toNode].Sublist
      (Declaration.constant decl).toNode.children := by
    simp [Declaration.toNode, Node.children]
  have hapart : decl.type.span.Apart decl.value.span := by
    have hbefore := (List.pairwise_cons.1 (hbehind.sublist hpair)).1 _ List.mem_cons_self
    rw [TypeRef.span_toNode, Expr.span_toNode] at hbefore
    exact .inl hbefore
  exact reportsIn_initializer hread hfile hproper (hnode.trans decl.contains_type) hapart hpart

/-- The default of a field, and what lies beside it in the field. -/
theorem apart_default {decl : StructDecl} (hdecl : .struct decl ∈ file.document.declarations)
    {field : Field} (hfield : field ∈ decl.fields) {default : Expr}
    (hdefault : field.default = some default) :
    field.type.span.Apart default.span ∧ field.name.span.Apart default.span ∧
      ∀ literal, field.order = some literal → literal.span.Apart default.span := by
  obtain ⟨nodes, hparsed⟩ := hread.parsed file (List.mem_of_getElem? hfile)
  have hnode := (Document.contains_declaration hdecl).trans (StructDecl.contains_field hfield)
  have hbehind := ((Source.spansExactly_of_parse hparsed).1 _ hnode.mem).behind
  have hchildren : field.toNode.children = (field.order.map IntegerLiteral.toNode).toList ++
      [field.type.toNode, field.name.toNode, default.toNode] := by
    simp [Field.toNode, Node.children, hdefault]
  rw [hchildren, List.pairwise_append] at hbehind
  obtain ⟨-, hrest, horder⟩ := hbehind
  simp only [List.pairwise_cons, List.mem_cons, List.not_mem_nil, or_false, forall_eq_or_imp,
    forall_eq, Expr.span_toNode, TypeRef.span_toNode] at hrest horder
  refine ⟨.inl hrest.1.2, .inl hrest.2.1, fun literal hliteral => .inl ?_⟩
  exact (horder literal.toNode (by simp [hliteral])).2.2

theorem reportsIn_checkField {decl : StructDecl} (hdecl : .struct decl ∈ file.document.declarations)
    {field : Field} (hfield : field ∈ decl.fields) {default : Expr}
    (hdefault : field.default = some default) (hproper : resolver.IsProper ⟨here, field.type⟩)
    (hpart : part.Within default.span) :
    reportsIn part (resolver.checkField here field).reports =
      reportsIn part (coerce resolver here ⟨here, field.type⟩ default).reports := by
  have hnode := (Document.contains_declaration hdecl).trans (StructDecl.contains_field hfield)
  have hreports := reportsIn_initializer hread hfile hproper (hnode.trans field.contains_type)
    (apart_default hread hfile hdecl hfield hdefault).1 hpart
  rw [checkField, hdefault]
  exact hreports

/-! ### One struct -/

theorem inside_of_contains {outer node : Node}
    (houter : Node.Contains file.document.toNode.inner outer) (h : Node.Contains outer.nodes node) :
    node.span.Within outer.span ∧ node.span.StartsIn outer.span := by
  obtain ⟨nodes, hparsed⟩ := hread.parsed file (List.mem_of_getElem? hfile)
  obtain ⟨hwithin, hnonempty⟩ := Source.within_of_mem_nodes hparsed houter.mem h.mem
  exact ⟨hwithin, hwithin.startsIn hnonempty⟩

theorem pairwise_fields {decl : StructDecl} (hdecl : .struct decl ∈ file.document.declarations) :
    (decl.fields.map Field.span).Pairwise Span.Before := by
  obtain ⟨nodes, hparsed⟩ := hread.parsed file (List.mem_of_getElem? hfile)
  have hbehind := ((Source.spansExactly_of_parse hparsed).1 _
    (Document.contains_declaration hdecl).mem).behind
  have hfields : (decl.fields.map Field.toNode).Sublist
      (Declaration.struct decl).toNode.children := by
    simp [Declaration.toNode, Node.children]
  have hspans := hbehind.sublist hfields
  rw [List.pairwise_map] at hspans ⊢
  exact hspans

/-- Nothing that is said about the names and orders of fields lies in the default of a field. -/
theorem outside_default {decl : StructDecl} (hdecl : .struct decl ∈ file.document.declarations)
    {field : Field} (hfield : field ∈ decl.fields) {default : Expr}
    (hdefault : field.default = some default) (hpart : part.Within default.span) {other : Field}
    (hother : other ∈ decl.fields) :
    ¬ other.name.span.StartsIn part ∧
      ∀ literal, other.order = some literal → ¬ literal.span.StartsIn part := by
  have hnode := (Document.contains_declaration hdecl).trans (StructDecl.contains_field hother)
  have hself : ∀ node : Node, Node.Contains other.toNode.nodes node →
      node.span.StartsIn other.span ∧ node.span.StartsIn node.span := fun node hcontains =>
    ⟨(inside_of_contains hread hfile hnode hcontains).2,
      (inside_of_contains hread hfile (hnode.trans hcontains) (List.Subset.refl _)).2⟩
  rcases Span.eq_or_apart (pairwise_fields hread hfile hdecl) hother hfield with rfl | hapart
  · obtain ⟨-, hname, horder⟩ := apart_default hread hfile hdecl hfield hdefault
    exact ⟨hname.not_startsIn (hself _ other.contains_name).2 hpart, fun literal hliteral =>
      (horder literal hliteral).not_startsIn (hself _ (Field.contains_order hliteral)).2 hpart⟩
  · have hfieldNode := (Document.contains_declaration hdecl).trans
      (StructDecl.contains_field hfield)
    have hwithin := (inside_of_contains hread hfile hfieldNode (Field.contains_default hdefault)).1
    rw [Expr.span_toNode] at hwithin
    have hpartField : part.Within field.span := hpart.trans hwithin
    exact ⟨hapart.not_startsIn (hself _ other.contains_name).1 hpartField, fun literal hliteral =>
      hapart.not_startsIn (hself _ (Field.contains_order hliteral)).1 hpartField⟩

/-! ### One file -/

theorem pairwise_declarations :
    (file.document.declarations.map fun declaration => declaration.toNode.span).Pairwise
      Span.Before := by
  obtain ⟨nodes, hparsed⟩ := hread.parsed file (List.mem_of_getElem? hfile)
  have hsequence := (Source.spansExactly_of_parse hparsed).2.2.2.1
  have hspans := hsequence.sublist (List.sublist_append_right _ _)
  rw [List.pairwise_map] at hspans ⊢
  exact hspans

theorem within_declaration {declaration : Declaration}
    (hdeclaration : declaration ∈ file.document.declarations) {type : TypeRef} {expr : Expr}
    (h : (type, expr) ∈ declaration.typedInitializers) :
    expr.span.Within declaration.toNode.span := by
  have hwithin := (inside_of_contains hread hfile (Document.contains_declaration hdeclaration)
    (declaration.mem_typedInitializers h).2.2).1
  rwa [Expr.span_toNode] at hwithin

section

variable {type : TypeRef} {expr : Expr} (h : (type, expr) ∈ file.document.typedInitializers)
  (hpart : part.Within expr.span)

include h hpart

/-- Nothing that lies in another declaration lies in an initializer. -/
theorem outside_of_declaration {declaration : Declaration}
    (hdeclaration : declaration ∈ file.document.declarations)
    (hother : (type, expr) ∉ declaration.typedInitializers) {node : Node}
    (hnode : Node.Contains declaration.toNode.nodes node) : ¬ node.span.StartsIn part := by
  obtain ⟨holder, hholder, h⟩ := List.mem_flatMap.1 h
  have hstarts := (inside_of_contains hread hfile (Document.contains_declaration hdeclaration)
    hnode).2
  rcases Span.eq_or_apart (pairwise_declarations hread hfile) hdeclaration hholder with rfl | hapart
  · exact absurd h hother
  · exact hapart.not_startsIn hstarts (hpart.trans (within_declaration hread hfile hholder h))

/-- No cycle is reported in an initializer. -/
theorem outside_checkCycles :
    (resolver.checkCycles here file.document).Within fun span => ¬ span.StartsIn part := by
  refine resolver.within_checkCycles_of here (fun decl hdecl field hfield => ?_)
    fun decl hdecl parent hparent => ?_
  · by_cases hown : (type, expr) ∈ (Declaration.struct decl).typedInitializers
    · obtain ⟨holder, hholder, -, hdefault⟩ :=
        StructDecl.exists_field_of_mem_typedInitializers hown
      exact (outside_default hread hfile hdecl hholder hdefault hpart hfield).1
    · exact outside_of_declaration hread hfile h hpart hdecl hown
        ((StructDecl.contains_field hfield).trans field.contains_name)
  · exact outside_of_declaration hread hfile h hpart hdecl List.not_mem_nil
      (ServiceDecl.contains_parent hparent)

/-- No unused include is reported in an initializer. -/
theorem outside_checkUnused (hdirectives : ∀ edge ∈ file.includes,
    edge.directive ∈ file.document.includes) (bindings : Bindings) :
    (checkUnused file bindings).Within fun span => ¬ span.StartsIn part := by
  obtain ⟨nodes, hparsed⟩ := hread.parsed file (List.mem_of_getElem? hfile)
  obtain ⟨holder, hholder, h⟩ := List.mem_flatMap.1 h
  have hpartHolder := hpart.trans (within_declaration hread hfile hholder h)
  refine within_forM fun edge hedge => (within_pure _).ite (within_error ?_ _)
  have hdirective := hdirectives edge hedge
  have hheader : Header.inclusion edge.directive ∈ file.document.headers :=
    (List.merge_perm_append _).mem_iff.2
      (List.mem_append_right _ (List.mem_map_of_mem hdirective))
  have hbefore := (List.pairwise_append.1 (Source.spansExactly_of_parse hparsed).2.2.2.1).2.2
    _ (List.mem_map_of_mem hheader) _ (List.mem_map_of_mem hholder)
  have hapart : edge.directive.toNode.span.Apart holder.toNode.span := .inl hbefore
  have hpath : Node.Contains edge.directive.toNode.nodes edge.directive.path.toNode :=
    contains_one "path" (by simp)
  have hstarts := (inside_of_contains hread hfile (Document.contains_include hdirective) hpath).2
  exact hapart.not_startsIn hstarts hpartHolder

end

/-! ### The type check -/

include hclean

theorem reportsIn_checkStruct {decl : StructDecl}
    (hdecl : .struct decl ∈ file.document.declarations) {field : Field}
    (hfield : field ∈ decl.fields) {default : Expr} (hdefault : field.default = some default)
    (hproper : resolver.IsProper ⟨here, field.type⟩) (hpart : part.Within default.span) :
    reportsIn part (resolver.checkStruct here decl).reports =
      reportsIn part (coerce resolver here ⟨here, field.type⟩ default).reports := by
  have hdeclNode := Document.contains_declaration hdecl
  have hfieldNode : ∀ other ∈ decl.fields,
      Node.Contains file.document.toNode.inner other.toNode := fun other hother =>
    hdeclNode.trans (StructDecl.contains_field hother)
  have hordering : (checkOrdering .field (decl.fields.map Field.ordered)).Within
      fun span => ¬ span.StartsIn part := by
    refine within_checkOrdering _ (fun entry hentry => ?_) (fun entry hentry => ?_)
    · obtain ⟨other, hother, rfl⟩ := List.mem_map.1 hentry
      exact (outside_default hread hfile hdecl hfield hdefault hpart hother).1
    · obtain ⟨other, hother, rfl⟩ := List.mem_map.1 hentry
      exact (outside_default hread hfile hdecl hfield hdefault hpart hother).2
  have hdefaultWithin :=
    (inside_of_contains hread hfile (hfieldNode field hfield) (Field.contains_default hdefault)).1
  rw [Expr.span_toNode] at hdefaultWithin
  have hfields := @reportsIn_flatMap part
    (decl.fields.map fun field => (field.span, (resolver.checkField here field).reports))
    (by rw [List.map_map]; exact pairwise_fields hread hfile hdecl)
    (fun thing hthing => by
      obtain ⟨other, hother, rfl⟩ := List.mem_map.1 hthing
      have htails := tailsMarkOf hclean hread hfile
        (fun name hname => List.mem_flatMap.2
          ⟨_, hdecl, List.mem_flatMap.2 ⟨other, hother, hname⟩⟩)
        fun _ => contains_of_names other.names_toNode
      exact startsIn_of_within hread hfile (hfieldNode other hother)
        (within_checkField htails (List.Subset.refl _)))
    _ (List.mem_map_of_mem hfield) (hpart.trans hdefaultWithin)
  rw [reports_checkStruct, reportsIn_append, hfields,
    reportsIn_eq_nil fun report hreport => hordering report hreport _ report.span_mem_spans,
    List.nil_append, reportsIn_checkField hread hfile hdecl hfield hdefault hproper hpart]

/-- Among the reports of the type check of a file, those in a part of an initializer are those of
coercing the initializer. -/
theorem reportsIn_checkTypes (hresolve : resolver.TypesResolve) {type : TypeRef} {expr : Expr}
    (h : (type, expr) ∈ file.document.typedInitializers) (hpart : part.Within expr.span) :
    reportsIn part (resolver.checkTypes here file.document).reports =
      reportsIn part (coerce resolver here ⟨here, type⟩ expr).reports := by
  have hproper := hresolve here file hfile type (Document.writes_of_mem_typedInitializers h).1
  obtain ⟨declaration, hdeclaration, h⟩ := List.mem_flatMap.1 h
  obtain ⟨index, hlt, rfl⟩ := List.getElem_of_mem hdeclaration
  have hitem : (file.document.declarations[index], index) ∈ file.document.declarations.zipIdx :=
    List.mem_zipIdx_iff_getElem?.2 (List.getElem?_eq_getElem hlt)
  have hwithin := within_declaration hread hfile hdeclaration h
  generalize file.document.declarations[index] = declaration at hdeclaration h hitem hwithin
  -- declarations lie one behind the other, so what is reported in the part is about this one
  have hdeclarations := @reportsIn_flatMap part
    (file.document.declarations.zipIdx.map fun item =>
      (item.1.toNode.span, (resolver.checkDeclaration here item.2 .empty item.1).reports))
    (by
      have hspans := pairwise_declarations hread hfile
      rw [← List.zipIdx_map_fst 0 file.document.declarations, List.map_map] at hspans
      rw [List.map_map]
      exact hspans)
    (fun thing hthing => by
      obtain ⟨item, hitem, rfl⟩ := List.mem_map.1 hthing
      have hmem := List.fst_mem_of_mem_zipIdx hitem
      have htails := tailsMarkOf hclean hread hfile
        (fun name hname => List.mem_flatMap.2 ⟨item.1, hmem, hname⟩)
        fun _ => contains_of_names item.1.names_toNode
      exact startsIn_of_within hread hfile (Document.contains_declaration hmem)
        (within_checkDeclaration item.2 .empty htails (List.Subset.refl _)))
    _ (List.mem_map_of_mem hitem) (hpart.trans hwithin)
  rw [List.flatMap_map] at hdeclarations
  rw [reports_checkTypes]
  refine hdeclarations.trans ?_
  cases declaration with
  | constant decl =>
    obtain ⟨rfl, rfl⟩ := Prod.mk.inj (List.mem_singleton.1 h)
    rw [← reportsIn_checkConstant hread hfile hdeclaration hproper hpart, checkDeclaration,
      reports_bind, reports_pure, List.append_nil]
  | struct decl =>
    obtain ⟨field, hfield, rfl, hdefault⟩ := StructDecl.exists_field_of_mem_typedInitializers h
    rw [← reportsIn_checkStruct hclean hread hfile hdeclaration hfield hdefault hproper hpart,
      checkDeclaration, reports_bind, reports_pure, List.append_nil]
  | typedef decl => cases h
  | enum decl => cases h
  | service decl => cases h

end

end Resolver

/-! ### A program -/

namespace Program

variable {program : Program}

/-- An analysis reports what one phase finds. The phases before it find nothing, and if it finds
nothing itself no phase does. -/
theorem exists_phase_of_analyze (program : Program) :
    ∃ phase : Phase, program.analyze.2 = program.flatten.flatMap (phase.found program) ∧
      (∀ earlier ∈ Phase.all.takeWhile (· ≠ phase), earlier.IsSilent program) ∧
        (phase.IsSilent program → ∀ other : Phase, other.IsSilent program) := by
  classical
  obtain ⟨hstops, hends⟩ := @runPhases_tables program [] Phase.all rfl
  cases hfirst : Phase.all.find? fun phase => ¬ phase.IsSilent program with
  | none =>
    have hall : ∀ phase : Phase, phase.IsSilent program := fun phase => by
      have hmem : phase ∈ Phase.all := by cases phase <;> decide
      simpa using List.find?_eq_none.1 hfirst phase hmem
    refine ⟨.checkUnused, ?_, fun phase _ => hall phase, fun _ => hall⟩
    rw [flatMap_found_eq_nil_iff.2 (hall _)]
    exact congrArg Prod.snd (hends fun phase _ => hall phase)
  | some phase =>
    obtain ⟨hphase, earlier, later, hphases, hearlier⟩ := List.find?_eq_some_iff_append.1 hfirst
    have hnotSilent : ¬ phase.IsSilent program := of_decide_eq_true hphase
    have hsilent : ∀ other ∈ earlier, other.IsSilent program := fun other hother => by
      simpa using hearlier other hother
    refine ⟨phase, ?_, ?_, fun h => absurd h hnotSilent⟩
    · exact congrArg Prod.snd (hstops earlier phase later hphases hsilent hnotSilent)
    · rwa [← eq_takeWhile hphases]

theorem isClean_of_isSilent (hlinked : program.IsLinked)
    (hentered : Phase.enterSymbols.IsSilent program) (hbound : Phase.bindNames.IsSilent program) :
    program.fullResolver.IsClean := by
  refine isClean_fullResolver hlinked (fun tree htree => ?_) fun number tree htree => ?_
  · obtain ⟨number, hnumber⟩ := List.getElem?_of_mem htree
    exact reportsOn_eq_nil_of_isSilent hlinked hentered hnumber
  · exact reportsOn_eq_nil_of_isSilent hlinked hbound htree

section

variable (hlinked : program.IsLinked) {number : Nat} {tree : SourceTree}
  (htree : program.trees[number]? = some tree)

include hlinked htree

/-- A phase that reports nothing in a span finds no diagnostic there. -/
theorem not_within_of_outside {phase : Phase} {part : Span}
    (h : ∀ report ∈ phase.reportsOn program number tree, ¬ report.span.StartsIn part) :
    ¬ ∃ diagnostic ∈ phase.found program number, diagnostic.span.Within part := by
  obtain ⟨nodes, hparsed⟩ := hlinked.parsed tree (List.mem_of_getElem? htree)
  rintro ⟨diagnostic, hdiagnostic, hwithin⟩
  rw [found_eq_map hlinked phase htree] at hdiagnostic
  obtain ⟨report, hreport, rfl⟩ := List.mem_map.1 hdiagnostic
  obtain ⟨node, hnode, hspan⟩ :=
    marks_of_mem_reportsOn hlinked phase htree report hreport _ report.span_mem_spans
  have hnonempty := ((Source.spansExactly_of_parse hparsed).1 node hnode).nonempty
  rw [hspan] at hnonempty
  rw [Source.span_place] at hwithin
  exact h report hreport (hwithin.startsIn hnonempty)

/-- No phase but the type check finds anything in an initializer. -/
theorem outside_of_ne_checkTypes (hentered : Phase.enterSymbols.IsSilent program)
    (hbound : Phase.bindNames.IsSilent program) {type : TypeRef} {expr : Expr}
    (h : (type, expr) ∈ tree.document.typedInitializers) {part : Span}
    (hpart : part.Within expr.span) {phase : Phase} (hphase : phase ≠ .checkTypes) :
    ∀ report ∈ phase.reportsOn program number tree, ¬ report.span.StartsIn part := by
  have hread : program.fullResolver.program.IsRead := hlinked.isRead
  have hfile : program.fullResolver.program.trees[number]? = some tree := htree
  intro report hreport
  cases phase with
  | enterSymbols =>
    rw [reportsOn_eq_nil_of_isSilent hlinked hentered htree] at hreport
    cases hreport
  | bindNames =>
    rw [reportsOn_eq_nil_of_isSilent hlinked hbound htree] at hreport
    cases hreport
  | checkTypes => exact absurd rfl hphase
  | checkCycles =>
    exact Resolver.outside_checkCycles hread hfile h hpart report hreport _ report.span_mem_spans
  | checkUnused =>
    exact Resolver.outside_checkUnused hread hfile h hpart
      (hlinked.directives tree (List.mem_of_getElem? htree)) _ report hreport _
      report.span_mem_spans

end

/-- No bad part of an initializer masks another. In a program whose names were entered and bound
without a report, in which every type name stands for a type and typedef chains end, an analysis
finds something inside a part of a constant or default with an expected type exactly if the part
does not conform to that type, whatever else there is to find in the program. -/
theorem analyze_masks_no_part (hlinked : program.IsLinked)
    (hentered : Phase.enterSymbols.IsSilent program) (hbound : Phase.bindNames.IsSilent program)
    (hresolve : program.fullResolver.TypesResolve) (hend : program.fullResolver.TypedefsEnd) :
    ∃ phase : Phase, program.analyze.2 = program.flatten.flatMap (phase.found program) ∧
      ∀ number tree, program.trees[number]? = some tree → number ∈ program.flatten ∧
        ∀ type initializer, (type, initializer) ∈ tree.document.typedInitializers →
          ∀ partType part,
            Coercion.Expects program.fullResolver ⟨number, type⟩ initializer partType part →
              ((∃ diagnostic ∈ phase.found program number, diagnostic.span.Within part.span) ↔
                ¬ ∃ value, Conforms program.fullResolver number partType part value) := by
  obtain ⟨phase, hanalyze, hearlier, hlast⟩ := exists_phase_of_analyze program
  have hclean := isClean_of_isSilent hlinked hentered hbound
  have hread : program.fullResolver.program.IsRead := hlinked.isRead
  refine ⟨phase, hanalyze, fun number tree htree =>
    ⟨(mem_flatten_iff hlinked number).2 (List.getElem?_eq_some_iff.1 htree).1, ?_⟩⟩
  intro type initializer hinitializer partType part hexpects
  have hfile : program.fullResolver.program.trees[number]? = some tree := htree
  obtain ⟨htype, hwrites⟩ := Document.writes_of_mem_typedInitializers hinitializer
  have hproper := hresolve number tree htree type htype
  obtain ⟨-, hwritesPart, hwithin, hreports⟩ :=
    Coercion.keepsReports_of_expects hclean hread hfile hresolve hend hexpects hproper hwrites
  have hconforms :=
    Coercion.conforms_iff_reportsIn_eq_nil hclean hread hfile hresolve hend hexpects hproper hwrites
  have hchecked := Resolver.reportsIn_checkTypes hclean hread hfile hresolve hinitializer hwithin
  rw [← hchecked] at hconforms hreports
  by_cases hphase : phase = .checkTypes
  · subst hphase
    rw [hconforms]
    constructor
    · intro hfound hnil
      refine not_within_of_outside hlinked htree (fun report hreport hin => ?_) hfound
      exact List.not_mem_nil (hnil ▸ mem_reportsIn.2 ⟨hreport, hin⟩)
    · intro hne
      obtain ⟨report, hreport⟩ := List.exists_mem_of_ne_nil _ hne
      have hmem := (mem_reportsIn.1 hreport).1
      rw [hreports] at hreport
      have hinside :=
        (Coercion.inside_coerce hclean hread hfile partType hwritesPart report hreport).1
      refine ⟨tree.source.place report, ?_, by rwa [Source.span_place]⟩
      rw [found_eq_map hlinked .checkTypes htree]
      exact List.mem_map_of_mem hmem
  -- Whichever other phase reports, the type check found nothing: it came before that phase, or
  -- there is nothing to report at all.
  · have hsilent : Phase.checkTypes.IsSilent program := by
      cases phase with
      | enterSymbols => exact hlast hentered _
      | bindNames => exact hlast hbound _
      | checkTypes => exact absurd rfl hphase
      | checkCycles => exact hearlier _ (by decide)
      | checkUnused => exact hearlier _ (by decide)
    have hnil : (program.fullResolver.checkTypes number tree.document).reports = [] :=
      reportsOn_eq_nil_of_isSilent hlinked hsilent htree
    rw [hnil] at hconforms
    have hout := outside_of_ne_checkTypes hlinked htree hentered hbound hinitializer hwithin hphase
    exact iff_of_false (not_within_of_outside hlinked htree hout) (not_not_intro (hconforms.2 rfl))

/-- A file whose one constant has a wrong value beside a right one. -/
def spotted : Source :=
  ⟨"spotted.thrift", "struct S \x7b i32 a \x7d const list<S> X = [\x7b\"a\": 1\x7d, " ++
    "\x7b\"a\": \"w\"\x7d]"⟩

def spottedFiles : MemoryFiles := .ofList [(spotted.path, spotted.text)]

def spottedField : Field :=
  ⟨none, none, .builtin .i32 ⟨11, 14⟩, ⟨"a", ⟨15, 16⟩⟩, none, ⟨11, 16⟩⟩

def spottedName : Name := ⟨⟨"S", ⟨30, 31⟩⟩, [], ⟨30, 31⟩⟩

def spottedType : TypeRef := .list (.name spottedName) ⟨25, 32⟩

def spottedValue : Expr :=
  .list [.map [(.string ⟨"a", ⟨39, 42⟩⟩, .integer ⟨1, ⟨44, 45⟩⟩)] ⟨38, 46⟩,
    .map [(.string ⟨"a", ⟨49, 52⟩⟩, .string ⟨"w", ⟨54, 57⟩⟩)] ⟨48, 58⟩] ⟨37, 59⟩

def spottedDocument : ParsedDocument where
  document :=
    { namespaces := []
      includes := []
      declarations := [.struct ⟨.struct, ⟨"S", ⟨7, 8⟩⟩, [spottedField], ⟨0, 18⟩⟩,
        .constant ⟨spottedType, ⟨"X", ⟨33, 34⟩⟩, spottedValue, ⟨19, 59⟩⟩]
      span := ⟨0, 59⟩ }
  nodes := 18

theorem parse_spotted : spotted.parse = .ok spottedDocument := by
  decide +kernel

def spottedProgram : Program := ⟨[⟨"spotted", spotted, spottedDocument.document, []⟩], 0⟩

theorem loadProgram_spottedFiles :
    loadProgram spottedFiles.loader [] "spotted.thrift" = .ok (some spottedProgram, []) :=
  loadProgram_of_includes_eq_nil spotted rfl rfl parse_spotted rfl

theorem binding?_spottedName :
    spottedProgram.fullResolver.binding? 0 spottedName = some ⟨⟨0, 0⟩, []⟩ := by
  decide +kernel

theorem typesResolve_spottedProgram : spottedProgram.fullResolver.TypesResolve := by
  intro number tree htree type htype name hname
  match number with
  | 0 =>
    obtain rfl := Option.some.inj htree
    rcases List.mem_cons.1 htype with rfl | htype
    · cases hname
    · obtain rfl := List.mem_singleton.1 htype
      obtain rfl := List.mem_singleton.1 hname
      exact ⟨⟨0, 0⟩, _, binding?_spottedName, rfl, rfl⟩
  | _ + 1 => cases htree

theorem typedefsEnd_spottedProgram : spottedProgram.fullResolver.TypedefsEnd :=
  Resolver.typedefsEnd_of_forall fun _ htypedef => absurd htypedef List.not_mem_nil

/-- The analysis finds something in the wrong value and nothing in the right one. -/
theorem diagnostics_spottedProgram :
    (spottedProgram.IsLinked ∧ Phase.enterSymbols.IsSilent spottedProgram ∧
      Phase.bindNames.IsSilent spottedProgram ∧ spottedProgram.fullResolver.TypesResolve ∧
      spottedProgram.fullResolver.TypedefsEnd) ∧
      (∃ diagnostic ∈ spottedProgram.analyze.2, diagnostic.span.Within ⟨54, 57⟩) ∧
      ¬ ∃ diagnostic ∈ spottedProgram.analyze.2, diagnostic.span.Within ⟨44, 45⟩ := by
  have hlinked := isLinked_of_loadProgram loadProgram_spottedFiles
  have hflatten : spottedProgram.flatten = [0] := by decide +kernel
  have hentered : Phase.enterSymbols.IsSilent spottedProgram := by
    rw [Phase.IsSilent, hflatten, List.forall_mem_singleton]
    decide +kernel
  have hbound : Phase.bindNames.IsSilent spottedProgram := by
    rw [Phase.IsSilent, hflatten, List.forall_mem_singleton]
    decide +kernel
  obtain ⟨phase, hanalyze, hparts⟩ := analyze_masks_no_part hlinked hentered hbound
    typesResolve_spottedProgram typedefsEnd_spottedProgram
  obtain ⟨-, hparts⟩ := hparts 0 _ rfl
  have hparts := hparts spottedType spottedValue List.mem_cons_self
    ⟨0, .builtin .i32 ⟨11, 14⟩⟩
  have hright := hparts (.integer ⟨1, ⟨44, 45⟩⟩) (.element .refl List.mem_cons_self
    (@Coercion.Expects.field _ _ _ _ _ _ [] ⟨"a", ⟨39, 42⟩⟩ _ [] _ spottedField _ _ .refl
      binding?_spottedName rfl List.mem_cons_self rfl rfl .self))
  have hwrong := hparts (.string ⟨"w", ⟨54, 57⟩⟩) (.element .refl
    (List.mem_cons_of_mem _ List.mem_cons_self)
    (@Coercion.Expects.field _ _ _ _ _ _ [] ⟨"a", ⟨49, 52⟩⟩ _ [] _ spottedField _ _ .refl
      binding?_spottedName rfl List.mem_cons_self rfl rfl .self))
  have hone : Conforms spottedProgram.fullResolver 0 ⟨0, .builtin .i32 ⟨11, 14⟩⟩
      (.integer ⟨1, ⟨44, 45⟩⟩) (.i32 1) := .i32 (by decide)
  have hnone : ¬ ∃ value, Conforms spottedProgram.fullResolver 0 ⟨0, .builtin .i32 ⟨11, 14⟩⟩
      (.string ⟨"w", ⟨54, 57⟩⟩) value := by
    rintro ⟨value, hvalue⟩
    cases hvalue with
    | typedef step => exact Conforms.not_aliases_of_not_name (fun _ => TypeRef.noConfusion) step
  rw [hanalyze, hflatten, List.flatMap_singleton]
  exact ⟨⟨hlinked, hentered, hbound, typesResolve_spottedProgram, typedefsEnd_spottedProgram⟩,
    hwrong.2 hnone, fun hfound => hright.1 hfound ⟨_, hone⟩⟩

end Program
end Idl
