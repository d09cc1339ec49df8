import Idl.Proofs.StrictValues

/-!
# The strict type check

A strict version of checking the declarations of a file. Everything that is checked is looked up in
the file, and whatever a name is bound to must be declared. In closed tables the strict check does
what the check does.
-/
namespace Idl
namespace Strict

section

variable (resolver : Resolver) (here : Nat)

def checkTypedef (index : Nat) (decl : TypedefDecl) : Strict Unit := do
  openNode resolver.program here decl.name.toNode
  if ← typedefIsCyclic resolver ⟨here, index⟩ then
    Reporting.error decl.name.span (.cyclicTypedef decl.name.text)
  else
    let _ ← checkValueType resolver here decl.type

def checkConstant (decl : ConstantDecl) : Strict (Option Value) := do
  if ← checkValueType resolver here decl.type then
    coerce resolver here ⟨here, decl.type⟩ decl.value
  else
    return none

def checkField (field : Field) : Strict (Option Value) := do
  openNode resolver.program here field.toNode
  if ← checkValueType resolver here field.type then
    match field.default with
    | some default => coerce resolver here ⟨here, field.type⟩ default
    | none => return none
  else
    return none

/-- Looks up the names and the orders in a list. -/
def checkOrdering (item : OrderedItem) (entries : List OrderedName) : Strict Unit := do
  entries.forM fun entry => do
    openNode resolver.program here entry.name.toNode
    if let some order := entry.order then
      openNode resolver.program here order.toNode
  Idl.checkOrdering item entries

def checkStruct (decl : StructDecl) : Strict (List (Nat × Value)) := do
  checkOrdering resolver here .field (decl.fields.map Field.ordered)
  decl.fields.zipIdx.foldlM (fun defaults (field, index) => do
    let value ← checkField resolver here field
    return defaults ++ (value.map (index, ·)).toList) []

def checkParent (name : Name) : Strict Unit := do
  openAll resolver.program here name.toNode
  if let some binding := resolver.binding? here name then
    discard (declaration resolver.program binding.target)
  resolver.checkParent here name

def checkMethod (method : Method) : Strict Unit := do
  openNode resolver.program here method.toNode
  openNode resolver.program here method.name.toNode
  let _ ← affirmType resolver here method.returns
  checkVoid resolver here true method.returns
  if method.oneway then
    Resolver.checkOneway method
  method.arguments.forM fun argument => do
    openNode resolver.program here argument.toNode
    let _ ← checkValueType resolver here argument.type
  checkOrdering resolver here .argument (method.arguments.map Argument.ordered)
  method.throws.forM fun argument => do
    openNode resolver.program here argument.toNode
    if ← affirmType resolver here argument.type then
      checkException resolver here argument.type
  checkOrdering resolver here .exception (method.throws.map Argument.ordered)

def checkService (decl : ServiceDecl) : Strict Unit := do
  if let some parent := decl.parent then
    checkParent resolver here parent
  decl.methods.forM (checkMethod resolver here)

def checkDeclaration (index : Nat) (values : Values) (declaration : Declaration) :
    Strict Values := do
  openNode resolver.program here declaration.toNode
  match declaration with
  | .enum _ => return values
  | .typedef decl => do
    checkTypedef resolver here index decl
    return values
  | .constant decl => do
    let value ← checkConstant resolver here decl
    return { values with constants := values.constants ++ (value.map (index, ·)).toList }
  | .struct decl => do
    let defaults ← checkStruct resolver here decl
    return { values with
      defaults := values.defaults ++ defaults.map fun (field, value) => ((index, field), value) }
  | .service decl => do
    checkService resolver here decl
    return values

def checkTypes (document : Document) : Strict Values :=
  document.declarations.zipIdx.foldlM
    (fun values (declaration, index) => checkDeclaration resolver here index values declaration)
    .empty

end

section

variable {resolver : Resolver} {here : Nat}

theorem checkTypedef_eq (h : resolver.IsClosed) {index : Nat} {decl : TypedefDecl}
    (hdecl : resolver.declaration? ⟨here, index⟩ = some (.typedef decl)) :
    checkTypedef resolver here index decl = liftM (resolver.checkTypedef here index decl) := by
  have hheld : resolver.program.Holds here (Declaration.typedef decl).toNode :=
    Program.holds_of_declaration? hdecl
  have hname : resolver.program.Holds here decl.name.toNode :=
    hheld.trans (Declaration.typedef decl).contains_name
  rw [checkTypedef, openNode_eq hname, pure_bind, typedefIsCyclic_eq h hdecl, pure_bind,
    Resolver.checkTypedef]
  split
  · rfl
  · exact bind_eq_liftM (checkValueType_eq h (hheld.trans decl.contains_type)) (liftM_pure _).symm

/-- Values are checked against types that are written in the same tree. -/
theorem coerceHere_eq (h : resolver.IsClosed) {type : TypeRef} {expr : Expr}
    (htype : resolver.program.Holds here type.toNode)
    (hexpr : resolver.program.Holds here expr.toNode) :
    coerce resolver here ⟨here, type⟩ expr = liftM (resolver.coerceHere here type expr) :=
  coerce_eq h expr ⟨here, type⟩ hexpr htype

theorem checkConstant_eq (h : resolver.IsClosed) {decl : ConstantDecl}
    (hdecl : resolver.program.Holds here (Declaration.constant decl).toNode) :
    checkConstant resolver here decl = liftM (resolver.checkConstant here decl) := by
  have htype := hdecl.trans decl.contains_type
  refine bind_eq_liftM (checkValueType_eq h htype) ?_
  cases (resolver.checkValueType here decl.type).value with
  | true => exact coerceHere_eq h htype (hdecl.trans decl.contains_value)
  | false => exact (liftM_pure _).symm

theorem checkField_eq (h : resolver.IsClosed) {field : Field}
    (hfield : resolver.program.Holds here field.toNode) :
    checkField resolver here field = liftM (resolver.checkField here field) := by
  have htype := hfield.trans field.contains_type
  rw [checkField, openNode_eq hfield, pure_bind]
  refine bind_eq_liftM (checkValueType_eq h htype) ?_
  cases (resolver.checkValueType here field.type).value with
  | true =>
    cases hdefault : field.default with
    | none => exact (liftM_pure _).symm
    | some default =>
      exact coerceHere_eq h htype (hfield.trans (Field.contains_default hdefault))
  | false => exact (liftM_pure _).symm

theorem checkOrdering_eq (item : OrderedItem) {entries : List OrderedName}
    (hname : ∀ entry ∈ entries, resolver.program.Holds here entry.name.toNode)
    (horder : ∀ entry ∈ entries, ∀ literal, entry.order = some literal →
      resolver.program.Holds here literal.toNode) :
    checkOrdering resolver here item entries = liftM (Idl.checkOrdering item entries) := by
  rw [checkOrdering, forM_eq_pure fun entry hentry => ?_, pure_bind]
  rw [openNode_eq (hname entry hentry), pure_bind]
  split
  · next literal hliteral => exact openNode_eq (horder entry hentry literal hliteral)
  · rfl

theorem checkStruct_eq (h : resolver.IsClosed) {decl : StructDecl}
    (hdecl : resolver.program.Holds here (Declaration.struct decl).toNode) :
    checkStruct resolver here decl = liftM (resolver.checkStruct here decl) := by
  have hfields : ∀ field ∈ decl.fields, resolver.program.Holds here field.toNode :=
    fun field hfield => hdecl.trans (StructDecl.contains_field hfield)
  refine bind_eq_liftM (checkOrdering_eq .field (fun entry hentry => ?_)
    fun entry hentry literal hliteral => ?_) ?_
  · obtain ⟨field, hfield, rfl⟩ := List.mem_map.1 hentry
    exact (hfields field hfield).trans field.contains_name
  · obtain ⟨field, hfield, rfl⟩ := List.mem_map.1 hentry
    exact (hfields field hfield).trans (Field.contains_order hliteral)
  · refine foldlM_eq_liftM (fun item hitem defaults => ?_) []
    have hfield := hfields item.1 (List.fst_mem_of_mem_zipIdx hitem)
    exact bind_eq_liftM (checkField_eq h hfield) (liftM_pure _).symm

theorem checkParent_eq (h : resolver.IsClosed) {name : Name}
    (hname : resolver.program.Holds here name.toNode) :
    checkParent resolver here name = liftM (resolver.checkParent here name) := by
  rw [checkParent, openAll_eq hname, pure_bind]
  split
  · next binding hbinding =>
    obtain ⟨target, htarget⟩ := h.declared here name binding hbinding
    rw [declaration_eq htarget]
    rfl
  · rfl

theorem checkArguments_eq {arguments : List Argument} (item : OrderedItem)
    (h : ∀ argument ∈ arguments, resolver.program.Holds here argument.toNode) :
    checkOrdering resolver here item (arguments.map Argument.ordered) =
      liftM (Idl.checkOrdering item (arguments.map Argument.ordered)) := by
  refine checkOrdering_eq item (fun entry hentry => ?_) fun entry hentry literal hliteral => ?_
  · obtain ⟨argument, hargument, rfl⟩ := List.mem_map.1 hentry
    exact (h argument hargument).trans argument.contains_name
  · obtain ⟨argument, hargument, rfl⟩ := List.mem_map.1 hentry
    exact (h argument hargument).trans (Argument.contains_order hliteral)

theorem checkArgument_eq (h : resolver.IsClosed) {argument : Argument}
    (hargument : resolver.program.Holds here argument.toNode) :
    (do
      openNode resolver.program here argument.toNode
      let _ ← checkValueType resolver here argument.type) =
      (liftM (do let _ ← resolver.checkValueType here argument.type : Reporting Unit) :
        Strict Unit) := by
  rw [openNode_eq hargument, pure_bind]
  exact bind_eq_liftM (checkValueType_eq h (hargument.trans argument.contains_type))
    (liftM_pure _).symm

theorem checkThrown_eq (h : resolver.IsClosed) {argument : Argument}
    (hargument : resolver.program.Holds here argument.toNode) :
    (do
      openNode resolver.program here argument.toNode
      if ← affirmType resolver here argument.type then
        checkException resolver here argument.type) =
      (liftM (do
        if ← resolver.affirmType here argument.type then
          resolver.checkException here argument.type : Reporting Unit) : Strict Unit) := by
  have htype := hargument.trans argument.contains_type
  rw [openNode_eq hargument, pure_bind]
  refine bind_eq_liftM (affirmType_eq h htype) ?_
  cases (resolver.affirmType here argument.type).value with
  | true => exact checkException_eq h htype
  | false => exact (liftM_pure _).symm

theorem checkMethod_eq (h : resolver.IsClosed) {method : Method}
    (hmethod : resolver.program.Holds here method.toNode) :
    checkMethod resolver here method = liftM (resolver.checkMethod here method) := by
  have hreturns := hmethod.trans method.contains_returns
  have harguments : ∀ argument ∈ method.arguments, resolver.program.Holds here argument.toNode :=
    fun argument hargument => hmethod.trans (Method.contains_argument hargument)
  have hthrows : ∀ argument ∈ method.throws, resolver.program.Holds here argument.toNode :=
    fun argument hargument => hmethod.trans (Method.contains_throws hargument)
  rw [checkMethod, openNode_eq hmethod, pure_bind, openNode_eq (hmethod.trans method.contains_name),
    pure_bind]
  refine bind_eq_liftM (affirmType_eq h hreturns) ?_
  refine bind_eq_liftM (checkVoid_eq h true hreturns) ?_
  have hrest : (do
      method.arguments.forM fun argument => do
        openNode resolver.program here argument.toNode
        let _ ← checkValueType resolver here argument.type
      checkOrdering resolver here .argument (method.arguments.map Argument.ordered)
      method.throws.forM fun argument => do
        openNode resolver.program here argument.toNode
        if ← affirmType resolver here argument.type then
          checkException resolver here argument.type
      checkOrdering resolver here .exception (method.throws.map Argument.ordered)) =
      (liftM (do
        method.arguments.forM fun argument => do
          let _ ← resolver.checkValueType here argument.type
        Idl.checkOrdering .argument (method.arguments.map Argument.ordered)
        method.throws.forM fun argument => do
          if ← resolver.affirmType here argument.type then
            resolver.checkException here argument.type
        Idl.checkOrdering .exception (method.throws.map Argument.ordered) : Reporting Unit) :
          Strict Unit) := by
    refine bind_eq_liftM (forM_eq_liftM fun argument hargument =>
      checkArgument_eq h (harguments argument hargument)) ?_
    refine bind_eq_liftM (checkArguments_eq .argument harguments) ?_
    exact bind_eq_liftM (forM_eq_liftM fun argument hargument =>
      checkThrown_eq h (hthrows argument hargument)) (checkArguments_eq .exception hthrows)
  cases method.oneway with
  | true => exact bind_eq_liftM rfl hrest
  | false => exact hrest

theorem checkService_eq (h : resolver.IsClosed) {decl : ServiceDecl}
    (hdecl : resolver.program.Holds here (Declaration.service decl).toNode) :
    checkService resolver here decl = liftM (resolver.checkService here decl) := by
  have hmethods : decl.methods.forM (checkMethod resolver here) =
      liftM (decl.methods.forM (resolver.checkMethod here)) :=
    forM_eq_liftM fun method hmethod =>
      checkMethod_eq h (hdecl.trans (ServiceDecl.contains_method hmethod))
  unfold checkService Resolver.checkService
  cases hparent : decl.parent with
  | none => exact hmethods
  | some parent =>
    exact bind_eq_liftM
      (checkParent_eq h (hdecl.trans (ServiceDecl.contains_parent hparent))) hmethods

theorem checkDeclaration_eq (h : resolver.IsClosed) {index : Nat} (values : Values)
    {declaration : Declaration} (hdecl : resolver.declaration? ⟨here, index⟩ = some declaration) :
    checkDeclaration resolver here index values declaration =
      liftM (resolver.checkDeclaration here index values declaration) := by
  have hheld : resolver.program.Holds here declaration.toNode :=
    Program.holds_of_declaration? hdecl
  unfold checkDeclaration
  rw [openNode_eq hheld, pure_bind]
  cases declaration with
  | enum decl => exact (liftM_pure _).symm
  | typedef decl => exact bind_eq_liftM (checkTypedef_eq h hdecl) (liftM_pure _).symm
  | constant decl => exact bind_eq_liftM (checkConstant_eq h hheld) (liftM_pure _).symm
  | struct decl => exact bind_eq_liftM (checkStruct_eq h hheld) (liftM_pure _).symm
  | service decl => exact bind_eq_liftM (checkService_eq h hheld) (liftM_pure _).symm

theorem declaration?_of_mem_zipIdx {tree : SourceTree}
    (htree : resolver.program.trees[here]? = some tree) {item : Declaration × Nat}
    (hitem : item ∈ tree.document.declarations.zipIdx) :
    resolver.declaration? ⟨here, item.2⟩ = some item.1 :=
  Option.bind_eq_some_iff.2 ⟨tree, htree, List.mem_zipIdx_iff_getElem?.1 hitem⟩

theorem checkTypes_eq (h : resolver.IsClosed) {tree : SourceTree}
    (htree : resolver.program.trees[here]? = some tree) :
    checkTypes resolver here tree.document = liftM (resolver.checkTypes here tree.document) :=
  foldlM_eq_liftM (fun _ hitem values =>
    checkDeclaration_eq h values (declaration?_of_mem_zipIdx htree hitem)) Values.empty

end

end Strict
end Idl
