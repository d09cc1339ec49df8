import Idl.Proofs.ParserSoundness
import Idl.Syntax.ArenaParser

/-!
# Stored trees

A tree is put into an arena by putting its parts there, in source order, and then its root. The
parser that fills an arena does the same: it reads the tree that the other parser reads and stores
it. The directives of a file are stored in source order, which the tree does not keep, so the tree
of a file comes with the directives in that order.
-/
namespace Idl

/-- A step that only puts nodes into an arena. -/
abbrev Storing := StateM Arena

namespace Storing

variable {α β : Type}

def node (span : Span) (data : NodeData) : Storing (NodeId data.label) :=
  modifyGet fun arena => arena.add span data

def all (store : α → Storing β) : List α → Storing (List β)
  | [] => return []
  | item :: items => do
    let first ← store item
    return first :: (← all store items)

def optional (store : α → Storing β) : Option α → Storing (Option β)
  | none => return none
  | some item => some <$> store item

end Storing

open Storing (all optional)

def Identifier.store (identifier : Identifier) : Storing (NodeId .identifier) :=
  Storing.node identifier.span (.identifier identifier.text)

def IntegerLiteral.store (literal : IntegerLiteral) : Storing (NodeId .integerLiteral) :=
  Storing.node literal.span (.integerLiteral literal.value)

def StringLiteral.store (literal : StringLiteral) : Storing (NodeId .stringLiteral) :=
  Storing.node literal.span (.stringLiteral literal.text)

def Name.store (name : Name) : Storing (NodeId .name) := do
  let path ← all Identifier.store name.path
  Storing.node name.span (.name path)

def TypeRef.store : TypeRef → Storing TypeId
  | builtin type span => .builtin <$> Storing.node span (.builtinType type)
  | list element span => do
    let element ← element.store
    .list <$> Storing.node span (.listType element)
  | map key value span => do
    let key ← key.store
    let value ← value.store
    .map <$> Storing.node span (.mapType key value)
  | name n => .name <$> n.store

mutual

def Expr.store : Expr → Storing ExprId
  | .integer literal => .integer <$> literal.store
  | .string literal => .string <$> literal.store
  | .bool value span => .bool <$> Storing.node span (.boolLiteral value)
  | .list elements span => do
    let elements ← Expr.storeAll elements
    .list <$> Storing.node span (.list elements)
  | .map entries span => do
    let entries ← Expr.storeEntries entries
    .map <$> Storing.node span (.map entries)
  | .name n => .name <$> n.store

def Expr.storeAll : List Expr → Storing (List ExprId)
  | [] => return []
  | e :: es => do
    let first ← e.store
    return first :: (← Expr.storeAll es)

def Expr.storeEntries : List (Expr × Expr) → Storing (List (ExprId × ExprId))
  | [] => return []
  | (key, value) :: entries => do
    let key ← key.store
    let value ← value.store
    return (key, value) :: (← Expr.storeEntries entries)

end

def Expr.storeEntry (entry : Expr × Expr) : Storing (ExprId × ExprId) := do
  let key ← entry.1.store
  return (key, ← entry.2.store)

theorem Expr.storeAll_eq (elements : List Expr) : storeAll elements = all store elements := by
  induction elements with
  | nil => rfl
  | cons e es ih => rw [storeAll, all, ih]

theorem Expr.storeEntries_eq (entries : List (Expr × Expr)) :
    storeEntries entries = all storeEntry entries := by
  induction entries with
  | nil => rfl
  | cons entry entries ih =>
    rw [storeEntries, all, ih]
    rfl

def NamespaceDirective.store (directive : NamespaceDirective) :
    Storing (NodeId .namespaceDirective) :=
  Storing.node directive.span (.namespaceDirective directive.scope directive.name)

def IncludeDirective.store (directive : IncludeDirective) :
    Storing (NodeId .includeDirective) := do
  let path ← directive.path.store
  Storing.node directive.span (.includeDirective path)

def EnumEntry.store (entry : EnumEntry) : Storing (NodeId .enumEntry) := do
  let name ← entry.name.store
  let value ← optional IntegerLiteral.store entry.value
  Storing.node entry.span (.enumEntry name value)

def Field.store (field : Field) : Storing (NodeId .field) := do
  let order ← optional IntegerLiteral.store field.order
  let type ← field.type.store
  let name ← field.name.store
  let default ← optional Expr.store field.default
  Storing.node field.span (.field order field.requiredness type name default)

def Argument.store (argument : Argument) : Storing (NodeId .argument) := do
  let order ← optional IntegerLiteral.store argument.order
  let type ← argument.type.store
  let name ← argument.name.store
  Storing.node argument.span (.argument order type name)

def Method.store (method : Method) : Storing (NodeId .method) := do
  let returns ← method.returns.store
  let name ← method.name.store
  let arguments ← all Argument.store method.arguments
  let throws ← all Argument.store method.throws
  Storing.node method.span (.method method.oneway returns name arguments throws)

def ConstantDecl.store (decl : ConstantDecl) : Storing (NodeId .const) := do
  let type ← decl.type.store
  let name ← decl.name.store
  let value ← decl.value.store
  Storing.node decl.span (.const type name value)

def TypedefDecl.store (decl : TypedefDecl) : Storing (NodeId .typedef) := do
  let type ← decl.type.store
  let name ← decl.name.store
  Storing.node decl.span (.typedef type name)

def EnumDecl.store (decl : EnumDecl) : Storing (NodeId .enum) := do
  let name ← decl.name.store
  let entries ← all EnumEntry.store decl.entries
  Storing.node decl.span (.enum name entries)

def StructDecl.store (decl : StructDecl) : Storing (NodeId .struct) := do
  let name ← decl.name.store
  let fields ← all Field.store decl.fields
  Storing.node decl.span (.struct decl.kind name fields)

def ServiceDecl.store (decl : ServiceDecl) : Storing (NodeId .service) := do
  let name ← decl.name.store
  let parent ← optional Name.store decl.parent
  let methods ← all Method.store decl.methods
  Storing.node decl.span (.service name parent methods)

def Declaration.store : Declaration → Storing DeclarationId
  | constant d => .constant <$> d.store
  | typedef d => .typedef <$> d.store
  | enum d => .enum <$> d.store
  | struct d => .struct <$> d.store
  | service d => .service <$> d.store

/-- What a file says, with its directives in source order. -/
structure OrderedDocument where
  headers : List Header
  declarations : List Declaration
  span : Span

def OrderedDocument.document (ordered : OrderedDocument) : Document where
  namespaces := (Parser.partitionHeaders ordered.headers).1
  includes := (Parser.partitionHeaders ordered.headers).2
  declarations := ordered.declarations
  span := ordered.span

def storeHeaders :
    List Header → Storing (List (NodeId .namespaceDirective) × List (NodeId .includeDirective))
  | [] => return ([], [])
  | .naming directive :: headers => do
    let first ← directive.store
    let (namespaces, includes) ← storeHeaders headers
    return (first :: namespaces, includes)
  | .inclusion directive :: headers => do
    let first ← directive.store
    let (namespaces, includes) ← storeHeaders headers
    return (namespaces, first :: includes)

def OrderedDocument.store (ordered : OrderedDocument) : Storing (NodeId .document) := do
  let (namespaces, includes) ← storeHeaders ordered.headers
  let declarations ← all Declaration.store ordered.declarations
  Storing.node ordered.span (.document namespaces includes declarations)

/-! ### Readers that make no nodes -/

namespace Parser

variable {α β : Type}

/-- The parser leaves the number of nodes as it is. -/
def MakesNone (parser : Parser α) : Prop :=
  ∀ s, Ensures (fun _ => True) parser s fun _ next => next.nodes = s.nodes

theorem MakesNone.pure (result : α) : MakesNone (Pure.pure result) :=
  fun _ => .pure rfl

theorem MakesNone.bind {first : Parser α} {second : α → Parser β} (h : MakesNone first)
    (hsecond : ∀ result, MakesNone (second result)) : MakesNone (first >>= second) :=
  fun s => (h s).bind fun result next hnext =>
    (hsecond result next).mono fun _ _ hlast => hlast.trans hnext

theorem MakesNone.map {parser : Parser α} (h : MakesNone parser) (f : α → β) :
    MakesNone (f <$> parser) :=
  fun s => (h s).map fun _ _ hnext => hnext

theorem makesNone_current : MakesNone current := fun _ => rfl

theorem makesNone_kind : MakesNone kind := fun _ => rfl

theorem makesNone_position : MakesNone position := fun _ => rfl

theorem makesNone_expected (what : String) : MakesNone (expected what : Parser α) :=
  fun _ => trivial

theorem makesNone_outOfFuel : MakesNone (outOfFuel : Parser α) :=
  fun _ => trivial

theorem makesNone_checkCurrent : MakesNone checkCurrent := by
  intro s
  unfold Ensures
  cases h : faultMessage? s.current.lexeme with
  | none => rw [run_checkCurrent_of_eq_none h]
  | some message =>
    rw [run_checkCurrent_of_eq_some h]
    trivial

theorem makesNone_advance : MakesNone advance := by
  intro s
  by_cases h : s.current.kind = .finish
  · unfold Ensures
    rw [run_advance_of_finish h]
    trivial
  · have hcheck := makesNone_checkCurrent s.advance
    unfold Ensures at hcheck ⊢
    rwa [run_advance h]

theorem makesNone_accept (wanted : TokenKind) : MakesNone (accept wanted) := by
  refine makesNone_kind.bind fun kind => ?_
  split
  · exact makesNone_advance.bind fun _ => .pure true
  · exact .pure false

theorem makesNone_expect (wanted : TokenKind) (what : String) :
    MakesNone (expect wanted what) := by
  refine (makesNone_accept wanted).bind fun taken => ?_
  split
  · exact .pure _
  · exact makesNone_expected what

theorem makesNone_separator : MakesNone separator := by
  refine makesNone_kind.bind fun kind => ?_
  split
  · exact makesNone_advance
  · exact .pure _

theorem makesNone_clause {item : Parser α} (wanted : TokenKind) (h : MakesNone item) :
    MakesNone (clause wanted item) := by
  refine (makesNone_accept wanted).bind fun taken => ?_
  split
  · exact h.map some
  · exact .pure none

theorem makesNone_dotted {item : Parser α} (h : MakesNone item) (fuel : Nat) :
    MakesNone (dotted item fuel) := by
  induction fuel with
  | zero => exact makesNone_outOfFuel
  | succ fuel ih =>
    refine (makesNone_clause (.mark .dot) h).bind fun next => ?_
    cases next with
    | none => exact .pure []
    | some next => exact ih.bind fun rest => .pure (next :: rest)

theorem makesNone_namespaceSegment (what : String) : MakesNone (namespaceSegment what) := by
  refine makesNone_current.bind fun ⟨lexeme, span⟩ => ?_
  cases lexeme with
  | identifier text => exact makesNone_advance.bind fun _ => .pure text
  | keyword word => exact makesNone_advance.bind fun _ => .pure word.spelling
  | _ => exact makesNone_expected what

theorem makesNone_namespaceScope : MakesNone namespaceScope := by
  refine (makesNone_accept (.mark .star)).bind fun taken => ?_
  split
  · exact .pure "*"
  · exact makesNone_namespaceSegment _

theorem makesNone_requiredness : MakesNone requiredness := by
  refine (makesNone_accept (.keyword .required)).bind fun taken => ?_
  split
  · exact .pure _
  · refine (makesNone_accept (.keyword .optional)).bind fun taken => ?_
    split
    · exact .pure _
    · exact .pure none

/-! ### Documents with their directives in source order -/

def orderedHeaders (fuel : Nat) : Nat → Parser (List Header)
  | 0 => outOfFuel
  | rounds + 1 => do
    match ← kind with
    | .keyword .naming =>
      let directive ← namespaceDirective fuel
      separator
      return .naming directive :: (← orderedHeaders fuel rounds)
    | .keyword .inclusion =>
      let directive ← includeDirective
      separator
      return .inclusion directive :: (← orderedHeaders fuel rounds)
    | _ => return []

def orderedDocument (fuel : Nat) : Parser OrderedDocument := do
  checkCurrent
  let start ← position
  let headers ← orderedHeaders fuel fuel
  let declarations ← declarations fuel fuel
  return ⟨headers, declarations, ← node start⟩

theorem headers_eq (fuel rounds : Nat) :
    headers fuel rounds = partitionHeaders <$> orderedHeaders fuel rounds := by
  induction rounds with
  | zero => rfl
  | succ rounds ih =>
    rw [headers, orderedHeaders, map_bind]
    refine bind_congr fun kind => ?_
    cases kind with
    | keyword word =>
      cases word with
      | naming => simp [ih, partitionHeaders]
      | inclusion => simp [ih, partitionHeaders]
      | _ => simp [partitionHeaders]
    | _ => simp [partitionHeaders]

theorem document_eq (fuel : Nat) :
    document fuel = OrderedDocument.document <$> orderedDocument fuel := by
  simp only [document, orderedDocument, headers_eq, map_bind, bind_map_left, map_pure]
  rfl

end Parser

end Idl
