import Idl.Proofs.Spelling
import Idl.Proofs.TokenRuns
import Idl.Syntax.Node

/-!
# Trees elsewhere

A tree is moved by moving the places of all its nodes, and nothing else of it changes. If tokens
spell a tree, then the moved tokens spell the moved tree.
-/
namespace Idl

def Identifier.move (f : Nat → Nat) (identifier : Identifier) : Identifier :=
  { identifier with span := identifier.span.move f }

def IntegerLiteral.move (f : Nat → Nat) (literal : IntegerLiteral) : IntegerLiteral :=
  { literal with span := literal.span.move f }

def StringLiteral.move (f : Nat → Nat) (literal : StringLiteral) : StringLiteral :=
  { literal with span := literal.span.move f }

def Name.move (f : Nat → Nat) (name : Name) : Name :=
  ⟨name.head.move f, name.tail.map (·.move f), name.span.move f⟩

def TypeRef.move (f : Nat → Nat) : TypeRef → TypeRef
  | builtin type span => builtin type (span.move f)
  | list element span => list (element.move f) (span.move f)
  | map key value span => map (key.move f) (value.move f) (span.move f)
  | name n => name (n.move f)

mutual

def Expr.move (f : Nat → Nat) : Expr → Expr
  | .integer literal => .integer (literal.move f)
  | .string literal => .string (literal.move f)
  | .bool value span => .bool value (span.move f)
  | .list elements span => .list (Expr.moveAll f elements) (span.move f)
  | .map entries span => .map (Expr.moveEntries f entries) (span.move f)
  | .name n => .name (n.move f)

def Expr.moveAll (f : Nat → Nat) : List Expr → List Expr
  | [] => []
  | element :: elements => element.move f :: Expr.moveAll f elements

def Expr.moveEntries (f : Nat → Nat) : List (Expr × Expr) → List (Expr × Expr)
  | [] => []
  | (key, value) :: entries => (key.move f, value.move f) :: Expr.moveEntries f entries

end

def EnumEntry.move (f : Nat → Nat) (entry : EnumEntry) : EnumEntry :=
  ⟨entry.name.move f, entry.value.map (·.move f), entry.span.move f⟩

def Field.move (f : Nat → Nat) (field : Field) : Field :=
  ⟨field.order.map (·.move f), field.requiredness, field.type.move f, field.name.move f,
    field.default.map (·.move f), field.span.move f⟩

def Argument.move (f : Nat → Nat) (argument : Argument) : Argument :=
  ⟨argument.order.map (·.move f), argument.type.move f, argument.name.move f,
    argument.span.move f⟩

def Method.move (f : Nat → Nat) (method : Method) : Method :=
  ⟨method.oneway, method.returns.move f, method.name.move f, method.arguments.map (·.move f),
    method.throws.map (·.move f), method.span.move f⟩

def ConstantDecl.move (f : Nat → Nat) (decl : ConstantDecl) : ConstantDecl :=
  ⟨decl.type.move f, decl.name.move f, decl.value.move f, decl.span.move f⟩

def TypedefDecl.move (f : Nat → Nat) (decl : TypedefDecl) : TypedefDecl :=
  ⟨decl.type.move f, decl.name.move f, decl.span.move f⟩

def EnumDecl.move (f : Nat → Nat) (decl : EnumDecl) : EnumDecl :=
  ⟨decl.name.move f, decl.entries.map (·.move f), decl.span.move f⟩

def StructDecl.move (f : Nat → Nat) (decl : StructDecl) : StructDecl :=
  ⟨decl.kind, decl.name.move f, decl.fields.map (·.move f), decl.span.move f⟩

def ServiceDecl.move (f : Nat → Nat) (decl : ServiceDecl) : ServiceDecl :=
  ⟨decl.name.move f, decl.parent.map (·.move f), decl.methods.map (·.move f), decl.span.move f⟩

def Declaration.move (f : Nat → Nat) : Declaration → Declaration
  | constant decl => constant (decl.move f)
  | typedef decl => typedef (decl.move f)
  | enum decl => enum (decl.move f)
  | struct decl => struct (decl.move f)
  | service decl => service (decl.move f)

/-! ### Moved nodes -/

namespace Node

mutual

def move (f : Nat → Nat) : Node → Node
  | leaf label span text => leaf label (span.move f) text
  | branch label span parts => branch label (span.move f) (moveParts f parts)

def moveParts (f : Nat → Nat) : List Part → List Part
  | [] => []
  | .word name text :: parts => .word name text :: moveParts f parts
  | .one name node :: parts => .one name (move f node) :: moveParts f parts
  | .absent name :: parts => .absent name :: moveParts f parts
  | .many name nodes :: parts => .many name (moveAll f nodes) :: moveParts f parts

def moveAll (f : Nat → Nat) : List Node → List Node
  | [] => []
  | node :: nodes => move f node :: moveAll f nodes

end

variable {f : Nat → Nat}

theorem moveAll_eq (nodes : List Node) : moveAll f nodes = nodes.map (move f) := by
  induction nodes with
  | nil => rw [moveAll, List.map_nil]
  | cons node nodes ih => rw [moveAll, ih, List.map_cons]

theorem moveParts_optional (name : String) (node : Option Node) (parts : List Part) :
    moveParts f (.optional name node :: parts) =
      .optional name (node.map (move f)) :: moveParts f parts := by
  cases node <;> simp [Part.optional, moveParts]

end Node

section

variable {f : Nat → Nat}

theorem Name.toNode_move (name : Name) : (name.move f).toNode = name.toNode.move f := by
  simp [toNode, move, path, Node.move, Node.moveParts, Node.moveAll_eq, Identifier.toNode,
    Identifier.move]

theorem TypeRef.toNode_move (type : TypeRef) : (type.move f).toNode = type.toNode.move f := by
  induction type with
  | builtin => simp [toNode, move, Node.move]
  | list element span ih => simp [toNode, move, Node.move, Node.moveParts, ih]
  | map key value span ihKey ihValue =>
    simp [toNode, move, Node.move, Node.moveParts, ihKey, ihValue]
  | name name => exact name.toNode_move

mutual

theorem Expr.toNode_move : ∀ expr : Expr, (expr.move f).toNode = expr.toNode.move f
  | .integer literal | .string literal => by
    rw [Expr.move, Expr.toNode, Expr.toNode]
    exact (Node.move.eq_1 f _ _ _).symm
  | .bool value span => by rw [Expr.move, Expr.toNode, Expr.toNode, Node.move]
  | .list elements span => by
    have ih := Expr.toNodes_move elements
    simp [Expr.move, Expr.toNode, Node.move, Node.moveParts, ih]
  | .map entries span => by
    have ih := Expr.toParts_move entries
    simp [Expr.move, Expr.toNode, Node.move, ih]
  | .name path => path.toNode_move

theorem Expr.toNodes_move : ∀ elements : List Expr,
    Expr.toNodes (Expr.moveAll f elements) = Node.moveAll f (Expr.toNodes elements)
  | [] => by simp [Expr.moveAll, Expr.toNodes, Node.moveAll]
  | element :: elements => by
    have ih := Expr.toNode_move element
    have ih' := Expr.toNodes_move elements
    simp [Expr.moveAll, Expr.toNodes, Node.moveAll, ih, ih']

theorem Expr.toParts_move : ∀ entries : List (Expr × Expr),
    Expr.toParts (Expr.moveEntries f entries) = Node.moveParts f (Expr.toParts entries)
  | [] => by simp [Expr.moveEntries, Expr.toParts, Node.moveParts]
  | (key, value) :: entries => by
    have ihKey := Expr.toNode_move key
    have ihValue := Expr.toNode_move value
    have ih := Expr.toParts_move entries
    simp [Expr.moveEntries, Expr.toParts, Node.moveParts, ihKey, ihValue, ih]

end

theorem Identifier.toNode_move (identifier : Identifier) :
    (identifier.move f).toNode = identifier.toNode.move f :=
  (Node.move.eq_1 f _ _ _).symm

theorem IntegerLiteral.toNode_move (literal : IntegerLiteral) :
    (literal.move f).toNode = literal.toNode.move f :=
  (Node.move.eq_1 f _ _ _).symm

theorem EnumEntry.toNode_move (entry : EnumEntry) :
    (entry.move f).toNode = entry.toNode.move f := by
  simp [toNode, move, Node.move, Node.moveParts, Node.moveParts_optional,
    Identifier.toNode_move, IntegerLiteral.toNode_move, Function.comp_def]

theorem Field.toNode_move (field : Field) : (field.move f).toNode = field.toNode.move f := by
  simp [toNode, move, Node.move, Node.moveParts, Node.moveParts_optional,
    Identifier.toNode_move, IntegerLiteral.toNode_move, TypeRef.toNode_move, Expr.toNode_move,
    Function.comp_def]

theorem Argument.toNode_move (argument : Argument) :
    (argument.move f).toNode = argument.toNode.move f := by
  simp [toNode, move, Node.move, Node.moveParts, Node.moveParts_optional,
    Identifier.toNode_move, IntegerLiteral.toNode_move, TypeRef.toNode_move, Function.comp_def]

theorem Method.toNode_move (method : Method) : (method.move f).toNode = method.toNode.move f := by
  obtain ⟨oneway⟩ := method
  cases oneway <;> simp [toNode, move, Node.move, Node.moveParts, Node.moveAll_eq,
    Identifier.toNode_move, TypeRef.toNode_move, Argument.toNode_move, Function.comp_def]

/-- The nodes of a moved declaration are its nodes, moved. -/
theorem Declaration.toNode_move (declaration : Declaration) :
    (declaration.move f).toNode = declaration.toNode.move f := by
  cases declaration with
  | constant decl =>
    simp [toNode, move, ConstantDecl.move, Node.move, Node.moveParts, Identifier.toNode_move,
      TypeRef.toNode_move, Expr.toNode_move]
  | typedef decl =>
    simp [toNode, move, TypedefDecl.move, Node.move, Node.moveParts, Identifier.toNode_move,
      TypeRef.toNode_move]
  | enum decl =>
    simp [toNode, move, EnumDecl.move, Node.move, Node.moveParts, Node.moveAll_eq,
      Identifier.toNode_move, EnumEntry.toNode_move, Function.comp_def]
  | struct decl =>
    simp [toNode, move, StructDecl.move, Node.move, Node.moveParts, Node.moveAll_eq,
      Identifier.toNode_move, Field.toNode_move, Function.comp_def]
  | service decl =>
    simp [toNode, move, ServiceDecl.move, Node.move, Node.moveParts, Node.moveAll_eq,
      Node.moveParts_optional, Identifier.toNode_move, Name.toNode_move, Method.toNode_move,
      Function.comp_def]

end

/-! ### Moved spellings -/

namespace Spelling

/-- The sequences of the one language are those of the other when they are moved. -/
def Moves (f : Nat → Nat) (language language' : Language Token) : Prop :=
  ∀ tokens ∈ language, tokens.map (Token.move f) ∈ language'

namespace Moves

variable {f : Nat → Nat} {language language' further further' : Language Token}

theorem one : Moves f 1 1 := by
  rintro _ rfl
  rfl

theorem lexeme (lexeme : Lexeme) : Moves f (Spelling.lexeme lexeme) (Spelling.lexeme lexeme) := by
  rintro _ ⟨span, rfl⟩
  exact ⟨span.move f, rfl⟩

theorem mul (h : Moves f language language') (h' : Moves f further further') :
    Moves f (language * further) (language' * further') := by
  rintro _ ⟨tokens, htokens, after, hafter, rfl⟩
  exact ⟨_, h tokens htokens, _, h' after hafter, List.map_append.symm⟩

theorem add (h : Moves f language language') (h' : Moves f further further') :
    Moves f (language + further) (language' + further') := by
  rintro tokens (htokens | htokens)
  · exact .inl (h tokens htokens)
  · exact .inr (h' tokens htokens)

theorem spanning (h : Moves f language language') (span : Span) :
    Moves f (Spelling.spanning span language) (Spelling.spanning (span.move f) language') := by
  rintro tokens ⟨htokens, hstart, hstop⟩
  obtain ⟨first, hfirst, hstart⟩ := Option.map_eq_some_iff.1 hstart
  obtain ⟨last, hlast, hstop⟩ := Option.map_eq_some_iff.1 hstop
  refine ⟨h tokens htokens, ?_, ?_⟩
  · rw [List.head?_map, hfirst, Span.move, ← hstart]
    rfl
  · rw [List.getLast?_map, hlast, Span.move, ← hstop]
    rfl

theorem separator : Moves f Spelling.separator Spelling.separator :=
  one.add ((lexeme _).add (lexeme _))

section

variable {α : Type} {spell spell' : α → Language Token} {move : α → α}

theorem elim (h : ∀ item, Moves f (spell item) (spell' (move item))) (item : Option α) :
    Moves f (item.elim 1 spell) ((item.map move).elim 1 spell') := by
  cases item with
  | none => exact one
  | some item => exact h item

theorem prod (h : ∀ item, Moves f (spell item) (spell' (move item))) (list : List α) :
    Moves f (list.map spell).prod ((list.map move).map spell').prod := by
  induction list with
  | nil => exact one
  | cons item list ih =>
    simp only [List.map_cons, List.prod_cons]
    exact (h item).mul ih

theorem items (h : ∀ item, Moves f (spell item) (spell' (move item))) (list : List α) :
    Moves f (Spelling.items spell list) (Spelling.items spell' (list.map move)) :=
  prod (fun item => (h item).mul separator) list

end

theorem enclosed (h : Moves f language language') (opening closing : Mark) :
    Moves f (Spelling.enclosed opening language closing)
      (Spelling.enclosed opening language' closing) :=
  ((lexeme _).mul h).mul (lexeme _)

end Moves
end Spelling

open Spelling

variable {f : Nat → Nat}

theorem Identifier.moves (identifier : Identifier) :
    Moves f identifier.spellings (identifier.move f).spellings :=
  (Moves.lexeme _).spanning _

theorem IntegerLiteral.moves (literal : IntegerLiteral) :
    Moves f literal.spellings (literal.move f).spellings :=
  (Moves.lexeme _).spanning _

theorem StringLiteral.moves (literal : StringLiteral) :
    Moves f literal.spellings (literal.move f).spellings :=
  (Moves.lexeme _).spanning _

theorem Name.moves (name : Name) : Moves f name.spellings (name.move f).spellings :=
  (name.head.moves.mul
    (.prod (fun next : Identifier => (Moves.lexeme _).mul next.moves) name.tail)).spanning _

theorem TypeRef.moves (type : TypeRef) : Moves f type.spellings (type.move f).spellings := by
  induction type with
  | builtin type span => exact (Moves.lexeme _).spanning span
  | list element span ih =>
    exact ((((Moves.lexeme _).mul (.lexeme _)).mul ih).mul (.lexeme _)).spanning span
  | map key value span ihKey ihValue =>
    exact ((((((Moves.lexeme _).mul (.lexeme _)).mul ihKey).mul (.lexeme _)).mul ihValue).mul
      (.lexeme _)).spanning span
  | name name => exact name.moves

mutual

theorem Expr.moves : ∀ expr : Expr, Moves f expr.spellings (expr.move f).spellings
  | .integer literal => literal.moves
  | .string literal => literal.moves
  | .bool _ span => (Moves.lexeme _).spanning span
  | .list elements span => ((Expr.moves_elements elements).enclosed _ _).spanning span
  | .map entries span => ((Expr.moves_entries entries).enclosed _ _).spanning span
  | .name path => path.moves

theorem Expr.moves_elements : ∀ elements : List Expr,
    Moves f (Expr.elementSpellings elements) (Expr.elementSpellings (Expr.moveAll f elements))
  | [] => Moves.one
  | element :: elements =>
    ((Expr.moves element).mul .separator).mul (Expr.moves_elements elements)

theorem Expr.moves_entries : ∀ entries : List (Expr × Expr),
    Moves f (Expr.entrySpellings entries) (Expr.entrySpellings (Expr.moveEntries f entries))
  | [] => Moves.one
  | (key, value) :: entries =>
    ((((Expr.moves key).mul (.lexeme _)).mul (Expr.moves value)).mul .separator).mul
      (Expr.moves_entries entries)

end

theorem IntegerLiteral.moves_order (order : Option IntegerLiteral) :
    Moves f (orderSpellings order) (orderSpellings (order.map (·.move f))) :=
  .elim (fun literal : IntegerLiteral => literal.moves.mul (.lexeme _)) order

theorem EnumEntry.moves (entry : EnumEntry) : Moves f entry.spellings (entry.move f).spellings :=
  (entry.name.moves.mul
    (.elim (fun literal : IntegerLiteral => (Moves.lexeme _).mul literal.moves)
      entry.value)).spanning _

theorem Field.moves (field : Field) : Moves f field.spellings (field.move f).spellings := by
  have hrequiredness : Moves f
      (field.requiredness.elim 1 fun requiredness => keyword requiredness.keyword)
      (field.requiredness.elim 1 fun requiredness => keyword requiredness.keyword) := by
    cases field.requiredness with
    | none => exact .one
    | some requiredness => exact .lexeme _
  exact (((((IntegerLiteral.moves_order field.order).mul hrequiredness).mul
    field.type.moves).mul field.name.moves).mul
      (.elim (fun value : Expr => (Moves.lexeme _).mul value.moves) field.default)).spanning _

theorem Argument.moves (argument : Argument) :
    Moves f argument.spellings (argument.move f).spellings :=
  (((IntegerLiteral.moves_order argument.order).mul argument.type.moves).mul
    argument.name.moves).spanning _

theorem Argument.moves_list (arguments : List Argument) :
    Moves f (listSpellings arguments) (listSpellings (arguments.map (·.move f))) :=
  (Moves.items Argument.moves arguments).enclosed _ _

theorem Method.moves (method : Method) : Moves f method.spellings (method.move f).spellings := by
  have honeway : Moves f (if method.oneway then keyword .oneway else 1)
      (if method.oneway then keyword .oneway else 1) := by
    split
    · exact .lexeme _
    · exact .one
  have hthrows : Moves f (if method.throws = [] then 1 else 0)
      (if (method.move f).throws = [] then 1 else 0) := by
    simp only [Method.move, List.map_eq_nil_iff]
    split
    · exact .one
    · exact fun tokens h => absurd h (Language.notMem_zero tokens)
  exact ((((honeway.mul method.returns.moves).mul method.name.moves).mul
    (Argument.moves_list method.arguments)).mul
      (hthrows.add ((Moves.lexeme _).mul (Argument.moves_list method.throws)))).spanning _

theorem Declaration.moves (declaration : Declaration) :
    Moves f declaration.spellings (declaration.move f).spellings := by
  cases declaration with
  | constant decl =>
    exact (((((Moves.lexeme _).mul decl.type.moves).mul decl.name.moves).mul (.lexeme _)).mul
      decl.value.moves).spanning _
  | typedef decl =>
    exact (((Moves.lexeme _).mul decl.type.moves).mul decl.name.moves).spanning _
  | enum decl =>
    exact (((Moves.lexeme _).mul decl.name.moves).mul
      ((Moves.items EnumEntry.moves decl.entries).enclosed _ _)).spanning _
  | struct decl =>
    exact (((Moves.lexeme _).mul decl.name.moves).mul
      ((Moves.items Field.moves decl.fields).enclosed _ _)).spanning _
  | service decl =>
    exact ((((Moves.lexeme _).mul decl.name.moves).mul
      (.elim (fun parent : Name => (Moves.lexeme _).mul parent.moves) decl.parent)).mul
        ((Moves.items Method.moves decl.methods).enclosed _ _)).spanning _

end Idl
