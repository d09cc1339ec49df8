import Idl.Proofs.Spelling

/-!
# Spellings are sentences

The kinds of the tokens that spell a construct form a sentence of the grammar for that construct.
-/
namespace Idl
open Computability

/-- The kinds of every sequence of the one language form a sentence of the other. -/
def Yields (spelling : Language Token) (grammar : Language TokenKind) : Prop :=
  ∀ tokens ∈ spelling, tokens.map Token.kind ∈ grammar

namespace Yields

variable {spelling spelling' : Language Token} {grammar grammar' : Language TokenKind}

theorem mul (h : Yields spelling grammar) (h' : Yields spelling' grammar') :
    Yields (spelling * spelling') (grammar * grammar') := by
  rintro _ ⟨first, hfirst, second, hsecond, rfl⟩
  simpa using Language.append_mem_mul (h first hfirst) (h' second hsecond)

theorem one : Yields 1 1 := by
  rintro _ rfl
  rfl

theorem none : Yields 1 (Grammar.optional grammar) := by
  rintro _ rfl
  exact .inl rfl

theorem some (h : Yields spelling grammar) : Yields spelling (Grammar.optional grammar) :=
  fun tokens htokens => .inr (h tokens htokens)

theorem elim {α : Type} {spell : α → Language Token} (h : ∀ item, Yields (spell item) grammar)
    (item : Option α) : Yields (item.elim 1 spell) (Grammar.optional grammar) := by
  cases item with
  | none => exact none
  | some item => exact (h item).some

theorem mono (h : Yields spelling grammar) (hle : ∀ sentence ∈ grammar, sentence ∈ grammar') :
    Yields spelling grammar' :=
  fun tokens htokens => hle _ (h tokens htokens)

theorem spanning (span : Span) (h : Yields spelling grammar) :
    Yields (Spelling.spanning span spelling) grammar :=
  fun tokens htokens => h tokens htokens.1

theorem lexeme (lexeme : Lexeme) : Yields (Spelling.lexeme lexeme) (Grammar.token lexeme.kind) := by
  rintro _ ⟨span, rfl⟩
  rfl

theorem keyword (word : Keyword) : Yields (Spelling.keyword word) (Grammar.keyword word) :=
  lexeme _

theorem mark (mark : Mark) : Yields (Spelling.mark mark) (Grammar.mark mark) :=
  lexeme _

theorem separator : Yields Spelling.separator (Grammar.optional Grammar.separator) := by
  rintro tokens (h | h | h)
  · exact .inl (one tokens h)
  · exact .inr (.inl (mark .comma tokens h))
  · exact .inr (.inr (mark .semicolon tokens h))

/-- One more repetition in front of a sequence of them. -/
theorem star (h : Yields spelling grammar) (h' : Yields spelling' grammar∗) :
    Yields (spelling * spelling') grammar∗ := by
  refine (h.mul h').mono fun sentence hsentence => ?_
  rw [← Language.one_add_self_mul_kstar_eq_kstar]
  exact .inr hsentence

theorem prod {α : Type} {spell : α → Language Token} (h : ∀ item, Yields (spell item) grammar)
    (list : List α) : Yields (list.map spell).prod grammar∗ := by
  induction list with
  | nil =>
    rintro _ rfl
    exact Language.nil_mem_kstar grammar
  | cons item list ih =>
    rw [List.map_cons, List.prod_cons]
    exact (h item).star ih

theorem items {α : Type} {spell : α → Language Token} (h : ∀ item, Yields (spell item) grammar)
    (list : List α) : Yields (Spelling.items spell list) (Grammar.items grammar) :=
  prod (fun item => (h item).mul separator) list

theorem enclosed (opening closing : Mark) (h : Yields spelling (Grammar.items grammar)) :
    Yields (Spelling.enclosed opening spelling closing)
      (Grammar.enclosed opening grammar closing) :=
  ((mark opening).mul h).mul (mark closing)

theorem joined {α : Type} {spell : α → Language Token} (h : ∀ item, Yields (spell item) grammar)
    (head : α) (tail : List α) :
    Yields (Spelling.joined spell head tail) (grammar * (Grammar.mark .dot * grammar)∗) :=
  (h head).mul (prod (fun next => (mark .dot).mul (h next)) tail)

end Yields

open Yields

theorem Identifier.yields (identifier : Identifier) :
    Yields identifier.spellings (Grammar.token .identifier) :=
  (lexeme _).spanning _

theorem IntegerLiteral.yields (literal : IntegerLiteral) :
    Yields literal.spellings (Grammar.token .integer) :=
  (lexeme _).spanning _

theorem StringLiteral.yields (literal : StringLiteral) :
    Yields literal.spellings (Grammar.token .string) :=
  (lexeme _).spanning _

theorem Name.yields (name : Name) : Yields name.spellings Grammar.dotted :=
  (joined Identifier.yields name.head name.tail).spanning _

theorem TypeRef.yields (type : TypeRef) : Yields type.spellings Grammar.type := by
  induction type with
  | builtin type span =>
    refine ((keyword type.keyword).mono fun _ h => ?_).spanning span
    obtain rfl := Grammar.mem_keyword.1 h
    exact .builtin type
  | list element span ih =>
    exact (((((keyword .list).mul (mark .less)).mul ih).mul (mark .greater)).mono
      Grammar.list_le_type).spanning span
  | map key value span ihKey ihValue =>
    exact (((((((keyword .map).mul (mark .less)).mul ihKey).mul (mark .comma)).mul ihValue).mul
      (mark .greater)).mono Grammar.map_le_type).spanning span
  | name name => exact name.yields.mono fun _ h => .dotted h

mutual

theorem Expr.yields : ∀ expr : Expr, Yields expr.spellings Grammar.value
  | .integer literal => literal.yields.mono fun _ h => h ▸ .integer
  | .string literal => literal.yields.mono fun _ h => h ▸ .string
  | .bool true span => ((keyword .truth).mono fun _ h => h ▸ .truth).spanning span
  | .bool false span => ((keyword .falsehood).mono fun _ h => h ▸ .falsehood).spanning span
  | .list elements span =>
    ((enclosed _ _ (Expr.elements_yields elements)).mono Grammar.list_le_value).spanning span
  | .map entries span =>
    ((enclosed _ _ (Expr.entries_yields entries)).mono Grammar.map_le_value).spanning span
  | .name path => path.yields.mono fun _ h => .dotted h

theorem Expr.elements_yields : ∀ elements : List Expr,
    Yields (Expr.elementSpellings elements) (Grammar.items Grammar.value)
  | [] => by
    rintro _ rfl
    exact Language.nil_mem_kstar _
  | element :: elements =>
    ((Expr.yields element).mul separator).star (Expr.elements_yields elements)

theorem Expr.entries_yields : ∀ entries : List (Expr × Expr),
    Yields (Expr.entrySpellings entries) (Grammar.items Grammar.entry)
  | [] => by
    rintro _ rfl
    exact Language.nil_mem_kstar _
  | (key, value) :: entries =>
    ((((Expr.yields key).mul (mark .colon)).mul (Expr.yields value)).mul separator).star
      (Expr.entries_yields entries)

end

theorem IntegerLiteral.order_yields (order : Option IntegerLiteral) :
    Yields (IntegerLiteral.orderSpellings order) Grammar.order :=
  elim (fun literal => literal.yields.mul (mark .colon)) order

theorem EnumEntry.yields (entry : EnumEntry) : Yields entry.spellings Grammar.enumEntry :=
  (entry.name.yields.mul (elim (fun literal => (mark .equals).mul literal.yields) _)).spanning _

theorem Requiredness.yields (requiredness : Requiredness) :
    Yields (Spelling.keyword requiredness.keyword)
      (Grammar.keyword .required + Grammar.keyword .optional) := by
  cases requiredness with
  | required => exact (Yields.keyword .required).mono fun _ h => .inl h
  | optional => exact (Yields.keyword .optional).mono fun _ h => .inr h

theorem Field.yields (field : Field) : Yields field.spellings Grammar.field :=
  (((((IntegerLiteral.order_yields field.order).mul (elim Requiredness.yields _)).mul
    field.type.yields).mul field.name.yields).mul
      (elim (fun value => (mark .equals).mul value.yields) _)).spanning _

theorem Argument.yields (argument : Argument) : Yields argument.spellings Grammar.argument :=
  (((IntegerLiteral.order_yields argument.order).mul argument.type.yields).mul
    argument.name.yields).spanning _

theorem Argument.list_yields (arguments : List Argument) :
    Yields (Argument.listSpellings arguments)
      (Grammar.enclosed .openParen Grammar.argument .closeParen) :=
  enclosed _ _ (items Argument.yields arguments)

theorem Method.yields (method : Method) : Yields method.spellings Grammar.method := by
  refine Yields.spanning _ (((Yields.mul ?_ method.returns.yields).mul method.name.yields).mul
    (Argument.list_yields method.arguments) |>.mul ?_)
  · split
    · exact (keyword .oneway).some
    · exact none
  · rintro tokens (h | h)
    · split at h
      · exact none tokens h
      · exact absurd h (Language.notMem_zero tokens)
    · exact ((keyword .throws).mul (Argument.list_yields method.throws)).some tokens h

theorem ConstantDecl.yields (decl : ConstantDecl) : Yields decl.spellings Grammar.constant :=
  (((((keyword .const).mul decl.type.yields).mul decl.name.yields).mul (mark .equals)).mul
    decl.value.yields).spanning _

theorem TypedefDecl.yields (decl : TypedefDecl) : Yields decl.spellings Grammar.typedef :=
  (((keyword .typedef).mul decl.type.yields).mul decl.name.yields).spanning _

theorem EnumDecl.yields (decl : EnumDecl) : Yields decl.spellings Grammar.enum :=
  (((keyword .enum).mul decl.name.yields).mul
    (enclosed _ _ (items EnumEntry.yields decl.entries))).spanning _

theorem StructKind.yields (kind : StructKind) :
    Yields (Spelling.keyword kind.keyword)
      (Grammar.keyword .struct + Grammar.keyword .exception) := by
  cases kind with
  | struct => exact (Yields.keyword .struct).mono fun _ h => .inl h
  | exception => exact (Yields.keyword .exception).mono fun _ h => .inr h

theorem StructDecl.yields (decl : StructDecl) : Yields decl.spellings Grammar.struct :=
  (((StructKind.yields decl.kind).mul decl.name.yields).mul
    (enclosed _ _ (items Field.yields decl.fields))).spanning _

theorem ServiceDecl.yields (decl : ServiceDecl) : Yields decl.spellings Grammar.service :=
  ((((keyword .service).mul decl.name.yields).mul
    (elim (fun parent => (keyword .extending).mul parent.yields) _)).mul
      (enclosed _ _ (items Method.yields decl.methods))).spanning _

theorem Declaration.yields (declaration : Declaration) :
    Yields declaration.spellings Grammar.definition := by
  cases declaration with
  | constant decl => exact decl.yields.mono fun _ h => .inl (.inl (.inl (.inl h)))
  | typedef decl => exact decl.yields.mono fun _ h => .inl (.inl (.inl (.inr h)))
  | enum decl => exact decl.yields.mono fun _ h => .inl (.inl (.inr h))
  | struct decl => exact decl.yields.mono fun _ h => .inl (.inr h)
  | service decl => exact decl.yields.mono fun _ h => .inr h

theorem yields_wordLexeme (word : String) :
    Yields (Spelling.lexeme (Reading.wordLexeme word)) Grammar.segment := by
  refine (lexeme _).mono fun sentence h => ?_
  unfold Reading.wordLexeme at h
  split at h
  · next keyword hkeyword => exact .inr (Language.mem_iSup.2 ⟨keyword, h⟩)
  · exact .inl h

theorem NamespaceDirective.yields (directive : NamespaceDirective) :
    Yields directive.spellings Grammar.naming := by
  refine Yields.spanning _ (((keyword .naming).mul ?_).mul (joined yields_wordLexeme _ _))
  rw [NamespaceDirective.scopeLexeme]
  split
  · exact (mark .star).mono fun _ h => .inr h
  · exact (yields_wordLexeme _).mono fun _ h => .inl h

theorem IncludeDirective.yields (directive : IncludeDirective) :
    Yields directive.spellings Grammar.inclusion :=
  ((keyword .inclusion).mul directive.path.yields).spanning _

theorem Header.yields (header : Header) : Yields header.spellings Grammar.header := by
  cases header with
  | naming directive => exact directive.yields.mono fun _ h => .inr h
  | inclusion directive => exact directive.yields.mono fun _ h => .inl h

theorem Document.yields (document : Document) : Yields document.spellings Grammar.document :=
  (items Header.yields document.headers).mul (items Declaration.yields document.declarations)

end Idl
