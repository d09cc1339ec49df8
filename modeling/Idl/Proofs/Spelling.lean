import Idl.Proofs.Grammar
import Idl.Token.Lexer

/-!
# Reading a tree back as tokens

The token sequences that spell a syntax tree: the derivation that the tree stands for, written
out. Words, names and literals are taken from the data of the nodes, and every node begins and ends
where its first and last tokens do. What a tree leaves open is only which separators follow its
items and where the other tokens lie.
-/
namespace Idl

namespace Spelling
open Computability

def lexeme (lexeme : Lexeme) : Language Token := {tokens | ∃ span, tokens = [⟨lexeme, span⟩]}

def keyword (word : Keyword) : Language Token := lexeme (.keyword word)

def mark (mark : Mark) : Language Token := lexeme (.mark mark)

/-- At most one comma or semicolon. -/
def separator : Language Token := 1 + (mark .comma + mark .semicolon)

/-- The sequences that begin and end where the span does. -/
def spanning (span : Span) (language : Language Token) : Language Token :=
  {tokens | tokens ∈ language ∧ tokens.head?.map (·.span.start) = some span.start ∧
    tokens.getLast?.map (·.span.stop) = some span.stop}

/-- The sequences that spell the items in order, each with an optional separator after it. -/
def items {α : Type} (spelling : α → Language Token) (list : List α) : Language Token :=
  (list.map fun item => spelling item * separator).prod

/-- Items between an opening and a closing mark. -/
def enclosed (opening : Mark) (items : Language Token) (closing : Mark) : Language Token :=
  mark opening * items * mark closing

/-- Words joined by dots. -/
def joined {α : Type} (spelling : α → Language Token) (head : α) (tail : List α) : Language Token :=
  spelling head * (tail.map fun next => mark .dot * spelling next).prod

end Spelling

open Spelling

def Identifier.spellings (identifier : Identifier) : Language Token :=
  spanning identifier.span (lexeme (.identifier identifier.text))

def IntegerLiteral.spellings (literal : IntegerLiteral) : Language Token :=
  spanning literal.span (lexeme (.integer literal.value))

def StringLiteral.spellings (literal : StringLiteral) : Language Token :=
  spanning literal.span (lexeme (.string literal.text))

def Name.spellings (name : Name) : Language Token :=
  spanning name.span (joined Identifier.spellings name.head name.tail)

def TypeRef.spellings : TypeRef → Language Token
  | builtin type span => spanning span (keyword type.keyword)
  | list element span =>
    spanning span (keyword .list * mark .less * element.spellings * mark .greater)
  | map key value span =>
    spanning span (keyword .map * mark .less * key.spellings * mark .comma * value.spellings *
      mark .greater)
  | name n => n.spellings

mutual

def Expr.spellings : Expr → Language Token
  | .integer literal => literal.spellings
  | .string literal => literal.spellings
  | .bool value span => spanning span (keyword (if value then .truth else .falsehood))
  | .list elements span =>
    spanning span (enclosed .openBracket (Expr.elementSpellings elements) .closeBracket)
  | .map entries span =>
    spanning span (enclosed .openBrace (Expr.entrySpellings entries) .closeBrace)
  | .name n => n.spellings

def Expr.elementSpellings : List Expr → Language Token
  | [] => 1
  | element :: elements => element.spellings * separator * Expr.elementSpellings elements

def Expr.entrySpellings : List (Expr × Expr) → Language Token
  | [] => 1
  | (key, value) :: entries =>
    key.spellings * mark .colon * value.spellings * separator * Expr.entrySpellings entries

end

/-- The order in front of a field or argument. -/
def IntegerLiteral.orderSpellings (order : Option IntegerLiteral) : Language Token :=
  order.elim 1 fun literal => literal.spellings * mark .colon

def Requiredness.keyword : Requiredness → Keyword
  | required => .required
  | optional => .optional

def EnumEntry.spellings (entry : EnumEntry) : Language Token :=
  spanning entry.span
    (entry.name.spellings * entry.value.elim 1 fun literal => mark .equals * literal.spellings)

def Field.spellings (field : Field) : Language Token :=
  spanning field.span
    (IntegerLiteral.orderSpellings field.order *
      field.requiredness.elim 1 (fun requiredness => keyword requiredness.keyword) *
      field.type.spellings * field.name.spellings *
      field.default.elim 1 fun value => mark .equals * value.spellings)

def Argument.spellings (argument : Argument) : Language Token :=
  spanning argument.span
    (IntegerLiteral.orderSpellings argument.order * argument.type.spellings *
      argument.name.spellings)

/-- The arguments of a method, or the exceptions that it throws. -/
def Argument.listSpellings (arguments : List Argument) : Language Token :=
  enclosed .openParen (items Argument.spellings arguments) .closeParen

/-- A method that throws nothing may be written with an empty list of exceptions or without one. -/
def Method.spellings (method : Method) : Language Token :=
  spanning method.span
    ((if method.oneway then keyword .oneway else 1) * method.returns.spellings *
      method.name.spellings * Argument.listSpellings method.arguments *
      ((if method.throws = [] then 1 else 0) +
        keyword .throws * Argument.listSpellings method.throws))

def ConstantDecl.spellings (decl : ConstantDecl) : Language Token :=
  spanning decl.span
    (keyword .const * decl.type.spellings * decl.name.spellings * mark .equals *
      decl.value.spellings)

def TypedefDecl.spellings (decl : TypedefDecl) : Language Token :=
  spanning decl.span (keyword .typedef * decl.type.spellings * decl.name.spellings)

def EnumDecl.spellings (decl : EnumDecl) : Language Token :=
  spanning decl.span
    (keyword .enum * decl.name.spellings *
      enclosed .openBrace (items EnumEntry.spellings decl.entries) .closeBrace)

def StructKind.keyword : StructKind → Keyword
  | struct => .struct
  | exception => .exception

def StructDecl.spellings (decl : StructDecl) : Language Token :=
  spanning decl.span
    (keyword decl.kind.keyword * decl.name.spellings *
      enclosed .openBrace (items Field.spellings decl.fields) .closeBrace)

def ServiceDecl.spellings (decl : ServiceDecl) : Language Token :=
  spanning decl.span
    (keyword .service * decl.name.spellings *
      decl.parent.elim 1 (fun parent => keyword .extending * parent.spellings) *
      enclosed .openBrace (items Method.spellings decl.methods) .closeBrace)

def Declaration.spellings : Declaration → Language Token
  | constant decl => decl.spellings
  | typedef decl => decl.spellings
  | enum decl => decl.spellings
  | struct decl => decl.spellings
  | service decl => decl.spellings

/-- The parts of the package that is named. -/
def NamespaceDirective.segments (directive : NamespaceDirective) : List String :=
  (directive.name.toList.splitOn '.').map String.ofList

/-- The lexeme of the scope, which is a star if the package is for all languages. -/
def NamespaceDirective.scopeLexeme (directive : NamespaceDirective) : Lexeme :=
  if directive.scope = "*" then .mark .star else Reading.wordLexeme directive.scope

def NamespaceDirective.spellings (directive : NamespaceDirective) : Language Token :=
  spanning directive.span
    (keyword .naming * lexeme directive.scopeLexeme *
      joined (fun segment => lexeme (Reading.wordLexeme segment)) (directive.segments.headD "")
        directive.segments.tail)

def IncludeDirective.spellings (directive : IncludeDirective) : Language Token :=
  spanning directive.span (keyword .inclusion * directive.path.spellings)

/-- A directive at the top of a file. -/
inductive Header where
  | naming (directive : NamespaceDirective)
  | inclusion (directive : IncludeDirective)

namespace Header

def span : Header → Span
  | naming directive => directive.span
  | inclusion directive => directive.span

def spellings : Header → Language Token
  | naming directive => directive.spellings
  | inclusion directive => directive.spellings

end Header

/-- The directives at the top of a file, in the order in which they are written. -/
def Document.headers (document : Document) : List Header :=
  List.merge (document.namespaces.map Header.naming) (document.includes.map Header.inclusion)
    fun first second => first.span.start ≤ second.span.start

def Document.spellings (document : Document) : Language Token :=
  items Header.spellings document.headers * items Declaration.spellings document.declarations

/-! ### Parts of a spelling -/

namespace Spelling

/-- Every sequence of the one language has a sequence of the other within it. -/
def Contains (whole part : Language Token) : Prop :=
  ∀ tokens ∈ whole, ∃ piece ∈ part, piece.Sublist tokens

namespace Contains

variable {whole part : Language Token}

theorem refl (part : Language Token) : Contains part part :=
  fun tokens htokens => ⟨tokens, htokens, List.Sublist.refl tokens⟩

theorem spanning (h : Contains whole part) (span : Span) :
    Contains (Spelling.spanning span whole) part :=
  fun tokens htokens => h tokens htokens.1

theorem left (h : Contains whole part) (other : Language Token) :
    Contains (whole * other) part := by
  rintro _ ⟨first, hfirst, second, -, rfl⟩
  obtain ⟨piece, hpiece, hsublist⟩ := h first hfirst
  exact ⟨piece, hpiece, hsublist.trans (List.sublist_append_left first second)⟩

theorem right (h : Contains whole part) (other : Language Token) :
    Contains (other * whole) part := by
  rintro _ ⟨first, -, second, hsecond, rfl⟩
  obtain ⟨piece, hpiece, hsublist⟩ := h second hsecond
  exact ⟨piece, hpiece, hsublist.trans (List.sublist_append_right first second)⟩

theorem prod {languages : List (Language Token)} (hmem : whole ∈ languages)
    (h : Contains whole part) : Contains languages.prod part := by
  induction languages with
  | nil => exact absurd hmem List.not_mem_nil
  | cons first languages ih =>
    rw [List.prod_cons]
    rcases List.mem_cons.1 hmem with rfl | hmem
    · exact h.left _
    · exact (ih hmem).right _

theorem items {α : Type} {spelling : α → Language Token} {item : α} {list : List α}
    (hmem : item ∈ list) (h : Contains (spelling item) part) :
    Contains (Spelling.items spelling list) part :=
  prod (List.mem_map_of_mem hmem) (h.left separator)

end Contains

/-- The tokens of a sequence that lie in a span: it starts with the first and stops with the
last. -/
theorem exists_ends {span : Span} {language : Language Token} {tokens : List Token}
    (h : tokens ∈ spanning span language) :
    ∃ first ∈ tokens, ∃ last ∈ tokens, first.span.start = span.start ∧
      last.span.stop = span.stop ∧ (first = last ∨ [first, last].Sublist tokens) := by
  obtain ⟨-, hhead, hlast⟩ := h
  cases tokens with
  | nil => cases hhead
  | cons first rest =>
    have hstart : first.span.start = span.start := Option.some.inj hhead
    rcases List.eq_nil_or_concat' rest with rfl | ⟨before, last, rfl⟩
    · have hstop : first.span.stop = span.stop := Option.some.inj hlast
      exact ⟨first, List.mem_cons_self, first, List.mem_cons_self, hstart, hstop, .inl rfl⟩
    · have hstop : last.span.stop = span.stop := by
        rw [← List.cons_append, List.getLast?_concat] at hlast
        exact Option.some.inj hlast
      have hsublist : [last].Sublist (before ++ [last]) := List.sublist_append_right _ _
      refine ⟨first, List.mem_cons_self, last, ?_, hstart, hstop, .inr (hsublist.cons_cons first)⟩
      exact List.mem_cons_of_mem _ (hsublist.subset List.mem_cons_self)

end Spelling

end Idl
