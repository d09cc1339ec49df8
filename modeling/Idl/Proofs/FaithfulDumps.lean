import Idl.Proofs.LexicalGrammar
import Idl.Proofs.NodeSpans
import Idl.Proofs.NodeViews
import Idl.Proofs.TreeDumps

/-!
# Dumps are faithful

In a tree that has been parsed no text of a leaf gets in the way of reading its dump: words and
numbers have no line breaks in them, and strings have no quotes. So the tree is found again in its
dump, whatever is written in its strings.
-/
namespace Idl
open Spelling Text
open Idl.Part (NamesNodes wordNames)

/-! ### Words and strings in the tokens of a text -/

namespace Reading

/-- A text with none but word characters in it. -/
def IsWord (text : String) : Prop :=
  ∀ c ∈ text.toList, isWordPart c

theorem IsWord.notMem {text : String} (h : IsWord text) {c : Char} (hc : ¬ isWordPart c) :
    c ∉ text.toList :=
  fun hmem => hc (h c hmem)

theorem isWord_spelling (word : Keyword) : IsWord word.spelling := by
  obtain ⟨c, cs, hspelling, hstart, hparts⟩ := exists_cons_spelling word
  rw [IsWord, hspelling]
  exact List.forall_mem_cons.2 ⟨isWordPart_of_isWordStart hstart, hparts⟩

end Reading

open Reading

namespace Lexeme

/-- Identifiers are words, and strings have no quotes in them. -/
def IsPlain : Lexeme → Prop
  | identifier name => IsWord name
  | string text => '"' ∉ text.toList
  | _ => True

theorem IsPlain.isWord {word : String} (h : (wordLexeme word).IsPlain) : IsWord word := by
  unfold wordLexeme at h
  split at h
  · next keyword hkeyword =>
    rw [← Keyword.spelling_of_ofSpelling? hkeyword]
    exact isWord_spelling keyword
  · exact h

end Lexeme

theorem Lexical.isPlain {offset : Nat} {written rest : List Char} {lexeme : Lexeme}
    (h : Lexical offset written rest lexeme) : lexeme.IsPlain := by
  cases h with
  | string unquoted =>
    change '"' ∉ (String.ofList _).toList
    rwa [String.toList_ofList]
  | identifier start parts =>
    intro d hd
    rw [String.toList_ofList] at hd
    rcases List.mem_cons.1 hd with rfl | hd
    · exact isWordPart_of_isWordStart start
    · exact parts d hd
  | _ => trivial

theorem Source.isPlain_of_mem_tokens {source : Source} {token : Token}
    (h : token ∈ source.tokens) : token.lexeme.IsPlain := by
  obtain ⟨_, _, _, -, -, hlexical⟩ := Token.lexical_of_mem_readAll h
  exact hlexical.isPlain

/-! ### Namespace directives -/

namespace Spelling

/-- A lexeme that is written in a construct is one of the tokens of it. -/
theorem Contains.exists_token {whole : Language Token} {lexeme : Lexeme}
    (h : Contains whole (Spelling.lexeme lexeme)) {tokens : List Token} (htokens : tokens ∈ whole) :
    ∃ token ∈ tokens, token.lexeme = lexeme := by
  obtain ⟨_, ⟨span, rfl⟩, hsublist⟩ := h tokens htokens
  exact ⟨_, hsublist.subset List.mem_cons_self, rfl⟩

end Spelling

/-- What holds of the pieces of a text and of what they are joined with holds of all of it. -/
theorem forall_mem_intercalate {p : Char → Prop} {joint : Char} (hjoint : p joint) :
    ∀ pieces : List (List Char), (∀ piece ∈ pieces, ∀ c ∈ piece, p c) →
      ∀ c ∈ [joint].intercalate pieces, p c
  | [], _ => by simp
  | [piece], h => by
    rw [List.intercalate_singleton]
    exact h piece List.mem_cons_self
  | piece :: next :: pieces, h => by
    rw [List.forall_mem_cons] at h
    have ih := forall_mem_intercalate hjoint (next :: pieces) h.2
    intro c hc
    rw [List.intercalate_cons_cons, List.append_assoc, List.singleton_append, List.mem_append,
      List.mem_cons] at hc
    rcases hc with hc | rfl | hc
    · exact h.1 c hc
    · exact hjoint
    · exact ih c hc

namespace NamespaceDirective

variable {directive : NamespaceDirective} {tokens : List Token}

theorem contains_scope (directive : NamespaceDirective) :
    Contains directive.spellings (lexeme directive.scopeLexeme) :=
  (((Contains.refl _).right _).left _).spanning _

theorem contains_segment {segment : String} (h : segment ∈ directive.segments) :
    Contains directive.spellings (lexeme (wordLexeme segment)) := by
  refine ((?_ : Contains _ _).right _).spanning _
  obtain ⟨head, tail, hsegments⟩ := List.exists_cons_of_ne_nil (List.ne_nil_of_mem h)
  rw [hsegments] at h ⊢
  rcases List.mem_cons.1 h with rfl | h
  · exact (Contains.refl _).left _
  · exact (Contains.prod (List.mem_map_of_mem h) ((Contains.refl _).right _)).right _

/-- A scope is a star or a word. -/
theorem scope_eq_or_isWord (htokens : tokens ∈ directive.spellings)
    (hplain : ∀ token ∈ tokens, token.lexeme.IsPlain) :
    directive.scope = "*" ∨ IsWord directive.scope := by
  obtain ⟨token, htoken, hlexeme⟩ := directive.contains_scope.exists_token htokens
  have hscope := hlexeme ▸ hplain token htoken
  unfold scopeLexeme at hscope
  split at hscope
  · next heq => exact .inl heq
  · exact .inr hscope.isWord

/-- A name is made of words and the dots between them. -/
theorem eq_dot_or_isWordPart (htokens : tokens ∈ directive.spellings)
    (hplain : ∀ token ∈ tokens, token.lexeme.IsPlain) :
    ∀ c ∈ directive.name.toList, c = '.' ∨ isWordPart c := by
  rw [← @List.intercalate_splitOn _ directive.name.toList _ _ '.']
  apply @forall_mem_intercalate (fun c => c = '.' ∨ isWordPart c) '.' (.inl rfl)
  intro piece hpiece
  have hsegment : String.ofList piece ∈ directive.segments := List.mem_map_of_mem hpiece
  obtain ⟨token, htoken, hlexeme⟩ := (contains_segment hsegment).exists_token htokens
  have hword := (hlexeme ▸ hplain token htoken : (wordLexeme _).IsPlain).isWord
  rw [IsWord, String.toList_ofList] at hword
  exact fun c hc => .inr (hword c hc)

/-- The text of a directive is on one line. -/
theorem newline_notMem (htokens : tokens ∈ directive.spellings)
    (hplain : ∀ token ∈ tokens, token.lexeme.IsPlain) :
    '\n' ∉ (directive.scope ++ " " ++ directive.name).toList := by
  have hscope : '\n' ∉ directive.scope.toList := by
    rcases scope_eq_or_isWord htokens hplain with heq | hword
    · rw [heq]
      decide
    · exact hword.notMem (by decide)
  have hname : '\n' ∉ directive.name.toList := by
    intro h
    rcases eq_dot_or_isWordPart htokens hplain '\n' h with h | h
    · cases h
    · exact absurd h (by decide)
  simp [hscope, hname]

end NamespaceDirective

/-! ### Nodes -/

section

variable {tokens : List Token}

theorem Identifier.isPlain_toNode {identifier : Identifier}
    (htokens : tokens ∈ identifier.spellings) (hplain : ∀ token ∈ tokens, token.lexeme.IsPlain) :
    identifier.toNode.IsPlain := by
  obtain ⟨⟨span, rfl⟩, -⟩ := htokens
  have hword : IsWord identifier.text := hplain _ List.mem_cons_self
  exact .leaf (by decide) _ (hword.notMem (by decide))

theorem IntegerLiteral.isPlain_toNode (literal : IntegerLiteral) : literal.toNode.IsPlain := by
  have hnat := @notMem_toString '\n' (by decide)
  have hvalue : '\n' ∉ (toString literal.value).toList := by
    cases literal.value with
    | ofNat n => exact hnat n
    | negSucc n =>
      change '\n' ∉ ("-" ++ toString (n + 1)).toList
      rw [String.toList_append, List.mem_append, not_or]
      exact ⟨by decide, hnat (n + 1)⟩
  exact .leaf (by decide) _ hvalue

theorem StringLiteral.isPlain_toNode {literal : StringLiteral}
    (htokens : tokens ∈ literal.spellings) (hplain : ∀ token ∈ tokens, token.lexeme.IsPlain) :
    literal.toNode.IsPlain := by
  obtain ⟨⟨span, rfl⟩, -⟩ := htokens
  exact .string _ (hplain _ List.mem_cons_self)

theorem Name.isPlain_toNode (name : Name) : name.toNode.IsPlain :=
  .branch _ _ (by simp [NamesNodes, wordNames])

theorem TypeRef.isPlain_toNode (type : TypeRef) : type.toNode.IsPlain := by
  cases type with
  | builtin type span => exact .leaf (by decide) _ (by cases type <;> decide)
  | name n => exact n.isPlain_toNode
  | _ => exact .branch _ _ (by simp [NamesNodes, wordNames])

theorem Expr.isPlain_toParts (entries : List (Expr × Expr)) :
    ∀ part ∈ Expr.toParts entries, part.IsPlain := by
  induction entries with
  | nil => simp [Expr.toParts]
  | cons entry entries ih =>
    rw [Expr.toParts, List.forall_mem_cons, List.forall_mem_cons]
    exact ⟨by simp [NamesNodes, wordNames], by simp [NamesNodes, wordNames], ih⟩

theorem Expr.isPlain_toNode {expr : Expr}
    (htokens : tokens ∈ expr.spellings) (hplain : ∀ token ∈ tokens, token.lexeme.IsPlain) :
    expr.toNode.IsPlain := by
  cases expr with
  | integer literal =>
    rw [toNode]
    exact literal.isPlain_toNode
  | string literal =>
    rw [spellings] at htokens
    rw [toNode]
    exact StringLiteral.isPlain_toNode htokens hplain
  | bool value span =>
    rw [toNode]
    exact .leaf (by decide) _ (by cases value <;> decide)
  | list elements span =>
    rw [toNode]
    exact .branch _ _ (by simp [NamesNodes, wordNames])
  | map entries span =>
    rw [toNode]
    exact .branch _ _ (isPlain_toParts entries)
  | name n =>
    rw [toNode]
    exact n.isPlain_toNode

theorem Field.isPlain_toNode (field : Field) : field.toNode.IsPlain := by
  have hrequiredness :
      '\n' ∉ ((field.requiredness.map Requiredness.text).getD "<none>").toList := by
    rcases field.requiredness with _ | _ | _ <;> decide
  exact .branch _ _ (by simp [NamesNodes, wordNames, hrequiredness])

theorem Method.isPlain_toNode (method : Method) : method.toNode.IsPlain := by
  have honeway : '\n' ∉ (if method.oneway then "true" else "false").toList := by
    cases method.oneway <;> decide
  exact .branch _ _ (by simp [NamesNodes, wordNames, honeway])

theorem Declaration.isPlain_toNode (declaration : Declaration) :
    declaration.toNode.IsPlain := by
  cases declaration with
  | struct decl =>
    have hkind : '\n' ∉ decl.kind.text.toList := by
      cases decl.kind <;> decide
    exact .branch _ _ (by simp [NamesNodes, wordNames, hkind])
  | _ => exact .branch _ _ (by simp [NamesNodes, wordNames])

theorem Header.isPlain_toNode {header : Header}
    (htokens : tokens ∈ header.spellings) (hplain : ∀ token ∈ tokens, token.lexeme.IsPlain) :
    header.toNode.IsPlain := by
  cases header with
  | naming directive =>
    exact .leaf (by decide) _ (NamespaceDirective.newline_notMem htokens hplain)
  | inclusion directive => exact .branch _ _ (by simp [NamesNodes, wordNames])

/-- A node that is derived from plain tokens is plain. -/
theorem Node.Derived.isPlain {node : Node} (h : node.Derived tokens)
    (hplain : ∀ token ∈ tokens, token.lexeme.IsPlain) : node.IsPlain := by
  cases h with
  | intro rule htokens =>
    cases rule with
    | identifier => exact Identifier.isPlain_toNode htokens hplain
    | integer literal => exact literal.isPlain_toNode
    | string => exact StringLiteral.isPlain_toNode htokens hplain
    | name name => exact name.isPlain_toNode
    | type type => exact type.isPlain_toNode
    | expr => exact Expr.isPlain_toNode htokens hplain
    | enumEntry | argument => exact .branch _ _ (by simp [NamesNodes, wordNames])
    | field field => exact field.isPlain_toNode
    | method method => exact method.isPlain_toNode
    | declaration declaration => exact declaration.isPlain_toNode
    | header => exact Header.isPlain_toNode htokens hplain

end

/-! ### Documents -/

namespace Source

variable {source : Source} {parsed : ParsedDocument}

theorem allPlain_of_parse (h : source.parse = .ok parsed) : parsed.document.toNode.AllPlain := by
  intro node hnode
  rw [Node.nodes_eq] at hnode
  rcases List.mem_cons.1 hnode with rfl | hnode
  · exact .branch _ _ (by simp [NamesNodes, wordNames])
  · obtain ⟨run, hrun, hderived⟩ := exists_run_of_parse h node hnode
    apply hderived.isPlain
    intro token htoken
    exact isPlain_of_mem_tokens (List.mem_of_mem_dropLast (hrun.subset htoken))

theorem blank_notMem_scope_of_parse (h : source.parse = .ok parsed) :
    ∀ directive ∈ parsed.document.namespaces, ' ' ∉ directive.scope.toList := by
  intro directive hdirective
  have hspec := source.parse_spec
  rw [h] at hspec
  have hheader : Header.naming directive ∈ parsed.document.headers := by
    rw [Document.headers, List.mem_merge]
    exact .inl (List.mem_map_of_mem hdirective)
  have hcontains : Contains parsed.document.spellings directive.spellings :=
    (Contains.items hheader (.refl _)).left _
  obtain ⟨piece, hpiece, hsublist⟩ := hcontains _ hspec.1
  rcases NamespaceDirective.scope_eq_or_isWord hpiece fun token htoken =>
      isPlain_of_mem_tokens (List.mem_of_mem_dropLast (hsublist.subset htoken)) with heq | hword
  · rw [heq]
    decide
  · exact hword.notMem (by decide)

end Source

/-- The scope of a directive goes up to the first blank. -/
theorem NamespaceDirective.eq_of_toNode_eq {directive directive' : NamespaceDirective}
    (hscope : ' ' ∉ directive.scope.toList) (hscope' : ' ' ∉ directive'.scope.toList)
    (heq : directive.toNode = directive'.toNode) : directive = directive' := by
  obtain ⟨scope, name, span⟩ := directive
  obtain ⟨scope', name', span'⟩ := directive'
  simp only [toNode, Node.leaf.injEq, true_and] at heq
  obtain ⟨rfl, htext⟩ := heq
  obtain ⟨rfl, rfl⟩ := @Tells.upTo _ _ ' ' " " rfl hscope hscope' name name' htext
  rfl

theorem NamespaceDirective.eq_of_map_toNode_eq : ∀ {list list' : List NamespaceDirective},
    (∀ directive ∈ list, ' ' ∉ directive.scope.toList) →
      (∀ directive ∈ list', ' ' ∉ directive.scope.toList) →
        list.map toNode = list'.map toNode → list = list'
  | [], [], _, _, _ => rfl
  | [], _ :: _, _, _, heq => by simp at heq
  | _ :: _, [], _, _, heq => by simp at heq
  | directive :: list, directive' :: list', h, h', heq => by
    rw [List.forall_mem_cons] at h h'
    rw [List.map_cons, List.map_cons, List.cons.injEq] at heq
    rw [eq_of_toNode_eq h.1 h'.1 heq.1, eq_of_map_toNode_eq h.2 h'.2 heq.2]

theorem Document.eq_of_toNode_eq {document document' : Document}
    (h : ∀ directive ∈ document.namespaces, ' ' ∉ directive.scope.toList)
    (h' : ∀ directive ∈ document'.namespaces, ' ' ∉ directive.scope.toList)
    (heq : document.toNode = document'.toNode) : document = document' := by
  obtain ⟨namespaces, includes, declarations, span⟩ := document
  obtain ⟨namespaces', includes', declarations', span'⟩ := document'
  simp only [toNode, Node.branch.injEq, List.cons.injEq, Part.many.injEq, true_and, and_true,
    List.map_inj_right IncludeDirective.toNode_injective,
    List.map_inj_right Declaration.toNode_injective] at heq
  obtain ⟨rfl, hnamespaces, rfl, rfl⟩ := heq
  obtain rfl := NamespaceDirective.eq_of_map_toNode_eq h h' hnamespaces
  rfl

namespace Source

/-- Tree dumps are faithful. If the trees of two files have the same dump they are the same tree,
with the same nodes in the same places, whatever is written in their strings and however their
texts differ. -/
theorem document_eq_of_dump_eq {source source' : Source} {parsed parsed' : ParsedDocument}
    (h : source.parse = .ok parsed) (h' : source'.parse = .ok parsed')
    (hdump : parsed.document.dump source = parsed'.document.dump source') :
    parsed.document = parsed'.document := by
  have hnode : parsed.document.toNode = parsed'.document.toNode :=
    Node.eq_of_dump_eq (allPlain_of_parse h) (allPlain_of_parse h') hdump
  exact Document.eq_of_toNode_eq (blank_notMem_scope_of_parse h) (blank_notMem_scope_of_parse h')
    hnode

/-- The text of the string goes on as the dump does that it is put in. The blank in front of it may
be any. -/
def forgedFile (blank : Char) : Source :=
  ⟨"forged.thrift", "namespace * a.b\nconst string S =" ++ String.singleton blank ++
    "\"\n    \x7d\n  ]\n\x7d\n\""⟩

def forgedTree : ParsedDocument where
  document :=
    { namespaces := [⟨"*", "a.b", ⟨0, 15⟩⟩]
      includes := []
      declarations := [.constant ⟨.builtin .string ⟨22, 28⟩, ⟨"S", ⟨29, 30⟩⟩,
        .string ⟨"\n    \x7d\n  ]\n\x7d\n", ⟨33, 48⟩⟩, ⟨16, 48⟩⟩]
      span := ⟨0, 48⟩ }
  nodes := 6

theorem parse_forgedFile {blank : Char} (h : blank = ' ' ∨ blank = '\t') :
    (forgedFile blank).parse = .ok forgedTree := by
  have htokens : (forgedFile blank).tokens =
      [⟨.keyword .naming, ⟨0, 9⟩⟩, ⟨.mark .star, ⟨10, 11⟩⟩, ⟨.identifier "a", ⟨12, 13⟩⟩,
        ⟨.mark .dot, ⟨13, 14⟩⟩, ⟨.identifier "b", ⟨14, 15⟩⟩, ⟨.keyword .const, ⟨16, 21⟩⟩,
        ⟨.keyword .string, ⟨22, 28⟩⟩, ⟨.identifier "S", ⟨29, 30⟩⟩, ⟨.mark .equals, ⟨31, 32⟩⟩,
        ⟨.string "\n    \x7d\n  ]\n\x7d\n", ⟨33, 48⟩⟩, ⟨.finish, ⟨48, 48⟩⟩] := by
    rcases h with rfl | rfl <;> decide +kernel
  rw [parse, htokens]
  decide +kernel

theorem document_eq_of_dump_eq_forgedFile :
    ∃ parsed parsed', (forgedFile ' ').parse = .ok parsed ∧ (forgedFile '\t').parse = .ok parsed' ∧
      parsed.document.dump (forgedFile ' ') = parsed'.document.dump (forgedFile '\t') ∧
      parsed.document = parsed'.document := by
  have hdump : forgedTree.document.dump (forgedFile ' ') =
      forgedTree.document.dump (forgedFile '\t') := by
    decide +kernel
  have h := parse_forgedFile (.inl rfl)
  have h' := parse_forgedFile (.inr rfl)
  exact ⟨forgedTree, forgedTree, h, h', hdump, document_eq_of_dump_eq h h' hdump⟩

end Source

end Idl
