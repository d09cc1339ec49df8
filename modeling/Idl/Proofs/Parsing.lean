import Idl.Proofs.Derivation
import Idl.Proofs.ParserCompleteness
import Idl.Proofs.ParserSoundness

/-!
# The parser and the grammar

A file is parsed exactly if its tokens form a sentence of the grammar, and the tree that comes out
reads back as those tokens. If a file is not parsed, one of its tokens is reported.
-/
namespace Idl

theorem Header.exists_start {header : Header} {tokens : List Token}
    (h : tokens ∈ header.spellings) :
    ∃ token rest, tokens = token :: rest ∧ token.span.start = header.span.start := by
  have hspanning : ∃ spelling, tokens ∈ Spelling.spanning header.span spelling := by
    cases header <;> exact ⟨_, h⟩
  obtain ⟨_, -, hhead, -⟩ := hspanning
  cases tokens with
  | nil => cases hhead
  | cons token rest => exact ⟨token, rest, rfl, Option.some.inj hhead⟩

theorem Header.exists_start_of_mem {header : Header} {list : List Header} (hheader : header ∈ list)
    {tokens : List Token} (htokens : tokens ∈ Spelling.items Header.spellings list) :
    ∃ token ∈ tokens, token.span.start = header.span.start := by
  obtain ⟨piece, hpiece, hsublist⟩ :=
    Spelling.Contains.items hheader (.refl header.spellings) tokens htokens
  obtain ⟨token, rest, rfl, hstart⟩ := Header.exists_start hpiece
  exact ⟨token, hsublist.subset List.mem_cons_self, hstart⟩

/-- Headers lie in the file in the order of their spans. -/
theorem Header.pairwise_start {list : List Header} {tokens : List Token}
    (htokens : tokens ∈ Spelling.items Header.spellings list)
    (hsorted : tokens.Pairwise fun token next => token.span.start < next.span.start) :
    list.Pairwise fun header next => header.span.start < next.span.start := by
  induction list generalizing tokens with
  | nil => exact .nil
  | cons first list ih =>
    rw [Spelling.items, List.map_cons, List.prod_cons] at htokens
    obtain ⟨_, ⟨spelling, hspelling, sep, -, rfl⟩, rest, hrest, rfl⟩ := htokens
    obtain ⟨-, hrestSorted, hbefore⟩ := List.pairwise_append.1 hsorted
    apply List.Pairwise.cons
    · intro header hheader
      obtain ⟨token, tail, rfl, hstart⟩ := Header.exists_start hspelling
      obtain ⟨other, hother, hotherStart⟩ := Header.exists_start_of_mem hheader hrest
      rw [← hstart, ← hotherStart]
      exact hbefore token (by simp) other hother
    · exact ih hrest hrestSorted

theorem Header.mem_of_mem_partition {list : List Header} :
    (∀ directive ∈ (Parser.partitionHeaders list).1, naming directive ∈ list) ∧
      ∀ directive ∈ (Parser.partitionHeaders list).2, inclusion directive ∈ list := by
  induction list with
  | nil => exact ⟨by simp [Parser.partitionHeaders], by simp [Parser.partitionHeaders]⟩
  | cons header list ih =>
    cases header <;> simp only [Parser.partitionHeaders, List.mem_cons] <;> grind

/-- Headers in the order of their spans are what merging the two sorts of directives gives. -/
theorem Header.merge_partition {list : List Header}
    (hsorted : list.Pairwise fun header next => header.span.start < next.span.start) :
    List.merge ((Parser.partitionHeaders list).1.map Header.naming)
      ((Parser.partitionHeaders list).2.map Header.inclusion)
      (fun first second => first.span.start ≤ second.span.start) = list := by
  induction list with
  | nil => simp [Parser.partitionHeaders]
  | cons header list ih =>
    obtain ⟨hfirst, hrest⟩ := List.pairwise_cons.1 hsorted
    obtain ⟨hnaming, hinclusion⟩ := @Header.mem_of_mem_partition list
    cases header with
    | naming directive =>
      rw [Parser.partitionHeaders, List.map_cons]
      cases hincludes : (Parser.partitionHeaders list).2 with
      | nil =>
        have h := ih hrest
        rw [hincludes] at h
        simp only [List.map_nil, List.merge_right] at h ⊢
        rw [h]
      | cons next includes =>
        have hle := hfirst _ (hinclusion next (by simp [hincludes]))
        rw [List.map_cons, List.cons_merge_cons_pos _ _ _ (by simpa using hle.le),
          ← List.map_cons, ← hincludes, ih hrest]
    | inclusion directive =>
      rw [Parser.partitionHeaders, List.map_cons]
      cases hnamespaces : (Parser.partitionHeaders list).1 with
      | nil =>
        have h := ih hrest
        rw [hnamespaces] at h
        simp only [List.map_nil, List.nil_merge] at h ⊢
        rw [h]
      | cons next namespaces =>
        have hlt := hfirst _ (hnaming next (by simp [hnamespaces]))
        rw [List.map_cons, List.cons_merge_cons_neg _ _ _ (by simpa using hlt),
          ← List.map_cons, ← hnamespaces, ih hrest]

namespace Parser

theorem isFault_kind (lexeme : Lexeme) :
    lexeme.kind.isFault = false ↔ faultMessage? lexeme = none := by
  cases lexeme <;> simp [faultMessage?, Lexeme.kind, TokenKind.isFault]

end Parser

namespace Source

theorem exists_tokens (source : Source) :
    ∃ tokens last, source.tokens = tokens ++ [last] ∧ last.lexeme = .finish := by
  have hne : source.tokens ≠ [] := Token.readAll_ne_nil 0 source.chars
  have hlast := Token.getLast?_readAll 0 source.chars
  change source.tokens.getLast?.map Token.lexeme = some .finish at hlast
  rw [List.getLast?_eq_getLast_of_ne_nil hne, Option.map_some, Option.some.injEq] at hlast
  exact ⟨_, _, (List.dropLast_append_getLast hne).symm, hlast⟩

theorem pairwise_start_tokens (source : Source) :
    source.tokens.Pairwise fun token next => token.span.start < next.span.start :=
  (Token.pairwise_readAll 0 source.chars).imp fun h => h.1.trans_le h.2

theorem parse_of_run {source : Source} {result : Except ParseFailure (Document × ParserState)}
    (h : (Parser.document source.tokens.length).run ⟨source.tokens, 0, 0⟩ = result) :
    source.parse = result.map fun (document, state) => ⟨document, state.nodes⟩ := by
  rw [← h]
  rfl

/-- A file is parsed into a tree that reads back as its tokens, or one of its tokens is blamed. -/
theorem parse_spec (source : Source) :
    match source.parse with
    | .ok parsed =>
      source.tokens.dropLast ∈ parsed.document.spellings ∧
        ∀ token ∈ source.tokens, Parser.faultMessage? token.lexeme = none
    | .error failure => Parser.Blames source.tokens failure := by
  let initial : ParserState := ⟨source.tokens, 0, 0⟩
  have hclosed : Token.Closed initial.tokens := Token.closed_readAll 0 source.chars
  have hparse : Parser.Ensures (Parser.Blames source.tokens) _ initial _ :=
    Parser.ensures_document (fun _ h => Token.isProper_of_mem_readAll h) source.tokens.length
      (fun _ h => h) hclosed le_rfl
  unfold Parser.Ensures at hparse
  cases hrun : (Parser.document source.tokens.length).run initial with
  | error failure =>
    rw [hrun] at hparse
    rw [parse_of_run hrun]
    exact hparse
  | ok result =>
    obtain ⟨document, last⟩ := result
    rw [hrun] at hparse
    rw [parse_of_run hrun]
    obtain ⟨⟨list, hlist, hconsumes⟩, hfinish⟩ := hparse
    obtain ⟨tokens, htokens, hsource, -, hfault⟩ := hconsumes.exists_tokens
    rw [hconsumes.ready.eq_singleton hfinish] at hsource
    change source.tokens = tokens ++ [last.current] at hsource
    obtain ⟨headers, hheaders, declarations, hdeclarations, rfl⟩ := htokens
    have hsorted := source.pairwise_start_tokens
    rw [hsource, List.append_assoc] at hsorted
    -- the parser sorts the headers apart, and their places bring them back together
    have horder := Header.merge_partition
      (Header.pairwise_start hheaders (List.pairwise_append.1 hsorted).1)
    obtain ⟨hnamespaces, hincludes⟩ := Prod.mk.inj hlist
    refine ⟨?_, ?_⟩
    · rw [hsource, List.dropLast_concat]
      refine Language.append_mem_mul ?_ hdeclarations
      rwa [Document.headers, hnamespaces, hincludes, horder]
    · intro token htoken
      rw [hsource] at htoken
      rcases List.mem_append.1 htoken with htoken | htoken
      · exact hfault token htoken
      · obtain rfl := List.mem_singleton.1 htoken
        rw [hfinish]
        rfl

/-- A file that is not parsed has exactly one report about it, about its syntax, at one of its
tokens. -/
theorem exists_syntaxError_of_parse_error {source : Source} {failure : ParseFailure}
    (h : source.parse = .error failure) :
    ∃ token ∈ source.tokens, ∃ message : Message, message.isSyntaxError = true ∧
      failure = .fault (.error token.span message) := by
  have hparse := source.parse_spec
  rwa [h] at hparse

theorem exists_token_of_parse_error {source : Source} {failure : ParseFailure}
    (h : source.parse = .error failure) :
    ∃ token ∈ source.tokens, ∃ message, failure = .fault (.error token.span message) := by
  obtain ⟨token, htoken, message, -, hfailure⟩ := exists_syntaxError_of_parse_error h
  exact ⟨token, htoken, message, hfailure⟩

theorem parse_of_mem_grammar {source : Source}
    (hfault : ∀ token ∈ source.tokens, Parser.faultMessage? token.lexeme = none)
    (hsentence : source.tokens.dropLast.map Token.kind ∈ Grammar.document) :
    ∃ parsed, source.parse = .ok parsed := by
  obtain ⟨tokens, last, htokens, hlast⟩ := source.exists_tokens
  let initial : ParserState := ⟨source.tokens, 0, 0⟩
  rw [htokens, List.dropLast_concat] at hsentence
  have hkinds : source.tokens.map Token.kind = tokens.map Token.kind ++ [.finish] := by
    rw [htokens, List.map_append, List.map_singleton, Token.kind, hlast]
    rfl
  have hshows : initial.Shows (tokens.map Token.kind ++ [.finish]) := ⟨hkinds, hfault⟩
  have hlength := congrArg List.length hkinds
  rw [List.length_map] at hlength
  have hparse := Parser.takes_document hsentence hshows hlength.ge
  unfold Parser.Takes Parser.Ensures at hparse
  cases hrun : (Parser.document source.tokens.length).run initial with
  | error failure =>
    rw [hrun] at hparse
    exact hparse.elim
  | ok result => exact ⟨_, parse_of_run hrun⟩

/-- The parser accepts exactly the grammar. A file is parsed if and only if none of its tokens is a
lexical fault and their kinds form a sentence, and then the tokens spell the tree: they are what
the tree reads back as. -/
theorem parse_iff_mem_grammar (source : Source) :
    ((∃ parsed, source.parse = .ok parsed) ↔
      (∀ token ∈ source.tokens, token.kind.isFault = false) ∧
        source.tokens.dropLast.map Token.kind ∈ Grammar.document) ∧
      ∀ parsed, source.parse = .ok parsed →
        source.tokens.dropLast ∈ parsed.document.spellings := by
  have hspec : ∀ parsed, source.parse = .ok parsed →
      source.tokens.dropLast ∈ parsed.document.spellings ∧
        ∀ token ∈ source.tokens, Parser.faultMessage? token.lexeme = none := by
    intro parsed hparsed
    have hparse := source.parse_spec
    rwa [hparsed] at hparse
  refine ⟨⟨?_, ?_⟩, fun parsed hparsed => (hspec parsed hparsed).1⟩
  · rintro ⟨parsed, hparsed⟩
    obtain ⟨htokens, hfault⟩ := hspec parsed hparsed
    exact ⟨fun token htoken => (Parser.isFault_kind _).2 (hfault token htoken),
      parsed.document.yields _ htokens⟩
  · rintro ⟨hfault, hsentence⟩
    exact parse_of_mem_grammar (fun token htoken => (Parser.isFault_kind _).1 (hfault token htoken))
      hsentence

/-- A method with an empty list of exceptions. -/
def emptyThrows : Source := ⟨"test.thrift", "service S \x7b void f() throws () \x7d"⟩

/-- The same method without a list of exceptions, ending at the same place. -/
def noThrows : Source := ⟨"test.thrift", "service S \x7b void f(          ) \x7d"⟩

theorem tokens_emptyThrows : emptyThrows.tokens =
    [⟨.keyword .service, ⟨0, 7⟩⟩, ⟨.identifier "S", ⟨8, 9⟩⟩, ⟨.mark .openBrace, ⟨10, 11⟩⟩,
      ⟨.keyword .void, ⟨12, 16⟩⟩, ⟨.identifier "f", ⟨17, 18⟩⟩, ⟨.mark .openParen, ⟨18, 19⟩⟩,
      ⟨.mark .closeParen, ⟨19, 20⟩⟩, ⟨.keyword .throws, ⟨21, 27⟩⟩, ⟨.mark .openParen, ⟨28, 29⟩⟩,
      ⟨.mark .closeParen, ⟨29, 30⟩⟩, ⟨.mark .closeBrace, ⟨31, 32⟩⟩, ⟨.finish, ⟨32, 32⟩⟩] := by
  decide +kernel

theorem tokens_noThrows : noThrows.tokens =
    [⟨.keyword .service, ⟨0, 7⟩⟩, ⟨.identifier "S", ⟨8, 9⟩⟩, ⟨.mark .openBrace, ⟨10, 11⟩⟩,
      ⟨.keyword .void, ⟨12, 16⟩⟩, ⟨.identifier "f", ⟨17, 18⟩⟩, ⟨.mark .openParen, ⟨18, 19⟩⟩,
      ⟨.mark .closeParen, ⟨29, 30⟩⟩, ⟨.mark .closeBrace, ⟨31, 32⟩⟩, ⟨.finish, ⟨32, 32⟩⟩] := by
  decide +kernel

/-- The tree of both files. -/
def throwsTree : ParsedDocument where
  document :=
    { namespaces := []
      includes := []
      declarations := [.service ⟨⟨"S", ⟨8, 9⟩⟩, none,
        [⟨false, .builtin .void ⟨12, 16⟩, ⟨"f", ⟨17, 18⟩⟩, [], [], ⟨12, 30⟩⟩], ⟨0, 32⟩⟩]
      span := ⟨0, 32⟩ }
  nodes := 6

theorem parse_emptyThrows : emptyThrows.parse = .ok throwsTree := by
  rw [parse, tokens_emptyThrows]
  rfl

theorem parse_noThrows : noThrows.parse = .ok throwsTree := by
  rw [parse, tokens_noThrows]
  rfl

/-- There is no way to read trees back that gives the tokens of every file but for separators: of
an empty list of exceptions the tree keeps nothing. -/
theorem not_exists_reading_back :
    ¬ ∃ readBack : ParsedDocument → List Lexeme, ∀ source parsed, Source.parse source = .ok parsed →
      (source.tokens.map Token.lexeme).filter (· ∉ [.mark .comma, .mark .semicolon, .finish]) =
        (readBack parsed).filter (· ∉ [.mark .comma, .mark .semicolon, .finish]) := by
  rintro ⟨readBack, h⟩
  have hsame := (h emptyThrows _ parse_emptyThrows).trans (h noThrows _ parse_noThrows).symm
  rw [tokens_emptyThrows, tokens_noThrows] at hsame
  exact absurd hsame (by decide)

end Source
end Idl
