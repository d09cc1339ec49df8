import Idl.Proofs.MovedTrees
import Idl.Proofs.NodeSpans
import Idl.Proofs.Unambiguity

/-!
# Declarations out of context

A declaration can be cut out of its file and parsed as a file of its own. What is read is the same
declaration, with all its nodes as much nearer to the start as the declaration was away from it.
-/
namespace Idl
open Spelling

/-- The tokens of an item of a list lie together in the tokens of the list. -/
theorem Spelling.exists_infix_of_mem_items {α : Type} {spell : α → Language Token} {item : α}
    {list : List α} {tokens : List Token} (h : tokens ∈ items spell list) (hitem : item ∈ list) :
    ∃ run, run <:+: tokens ∧ run ∈ spell item := by
  induction list generalizing tokens with
  | nil => cases hitem
  | cons first list ih =>
    rw [items, List.map_cons, List.prod_cons] at h
    obtain ⟨_, ⟨run, hrun, separator, -, rfl⟩, rest, hrest, rfl⟩ := h
    rcases List.mem_cons.1 hitem with rfl | hitem
    · exact ⟨run, ⟨[], separator ++ rest, by simp⟩, hrun⟩
    · obtain ⟨run, hpiece, hrun⟩ := ih hrest hitem
      exact ⟨run, hpiece.trans (List.suffix_append _ _).isInfix, hrun⟩

theorem Spelling.mem_items_singleton {α : Type} {spell : α → Language Token} {item : α}
    {tokens : List Token} (h : tokens ∈ spell item) : tokens ∈ items spell [item] :=
  ⟨tokens, ⟨tokens, h, [], .inl rfl, List.append_nil _⟩, [], rfl, List.append_nil _⟩

theorem Declaration.covers {declaration : Declaration} {run : List Token}
    (h : run ∈ declaration.spellings) : declaration.span.Covers run := by
  cases declaration <;> exact h.2

/-- Tokens spell one declaration only. -/
theorem Declaration.unique {declaration other : Declaration} {run : List Token}
    (h : run ∈ declaration.spellings) (h' : run ∈ other.spellings) : declaration = other :=
  (declaration.forces other run h run h' [] [] rfl nofun nofun).2

theorem Token.map_move_back (shift : Nat) (tokens : List Token) :
    (tokens.map (move (· + shift))).map (move (· - shift)) = tokens := by
  simp [move, Span.move, Function.comp_def]

namespace Source

variable {source : Source} {parsed : ParsedDocument}

/-- Tokens that follow each other in a file are a run in the text from the first to the last. -/
theorem exists_run {run : List Token} (hrun : run <:+: source.tokens)
    (hwhole : ∀ token ∈ run, Token.IsWhole token.lexeme) {span : Span} (hspan : span.Covers run) :
    ∃ before text after, source.chars = before ++ (text ++ after) ∧
      span = ⟨Text.size before, Text.size before + Text.size text⟩ ∧
      Token.Run after (Text.size before) text run := by
  obtain ⟨earlier, later, htokens⟩ := hrun
  obtain ⟨start, stop⟩ := span
  cases run with
  | nil => cases hspan.1
  | cons first run =>
    rw [List.append_assoc] at htokens
    obtain ⟨front, rest, hchars, hend, -, hreadAll⟩ := Lexer.after_reading htokens.symm
    obtain ⟨gap, text, after, rfl, -, hrun, hstart, hstop⟩ := Token.exists_run hreadAll hwhole
    rw [hend, Nat.zero_add, ← Text.size_append] at hrun hstart hstop
    obtain rfl := (Option.some.inj hspan.1).symm.trans hstart
    obtain rfl := Option.some.inj (hspan.2.symm.trans hstop)
    exact ⟨front ++ gap, text, after, by rw [hchars, List.append_assoc], rfl, hrun⟩

theorem isWhole_of_parse (h : source.parse = .ok parsed) :
    ∀ token ∈ source.tokens.dropLast, Token.IsWhole token.lexeme := by
  intro token htoken
  have hspec := source.parse_spec
  rw [h] at hspec
  obtain ⟨front, hfront, hother⟩ := Token.exists_front_readAll 0 source.chars
  change source.tokens = _ at hfront
  refine ⟨(Parser.isFault_kind _).2 (hspec.2 token (List.mem_of_mem_dropLast htoken)),
    hother token ?_⟩
  rwa [hfront, List.dropLast_concat] at htoken

/-- A text that is read as a run of tokens that spell declarations is parsed as those. -/
theorem parse_of_run_spelled {tokens : List Token} {list : List Declaration}
    (hrun : Token.Run [] 0 source.chars tokens)
    (htokens : tokens ∈ items Declaration.spellings list) :
    ∃ parsed, source.parse = .ok parsed ∧ parsed.document.namespaces = [] ∧
      parsed.document.includes = [] ∧ parsed.document.declarations = list := by
  have hread : source.tokens = _ := hrun.readAll_eq
  refine parse_of_spelled ?_ ?_
  · rw [hread]
    intro token htoken
    rcases List.mem_append.1 htoken with htoken | htoken
    · exact (Parser.isFault_kind _).1 (hrun.isWhole token htoken).1
    · obtain rfl := List.mem_singleton.1 htoken
      rfl
  · rwa [hread, List.dropLast_concat]

/-- Declarations parse out of context. The text of a declaration can be cut out of its file, and
parsed by itself it has no headers and one declaration, which is the same but for being nearer to
the start by where the declaration began. -/
theorem parse_slice_declaration (h : source.parse = .ok parsed) {declaration : Declaration}
    (hdeclaration : declaration ∈ parsed.document.declarations) (path : String) :
    ∃ text alone other, source.slice? declaration.span = some text ∧
      Source.parse ⟨path, text⟩ = .ok alone ∧
      alone.document.namespaces = [] ∧ alone.document.includes = [] ∧
      alone.document.declarations = [other] ∧
      other.move (· + declaration.span.start) = declaration ∧
      other.toNode.move (· + declaration.span.start) = declaration.toNode := by
  have hspec := source.parse_spec
  rw [h] at hspec
  obtain ⟨⟨headers, -, tokens, htokens, happend⟩, -⟩ := hspec
  obtain ⟨run, hpiece, hrun⟩ := exists_infix_of_mem_items htokens hdeclaration
  replace hpiece : run <:+: source.tokens.dropLast :=
    happend ▸ hpiece.trans (List.suffix_append _ _).isInfix
  -- the tokens of the declaration are a run in the text, which is cut out
  obtain ⟨before, text, after, hchars, hspan, hrunText⟩ :=
    exists_run (hpiece.trans (List.dropLast_prefix _).isInfix)
      (fun token htoken => isWhole_of_parse h token (hpiece.subset htoken))
      (Declaration.covers hrun)
  obtain ⟨cut, hcut, rfl⟩ := hrunText.exists_cut (Nat.zero_add _).symm
  have hother : cut ∈ (declaration.move (· - Text.size before)).spellings := by
    rw [← Token.map_move_back (Text.size before) cut]
    exact declaration.moves _ hrun
  -- moved to their place in the file again, they spell one declaration only
  have hback := Declaration.unique (Declaration.moves _ _ hother) hrun
  obtain ⟨alone, halone, hnamespaces, hincludes, hdeclarations⟩ :=
    @parse_of_run_spelled ⟨path, String.ofList text⟩ _ _ (by rwa [chars, String.toList_ofList])
      (mem_items_singleton hother)
  rw [hspan]
  refine ⟨String.ofList text, alone, _, slice?_eq hchars, halone, hnamespaces, hincludes,
    hdeclarations, hback, ?_⟩
  rw [← Declaration.toNode_move, hback]

/-- The declaration of the file, which is behind two directives and a comment. -/
theorem parse_slice_mixedFile :
    mixedFile.parse = .ok mixedTree ∧
      ∃ declaration ∈ mixedTree.document.declarations, declaration.span = ⟨32, 57⟩ ∧
        mixedFile.slice? ⟨32, 57⟩ = some "const list<A> x = [B, 2;]" ∧
        ∃ alone other, Source.parse ⟨"x.thrift", "const list<A> x = [B, 2;]"⟩ = .ok alone ∧
          alone.document.namespaces = [] ∧ alone.document.includes = [] ∧
          alone.document.declarations = [other] ∧ other.move (· + 32) = declaration := by
  have hmem := List.get_mem mixedTree.document.declarations ⟨0, by decide⟩
  have hslice : mixedFile.slice? ⟨32, 57⟩ = some "const list<A> x = [B, 2;]" := by decide
  obtain ⟨text, alone, other, htext, halone, hnamespaces, hincludes, hdeclarations, hmove, -⟩ :=
    parse_slice_declaration parse_mixedFile hmem "x.thrift"
  obtain rfl := Option.some.inj (htext.symm.trans hslice)
  exact ⟨parse_mixedFile, _, hmem, rfl, hslice, alone, other, halone, hnamespaces, hincludes,
    hdeclarations, hmove⟩

end Source
end Idl
