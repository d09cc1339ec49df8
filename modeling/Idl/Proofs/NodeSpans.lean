import Idl.Proofs.NodeDerivations
import Idl.Proofs.OffsetLexer

/-!
# Spans of nodes

Every node of a tree other than the document lies in the file from the first to the last of the
tokens that it is derived from, inside the node above it and behind the nodes beside it. The
document lies from the first to the last token of the file, if there is one.
-/
namespace Idl
open Spelling

namespace Span

/-- From the start of the first of the tokens to the end of the last. -/
def Covers (span : Span) (tokens : List Token) : Prop :=
  tokens.head?.map (·.span.start) = some span.start ∧
    tokens.getLast?.map (·.span.stop) = some span.stop

def Within (span outer : Span) : Prop :=
  outer.start ≤ span.start ∧ span.stop ≤ outer.stop

def Before (span next : Span) : Prop :=
  span.stop ≤ next.start

theorem Covers.exists_ends {span : Span} {tokens : List Token} (h : span.Covers tokens) :
    ∃ first ∈ tokens, ∃ last ∈ tokens, first.span.start = span.start ∧
      last.span.stop = span.stop := by
  obtain ⟨first, hfirst, hstart⟩ := Option.map_eq_some_iff.1 h.1
  obtain ⟨last, hlast, hstop⟩ := Option.map_eq_some_iff.1 h.2
  exact ⟨first, List.mem_of_mem_head? hfirst, last, List.mem_of_getLast? hlast, hstart, hstop⟩

end Span

namespace Token

/-- Tokens that are not empty and lie one behind the other. -/
structure Ordered (tokens : List Token) : Prop where
  nonempty : ∀ token ∈ tokens, token.span.start < token.span.stop
  behind : tokens.Pairwise fun token next => token.span.stop ≤ next.span.start

namespace Ordered

variable {tokens run : List Token} {span outer : Span}

theorem sublist (h : Ordered tokens) (hrun : run.Sublist tokens) : Ordered run :=
  ⟨fun token htoken => h.nonempty token (hrun.subset htoken), h.behind.sublist hrun⟩

/-- All tokens lie in the span that the first and the last bound. -/
theorem within (h : Ordered tokens) (hspan : span.Covers tokens) :
    ∀ token ∈ tokens, token.span.Within span := by
  intro token htoken
  refine ⟨?_, ?_⟩
  · cases tokens with
    | nil => cases htoken
    | cons first rest =>
      have hstart : first.span.start = span.start := Option.some.inj hspan.1
      rcases List.mem_cons.1 htoken with rfl | hrest
      · exact hstart.ge
      · have hfirst := h.nonempty first List.mem_cons_self
        have hnext := (List.pairwise_cons.1 h.behind).1 token hrest
        omega
  · rcases List.eq_nil_or_concat' tokens with rfl | ⟨before, last, rfl⟩
    · cases htoken
    have hstop : last.span.stop = span.stop := by
      have hlast := hspan.2
      rw [List.getLast?_concat] at hlast
      exact Option.some.inj hlast
    rcases List.mem_append.1 htoken with hbefore | hlast
    · have hnonempty := h.nonempty last (by simp)
      have hnext := (List.pairwise_append.1 h.behind).2.2 token hbefore last List.mem_cons_self
      omega
    · obtain rfl := List.mem_singleton.1 hlast
      exact hstop.le

theorem start_lt_stop (h : Ordered tokens) (hspan : span.Covers tokens) :
    span.start < span.stop := by
  obtain ⟨first, hfirst, -, -, hstart, -⟩ := hspan.exists_ends
  have hnonempty := h.nonempty first hfirst
  have hwithin := (h.within hspan first hfirst).2
  omega

theorem within_of_subset (h : Ordered tokens) (houter : outer.Covers tokens)
    (hrun : run ⊆ tokens) (hspan : span.Covers run) : span.Within outer := by
  obtain ⟨first, hfirst, last, hlast, hstart, hstop⟩ := hspan.exists_ends
  exact ⟨hstart ▸ (h.within houter first (hrun hfirst)).1,
    hstop ▸ (h.within houter last (hrun hlast)).2⟩

end Ordered

end Token

namespace Node

theorem Derived.covers {node : Node} {tokens : List Token} (h : node.Derived tokens) :
    node.span.Covers tokens := by
  cases h with
  | intro rule spelled below =>
    obtain ⟨part, rfl⟩ := rule.exists_spanning
    exact spelled.2

theorem DerivedIn.exists_child {list : List Node} {tokens : List Token}
    (h : DerivedIn list tokens) : ∀ node ∈ list, ∃ run, run <:+: tokens ∧ node.Derived run := by
  induction list generalizing tokens with
  | nil => simp
  | cons first list ih =>
    cases h with
    | @cons _ _ before run after head tail =>
      refine List.forall_mem_cons.2 ⟨⟨run, ⟨before, after, by simp⟩, head⟩, fun node hnode => ?_⟩
      obtain ⟨inner, hinner, hderived⟩ := ih tail node hnode
      exact ⟨inner, hinner.trans ⟨before ++ run, [], by simp⟩, hderived⟩

theorem DerivedIn.pairwise_before {list : List Node} {tokens : List Token}
    (h : DerivedIn list tokens) (hordered : Token.Ordered tokens) :
    list.Pairwise fun node next => node.span.Before next.span := by
  induction list generalizing tokens with
  | nil => exact .nil
  | cons first list ih =>
    cases h with
    | @cons _ _ before run after head tail =>
      have hrest := hordered.sublist (List.sublist_append_right before (run ++ after))
      refine .cons (fun next hnext => ?_) (ih tail (hrest.sublist (List.sublist_append_right _ _)))
      obtain ⟨inner, hinner, hderived⟩ := tail.exists_child next hnext
      obtain ⟨-, -, last, hlast, -, hstop⟩ := head.covers.exists_ends
      obtain ⟨token, htoken, -, -, hstart, -⟩ := hderived.covers.exists_ends
      have hbehind := (List.pairwise_append.1 hrest.behind).2.2 last hlast token
        (hinner.subset htoken)
      rwa [hstop, hstart] at hbehind

mutual

/-- Every node is derived from a run of the tokens that a node above it is derived from. -/
theorem Derived.exists_run : ∀ {node : Node} {tokens : List Token}, node.Derived tokens →
    ∀ other ∈ node.nodes, ∃ run, run <:+: tokens ∧ other.Derived run
  | node, tokens, .intro rule spelled below => by
    have ih := below.exists_run
    rw [nodes_eq, inner_eq]
    exact List.forall_mem_cons.2 ⟨⟨tokens, List.infix_rfl, .intro rule spelled below⟩, ih⟩

theorem DerivedIn.exists_run : ∀ {list : List Node} {tokens : List Token}, DerivedIn list tokens →
    ∀ other ∈ list.flatMap nodes, ∃ run, run <:+: tokens ∧ other.Derived run
  | _, _, .nil => by simp
  | _, _, @DerivedIn.cons node nodes before run after head tail => by
    have ih := head.exists_run
    have ih' := tail.exists_run
    intro other hother
    rw [List.flatMap_cons] at hother
    rcases List.mem_append.1 hother with hother | hother
    · obtain ⟨inner, hinner, hderived⟩ := ih other hother
      exact ⟨inner, hinner.trans ⟨before, after, by simp⟩, hderived⟩
    · obtain ⟨inner, hinner, hderived⟩ := ih' other hother
      exact ⟨inner, hinner.trans ⟨before ++ run, [], by simp⟩, hderived⟩

end

/-- The node lies where the tokens lie that it is derived from, and the nodes right below it lie
inside, one behind the other. -/
structure SpansExactly (tokens : List Token) (node : Node) : Prop where
  derived : ∃ run, run <:+: tokens ∧ node.Derived run ∧ node.span.Covers run
  nonempty : node.span.start < node.span.stop
  inside : ∀ child ∈ node.children, child.span.Within node.span
  behind : node.children.Pairwise fun child next => child.span.Before next.span

theorem Derived.spansExactly {node : Node} {tokens run : List Token}
    (hordered : Token.Ordered tokens) (hrun : run <:+: tokens) (h : node.Derived run) :
    node.SpansExactly tokens := by
  have hcovers := h.covers
  have hinner := hordered.sublist hrun.sublist
  refine ⟨⟨run, hrun, h, hcovers⟩, hinner.start_lt_stop hcovers, ?_, ?_⟩ <;>
    obtain ⟨-, -, below⟩ := h
  · intro child hchild
    obtain ⟨part, hpart, hderived⟩ := below.exists_child child hchild
    exact hinner.within_of_subset hcovers hpart.subset hderived.covers
  · exact below.pairwise_before hinner

end Node

/-! ### The document -/

namespace Parser

variable {s : ParserState}

theorem ensures_checkCurrent_same :
    Ensures (fun _ => True) checkCurrent s fun _ next => next = s := by
  unfold Ensures
  cases h : faultMessage? s.current.lexeme with
  | none => rw [run_checkCurrent_of_eq_none h]
  | some message => rw [run_checkCurrent_of_eq_some h]; trivial

theorem ensures_true {α : Type} (parser : Parser α) :
    Ensures (fun _ => True) parser s fun _ _ => True := by
  unfold Ensures
  split <;> trivial

/-- A document begins where the first token does and ends where the last one that was read. -/
theorem ensures_span_document (fuel : Nat) :
    Ensures (fun _ => True) (document fuel) s fun document next =>
      document.span = ⟨s.current.span.start, next.previousEnd⟩ := by
  unfold document
  refine ensures_checkCurrent_same.bind ?_
  rintro _ _ rfl
  refine .position ((ensures_true _).bind fun _ _ _ => (ensures_true _).bind fun _ _ _ => ?_)
  exact .node (.pure rfl)

end Parser

namespace Source

variable {source : Source} {parsed : ParsedDocument}

theorem ordered_tokens (source : Source) : Token.Ordered source.tokens.dropLast := by
  obtain ⟨tokens, last, htokens, -⟩ := source.exists_tokens
  have hpairwise := Token.pairwise_readAll 0 source.chars
  change source.tokens.Pairwise _ at hpairwise
  rw [htokens] at hpairwise ⊢
  rw [List.dropLast_concat]
  obtain ⟨hfront, -, hlast⟩ := List.pairwise_append.1 hpairwise
  exact ⟨fun token htoken => (hlast token htoken last List.mem_cons_self).1,
    hfront.imp fun h => h.2⟩

/-- Where the document lies: from the first token of the file, which may be the end, to the last
that is not the end. -/
theorem span_of_parse (h : source.parse = .ok parsed) :
    parsed.document.span = ⟨(source.tokens.head?.map (·.span.start)).getD 0,
      (source.tokens.dropLast.getLast?.map (·.span.stop)).getD 0⟩ := by
  let initial : ParserState := ⟨source.tokens, 0, 0⟩
  have hclosed : Token.Closed initial.tokens := Token.closed_readAll 0 source.chars
  have hparse : Parser.Ensures (Parser.Blames source.tokens) _ initial _ :=
    Parser.ensures_document (fun _ h => Token.isProper_of_mem_readAll h) source.tokens.length
      (fun _ h => h) hclosed le_rfl
  have hspan := @Parser.ensures_span_document initial source.tokens.length
  unfold Parser.Ensures at hparse hspan
  cases hrun : (Parser.document source.tokens.length).run initial with
  | error failure =>
    rw [parse_of_run hrun] at h
    cases h
  | ok result =>
    obtain ⟨document, last⟩ := result
    rw [hrun] at hparse hspan
    rw [parse_of_run hrun] at h
    cases h
    obtain ⟨⟨list, -, hconsumes⟩, hfinish⟩ := hparse
    obtain ⟨tokens, -, hsource, hend, -⟩ := hconsumes.exists_tokens
    rw [hconsumes.ready.eq_singleton hfinish] at hsource
    change source.tokens = tokens ++ [last.current] at hsource
    obtain ⟨rest, hrest⟩ := ParserState.exists_cons_of_closed hclosed
    change source.tokens = initial.current :: rest at hrest
    rw [hspan, ← hend, hsource, List.dropLast_concat, ← hsource, hrest]
    rfl

theorem derivedIn_of_parse (h : source.parse = .ok parsed) :
    Node.DerivedIn parsed.document.sequence source.tokens.dropLast := by
  have hspec := source.parse_spec
  rw [h] at hspec
  exact parsed.document.derives _ hspec.1

theorem exists_run_of_parse (h : source.parse = .ok parsed) :
    ∀ node ∈ parsed.document.toNode.inner,
      ∃ run, run <:+: source.tokens.dropLast ∧ node.Derived run := by
  intro node hnode
  rw [Node.inner_eq, ← (parsed.document.sequence_perm.flatMap_right _).mem_iff] at hnode
  exact (derivedIn_of_parse h).exists_run node hnode

theorem covers_of_parse (h : source.parse = .ok parsed) (hne : source.tokens.dropLast ≠ []) :
    parsed.document.span.Covers source.tokens.dropLast := by
  obtain ⟨tokens, last, htokens, -⟩ := source.exists_tokens
  have hspan := span_of_parse h
  rw [htokens, List.dropLast_concat] at hspan hne
  rw [hspan, htokens, List.dropLast_concat]
  obtain ⟨first, rest, rfl⟩ := List.exists_cons_of_ne_nil hne
  refine ⟨rfl, ?_⟩
  rw [List.getLast?_eq_getLast_of_ne_nil hne]
  rfl

/-- Spans are exact. Every node below the document is derived from a run of the tokens of the file
and lies from the first of them to the last, which is not nothing, with the nodes below it inside
and one behind the other. So do the parts of the document, in the order in which they are written,
and it lies itself from the first token to the last if there is one. -/
theorem spansExactly_of_parse (h : source.parse = .ok parsed) :
    (∀ node ∈ parsed.document.toNode.inner, node.SpansExactly source.tokens.dropLast) ∧
      Node.DerivedIn parsed.document.sequence source.tokens.dropLast ∧
      parsed.document.sequence.Perm parsed.document.toNode.children ∧
      parsed.document.sequence.Pairwise (fun node next => node.span.Before next.span) ∧
      (source.tokens.dropLast ≠ [] →
        parsed.document.span.Covers source.tokens.dropLast ∧
          ∀ node ∈ parsed.document.toNode.inner, node.span.Within parsed.document.span) := by
  have hordered := source.ordered_tokens
  have hderived := derivedIn_of_parse h
  refine ⟨fun node hnode => ?_, hderived, parsed.document.sequence_perm,
    hderived.pairwise_before hordered, fun hne => ⟨covers_of_parse h hne, fun node hnode => ?_⟩⟩
  · obtain ⟨run, hrun, hnode⟩ := exists_run_of_parse h node hnode
    exact hnode.spansExactly hordered hrun
  · obtain ⟨run, hrun, hnode⟩ := exists_run_of_parse h node hnode
    exact hordered.within_of_subset (covers_of_parse h hne) hrun.subset hnode.covers

/-- The nodes below a node lie inside it and are not empty. -/
theorem within_of_mem_nodes (h : source.parse = .ok parsed) {node other : Node}
    (hnode : node ∈ parsed.document.toNode.inner) (hother : other ∈ node.nodes) :
    other.span.Within node.span ∧ other.span.start < other.span.stop := by
  obtain ⟨run, hrun, hderived⟩ := exists_run_of_parse h node hnode
  obtain ⟨part, hpart, hpartDerived⟩ := hderived.exists_run other hother
  have hordered := source.ordered_tokens.sublist hrun.sublist
  exact ⟨hordered.within_of_subset hderived.covers hpart.subset hpartDerived.covers,
    (hordered.sublist hpart.sublist).start_lt_stop hpartDerived.covers⟩

/-- Directives of both sorts and items with separators behind them. -/
def mixedFile : Source :=
  ⟨"mixed.thrift", "# λ\ninclude \"a\"; namespace * b\nconst list<A> x = [B, 2;] ,"⟩

theorem tokens_mixedFile_ne_nil : mixedFile.tokens.dropLast ≠ [] := by
  decide +kernel

def mixedTree : ParsedDocument where
  document :=
    { namespaces := [⟨"*", "b", ⟨18, 31⟩⟩]
      includes := [⟨⟨"a", ⟨13, 16⟩⟩, ⟨5, 16⟩⟩]
      declarations := [.constant ⟨.list (.name ⟨⟨"A", ⟨43, 44⟩⟩, [], ⟨43, 44⟩⟩) ⟨38, 45⟩,
        ⟨"x", ⟨46, 47⟩⟩,
        .list [.name ⟨⟨"B", ⟨51, 52⟩⟩, [], ⟨51, 52⟩⟩, .integer ⟨2, ⟨54, 55⟩⟩] ⟨50, 57⟩, ⟨32, 57⟩⟩]
      span := ⟨5, 59⟩ }
  nodes := 13

theorem parse_mixedFile : mixedFile.parse = .ok mixedTree := by
  decide +kernel

theorem spansExactly_mixedFile :
    mixedFile.parse = .ok mixedTree ∧
      (∀ node ∈ mixedTree.document.toNode.inner, node.SpansExactly mixedFile.tokens.dropLast) ∧
      mixedTree.document.sequence.Pairwise (fun node next => node.span.Before next.span) ∧
      mixedTree.document.span.Covers mixedFile.tokens.dropLast := by
  obtain ⟨hnodes, -, -, hbehind, hdocument⟩ := spansExactly_of_parse parse_mixedFile
  exact ⟨parse_mixedFile, hnodes, hbehind, (hdocument tokens_mixedFile_ne_nil).1⟩

/-! ### Texts of nodes -/

theorem Locates.exists_slice {span : Span} (h : source.Locates span) :
    ∃ text, source.slice? span = some text := by
  obtain ⟨fromStart, hstart⟩ := Option.isSome_iff_exists.1 h.start
  obtain ⟨fromStop, hstop⟩ := Option.isSome_iff_exists.1 h.stop
  obtain ⟨before, hbefore, hbeforeSize⟩ := Text.exists_of_drop? hstart
  obtain ⟨passed, hpassed, hpassedSize⟩ := Text.exists_of_drop? hstop
  have hordered := h.ordered
  obtain ⟨start, stop⟩ := span
  simp only at hbeforeSize hpassedSize hordered
  obtain ⟨text, rfl⟩ : ∃ text, passed = before ++ text := by
    rcases List.append_eq_append_iff.1 (hbefore.symm.trans hpassed) with
      ⟨text, rfl, -⟩ | ⟨text, rfl, -⟩
    · exact ⟨text, rfl⟩
    · rw [Text.size_append] at hbeforeSize
      have hsize : Text.size text = 0 := by omega
      cases text with
      | nil => exact ⟨[], by simp⟩
      | cons c text =>
        have hpos := c.utf8Size_pos
        rw [Text.size_cons] at hsize
        omega
  rw [List.append_assoc] at hpassed
  rw [Text.size_append] at hpassedSize
  exact ⟨String.ofList text, by rw [hbeforeSize, hpassedSize, slice?_eq hpassed]⟩

theorem start_le_stop_of_slice {span : Span} {text : String} (h : source.slice? span = some text) :
    span.start ≤ span.stop := by
  by_contra hlt
  rw [slice?, Text.slice?, if_neg hlt] at h
  cases h

/-- The span can be cut out of the text. -/
def Cuts (source : Source) (span : Span) : Prop :=
  source.Locates span ∧ span.stop ≤ source.size ∧ ∃ text, source.slice? span = some text

theorem Locates.cuts {span : Span} (h : source.Locates span) : source.Cuts span :=
  ⟨h, h.stop_le, h.exists_slice⟩

theorem locates_of_covers {span : Span} (h : span.Covers source.tokens.dropLast) :
    source.Locates span := by
  obtain ⟨first, hfirst, last, hlast, hstart, hstop⟩ := h.exists_ends
  exact ⟨hstart ▸ (locates_of_mem_tokens (List.mem_of_mem_dropLast hfirst)).start,
    hstop ▸ (locates_of_mem_tokens (List.mem_of_mem_dropLast hlast)).stop,
    (source.ordered_tokens.start_lt_stop h).le⟩

/-- Without tokens the document begins at the end of the text and ends at its start. -/
theorem span_of_parse_blank (h : source.parse = .ok parsed) (hnil : source.tokens.dropLast = []) :
    parsed.document.span = ⟨source.size, 0⟩ := by
  obtain ⟨front, hfront, -⟩ := Token.exists_front_readAll 0 source.chars
  change source.tokens = _ at hfront
  rw [hfront, List.dropLast_concat] at hnil
  rw [span_of_parse h, hfront, hnil, Nat.zero_add]
  rfl

theorem size_eq_zero_iff : source.size = 0 ↔ source.text = "" := by
  rw [size, ← String.toList_eq_nil_iff, chars]
  cases source.text.toList with
  | nil => simp
  | cons c cs =>
    have hpos := c.utf8Size_pos
    simp only [Text.size_cons, List.cons_ne_nil, iff_false]
    omega

/-- Every node below the document can be cut out of the text. The document can if there is a token
in the text or nothing at all. -/
theorem cuts_of_parse (h : source.parse = .ok parsed) :
    (∀ node ∈ parsed.document.toNode.inner, source.Cuts node.span) ∧
      (source.Cuts parsed.document.span ↔ source.tokens.dropLast ≠ [] ∨ source.text = "") := by
  refine ⟨fun node hnode => (locates_of_marks h ⟨node, hnode, rfl⟩).cuts, ?_⟩
  by_cases hnil : source.tokens.dropLast = []
  · rw [span_of_parse_blank h hnil, ← size_eq_zero_iff]
    constructor
    · intro hcuts
      exact .inr (Nat.le_zero.1 hcuts.1.ordered)
    · rintro (hne | hsize)
      · exact absurd hnil hne
      · have hzero : Text.IsBoundary 0 source.chars := Text.isBoundary_size [] source.chars
        rw [hsize]
        exact Locates.cuts ⟨hzero, hzero, le_rfl⟩
  · have hcuts := (locates_of_covers (covers_of_parse h hnil)).cuts
    exact ⟨fun _ => .inl hnil, fun _ => hcuts⟩

theorem cuts_mixedFile :
    mixedFile.parse = .ok mixedTree ∧
      (∀ node ∈ mixedTree.document.toNode.inner, mixedFile.Cuts node.span) ∧
      mixedFile.Cuts mixedTree.document.span := by
  obtain ⟨hnodes, hdocument⟩ := cuts_of_parse parse_mixedFile
  exact ⟨parse_mixedFile, hnodes, hdocument.2 (.inl tokens_mixedFile_ne_nil)⟩

/-- A text without tokens that is not empty. -/
def blankFile : Source := ⟨"blank.thrift", " "⟩

theorem parse_blankFile : blankFile.parse = .ok ⟨⟨[], [], [], ⟨1, 0⟩⟩, 1⟩ := by
  decide +kernel

/-- Not every node of an accepted file can be cut out of the text: a document that begins behind a
blank ends in front of it. -/
theorem not_forall_cuts_blankFile :
    ¬ ∀ source parsed, Source.parse source = .ok parsed →
      ∀ node ∈ parsed.document.toNode.nodes, ∃ text, source.slice? node.span = some text := by
  intro h
  have hdocument := h blankFile _ parse_blankFile (Document.toNode ⟨[], [], [], ⟨1, 0⟩⟩)
    (by rw [Node.nodes_eq]; exact List.mem_cons_self)
  obtain ⟨text, htext⟩ := hdocument
  exact absurd (start_le_stop_of_slice htext) (by decide)

end Source
end Idl
