import Idl.Proofs.Spelling
import Idl.Proofs.Tokens
import Idl.Syntax.Parser

/-!
# Steps of the parser

What one step of the parser does to its state, and how steps are put together. A step that goes
through takes tokens off the front of those that remain; a step that fails blames one of them.
-/
namespace Idl

/-- The message is about the text of one file alone, whatever the file includes. -/
def Message.isSyntaxError : Message → Bool
  | .unknownChar _ | .unclosedString | .unclosedComment | .integerRange | .expected _ _
  | .headerAfterDeclaration _ => true
  | _ => false

namespace Spelling

theorem nil_notMem_lexeme (l : Lexeme) : [] ∉ lexeme l := by
  rintro ⟨span, h⟩
  cases h

theorem nil_notMem_spanning (span : Span) (spelling : Language Token) :
    [] ∉ spanning span spelling := by
  rintro ⟨-, h, -⟩
  cases h

end Spelling

namespace ParserState

/-- The remaining tokens are tokens of the input, up to and including `finish`, and the next one
is no lexical fault. -/
structure Ready (input : List Token) (s : ParserState) : Prop where
  within : ∀ token ∈ s.tokens, token ∈ input
  closed : Token.Closed s.tokens
  noFault : Parser.faultMessage? s.current.lexeme = none

/-- From one state to the next, tokens that belong to the spelling are taken off the front. -/
structure Consumes (input : List Token) (s next : ParserState) (spelling : Language Token) :
    Prop where
  ready : next.Ready input
  exists_tokens : ∃ tokens ∈ spelling, s.tokens = tokens ++ next.tokens ∧
    (tokens.getLast?.map (·.span.stop)).getD s.previousEnd = next.previousEnd ∧
      ∀ token ∈ tokens, Parser.faultMessage? token.lexeme = none

variable {input : List Token} {s next last : ParserState} {spelling spelling' : Language Token}

theorem exists_cons_of_closed (h : Token.Closed s.tokens) :
    ∃ rest, s.tokens = s.current :: rest := by
  generalize htokens : s.tokens = tokens at h
  cases h <;> exact ⟨_, by rw [current, htokens]; rfl⟩

theorem current_mem_tokens (h : Token.Closed s.tokens) : s.current ∈ s.tokens := by
  obtain ⟨rest, hrest⟩ := exists_cons_of_closed h
  rw [hrest]
  exact List.mem_cons_self

namespace Ready

theorem exists_cons (h : s.Ready input) : ∃ rest, s.tokens = s.current :: rest :=
  exists_cons_of_closed h.closed

theorem current_mem (h : s.Ready input) : s.current ∈ input := by
  obtain ⟨rest, hrest⟩ := h.exists_cons
  exact h.within _ (hrest ▸ List.mem_cons_self)

theorem length_pos (h : s.Ready input) : 0 < s.tokens.length := by
  obtain ⟨rest, hrest⟩ := h.exists_cons
  rw [hrest, List.length_cons]
  omega

theorem eq_singleton (h : s.Ready input) (hfinish : s.current.lexeme = .finish) :
    s.tokens = [s.current] := by
  obtain ⟨rest, hrest⟩ := h.exists_cons
  have hclosed := h.closed
  rw [hrest] at hclosed ⊢
  cases hclosed with
  | last => rfl
  | cons other => exact absurd hfinish other

/-- What is left behind a token that is not the last. -/
theorem tail (h : s.Ready input) (hne : s.current.lexeme ≠ .finish) :
    s.tokens = s.current :: s.advance.tokens ∧ Token.Closed s.advance.tokens ∧
      ∀ token ∈ s.advance.tokens, token ∈ input := by
  obtain ⟨rest, hrest⟩ := h.exists_cons
  have hnext : s.advance.tokens = rest := by rw [ParserState.advance, hrest]; rfl
  have hclosed := h.closed
  rw [hrest] at hclosed
  rw [hnext]
  refine ⟨hrest, ?_, fun token htoken => h.within token (hrest ▸ List.mem_cons_of_mem _ htoken)⟩
  cases hclosed with
  | last finish => exact absurd finish hne
  | cons _ closed => exact closed

end Ready

namespace Consumes

theorem refl (h : s.Ready input) : Consumes input s s 1 :=
  ⟨h, [], rfl, rfl, rfl, by simp⟩

theorem mul (h : Consumes input s next spelling) (h' : Consumes input next last spelling') :
    Consumes input s last (spelling * spelling') := by
  obtain ⟨tokens, htokens, hs, hend, hfault⟩ := h.exists_tokens
  obtain ⟨tokens', htokens', hnext, hend', hfault'⟩ := h'.exists_tokens
  refine ⟨h'.ready, tokens ++ tokens', Language.append_mem_mul htokens htokens', ?_, ?_, ?_⟩
  · rw [hs, hnext, List.append_assoc]
  · rw [← hend', ← hend, List.getLast?_append]
    cases tokens'.getLast? <;> simp
  · intro token htoken
    rcases List.mem_append.1 htoken with htoken | htoken
    · exact hfault token htoken
    · exact hfault' token htoken

theorem mono (h : Consumes input s next spelling) (hle : ∀ tokens ∈ spelling, tokens ∈ spelling') :
    Consumes input s next spelling' := by
  obtain ⟨tokens, htokens, hrest⟩ := h.exists_tokens
  exact ⟨h.ready, tokens, hle tokens htokens, hrest⟩

theorem length_le (h : Consumes input s next spelling) :
    next.tokens.length ≤ s.tokens.length := by
  obtain ⟨tokens, -, hs, -⟩ := h.exists_tokens
  rw [hs, List.length_append]
  omega

theorem length_lt (h : Consumes input s next spelling) (hnil : [] ∉ spelling) :
    next.tokens.length < s.tokens.length := by
  obtain ⟨tokens, htokens, hs, -⟩ := h.exists_tokens
  have hne : tokens ≠ [] := fun heq => hnil (heq ▸ htokens)
  have hpos := List.length_pos_iff.2 hne
  rw [hs, List.length_append]
  omega

/-- The span of a node that is made after tokens were taken runs from the first to the last of
them. -/
theorem node (h : Consumes input s next spelling) (hlt : next.tokens.length < s.tokens.length)
    (nodes : Nat) :
    Consumes input s { next with nodes }
      (Spelling.spanning ⟨s.current.span.start, next.previousEnd⟩ spelling) := by
  obtain ⟨tokens, htokens, hs, hend, hfault⟩ := h.exists_tokens
  have hready : ParserState.Ready input { next with nodes } :=
    ⟨h.ready.within, h.ready.closed, h.ready.noFault⟩
  refine ⟨hready, tokens, ⟨htokens, ?_, ?_⟩, hs, hend, hfault⟩
  · cases tokens with
    | nil => simp [hs] at hlt
    | cons token tokens => simp [current, hs]
  · cases hlast : tokens.getLast? with
    | none => simp [List.getLast?_eq_none_iff.1 hlast, hs] at hlt
    | some token => simpa [hlast] using hend

end Consumes
end ParserState

namespace Parser

variable {α β : Type} {failing : ParseFailure → Prop} {s : ParserState}

/-- Run from the state, the parser fails with a failure of the given sort or ends with a result
and a state of the given sort. -/
def Ensures (failing : ParseFailure → Prop) (parser : Parser α) (s : ParserState)
    (post : α → ParserState → Prop) : Prop :=
  match parser.run s with
  | .ok (result, next) => post result next
  | .error failure => failing failure

namespace Ensures

variable {post : α → ParserState → Prop} {post' : β → ParserState → Prop}

theorem pure {result : α} (h : post result s) : Ensures failing (Pure.pure result) s post := h

theorem bind {first : Parser α} {second : α → Parser β} (h : Ensures failing first s post)
    (hsecond : ∀ result next, post result next → Ensures failing (second result) next post') :
    Ensures failing (first >>= second) s post' := by
  unfold Ensures at h ⊢
  rw [StateT.run_bind]
  cases hrun : first.run s with
  | error failure =>
    rw [hrun] at h
    exact h
  | ok pair =>
    rw [hrun] at h
    exact hsecond pair.1 pair.2 h

theorem map {parser : Parser α} {f : α → β} (h : Ensures failing parser s post)
    (hf : ∀ result next, post result next → post' (f result) next) :
    Ensures failing (f <$> parser) s post' := by
  rw [← bind_pure_comp]
  exact h.bind fun result next hresult => .pure (hf result next hresult)

theorem mono {parser : Parser α} {post' : α → ParserState → Prop}
    (h : Ensures failing parser s post)
    (hpost : ∀ result next, post result next → post' result next) :
    Ensures failing parser s post' := by
  unfold Ensures at h ⊢
  split at h
  · exact hpost _ _ h
  · exact h

theorem of_never {parser : Parser α} (h : Ensures (fun _ => False) parser s post) :
    Ensures failing parser s post := by
  unfold Ensures at h ⊢
  split
  · next hrun => rwa [hrun] at h
  · next hrun =>
    rw [hrun] at h
    exact h.elim

theorem current {next : Token → Parser α} (h : Ensures failing (next s.current) s post) :
    Ensures failing (Parser.current >>= next) s post := h

theorem kind {next : TokenKind → Parser α} (h : Ensures failing (next s.current.kind) s post) :
    Ensures failing (Parser.kind >>= next) s post := h

theorem position {next : Nat → Parser α} (h : Ensures failing (next s.current.span.start) s post) :
    Ensures failing (Parser.position >>= next) s post := h

theorem node {start : Nat} {next : Span → Parser α}
    (h : Ensures failing (next ⟨start, s.previousEnd⟩) { s with nodes := s.nodes + 1 } post) :
    Ensures failing (Parser.node start >>= next) s post := h

end Ensures

theorem finish_of_kind {lexeme : Lexeme} (h : lexeme.kind = .finish) : lexeme = .finish := by
  cases lexeme <;> cases h
  rfl

/-- The failure reports one of the tokens. -/
def Blames (input : List Token) (failure : ParseFailure) : Prop :=
  ∃ token ∈ input, ∃ message : Message, message.isSyntaxError = true ∧
    failure = .fault (.error token.span message)

variable {input : List Token} {post : α → ParserState → Prop}

theorem ensures_fail (hs : s.Ready input) {message : Message}
    (hmessage : message.isSyntaxError = true) : Ensures (Blames input) (fail message) s post :=
  ⟨s.current, hs.current_mem, message, hmessage, rfl⟩

theorem ensures_expected (hs : s.Ready input) (what : String) :
    Ensures (Blames input) (expected what) s post :=
  ⟨s.current, hs.current_mem, _, rfl, rfl⟩

theorem isSyntaxError_of_faultMessage? {lexeme : Lexeme} {message : Message}
    (h : faultMessage? lexeme = some message) : message.isSyntaxError = true := by
  cases lexeme <;> cases h <;> rfl

theorem run_checkCurrent_of_eq_none (h : faultMessage? s.current.lexeme = none) :
    checkCurrent.run s = .ok ((), s) := by
  unfold checkCurrent
  rw [StateT.run_bind, StateT.run_get]
  simp only [pure_bind, h]
  rfl

theorem run_checkCurrent_of_eq_some {message : Message}
    (h : faultMessage? s.current.lexeme = some message) :
    checkCurrent.run s = .error (.fault (.error s.current.span message)) := by
  unfold checkCurrent
  rw [StateT.run_bind, StateT.run_get]
  simp only [pure_bind, h]
  rfl

theorem ensures_checkCurrent (hcurrent : s.current ∈ input) :
    Ensures (Blames input) checkCurrent s fun _ next =>
      next = s ∧ faultMessage? s.current.lexeme = none := by
  unfold Ensures
  cases h : faultMessage? s.current.lexeme with
  | none =>
    rw [run_checkCurrent_of_eq_none h]
    exact ⟨rfl, rfl⟩
  | some message =>
    rw [run_checkCurrent_of_eq_some h]
    exact ⟨s.current, hcurrent, message, isSyntaxError_of_faultMessage? h, rfl⟩

theorem run_advance (h : s.current.kind ≠ .finish) :
    advance.run s = checkCurrent.run s.advance := by
  simp only [advance, kind]
  change (if s.current.kind = .finish then _ else _ : Parser Unit).run s = _
  rw [if_neg h]
  rfl

theorem run_advance_of_finish (h : s.current.kind = .finish) :
    advance.run s = .error .pastEnd := by
  simp only [advance, kind]
  change (if s.current.kind = .finish then _ else _ : Parser Unit).run s = _
  rw [if_pos h]
  rfl

theorem ensures_advance (hs : s.Ready input) (hne : s.current.lexeme ≠ .finish) :
    Ensures (Blames input) advance s fun _ next =>
      s.Consumes input next (Spelling.lexeme s.current.lexeme) := by
  obtain ⟨htokens, hclosed, hwithin⟩ := hs.tail hne
  have hkind : s.current.kind ≠ .finish := fun h => hne (finish_of_kind h)
  have hcurrent : s.advance.current ∈ input :=
    hwithin _ (ParserState.current_mem_tokens hclosed)
  unfold Ensures
  rw [run_advance hkind]
  refine (ensures_checkCurrent hcurrent).mono fun _ next ⟨hsame, hfault⟩ => ?_
  obtain rfl := hsame
  refine ⟨⟨hwithin, hclosed, hfault⟩, [s.current], ⟨s.current.span, rfl⟩, htokens, rfl, ?_⟩
  intro token htoken
  obtain rfl := List.mem_singleton.1 htoken
  exact hs.noFault

end Parser
end Idl
