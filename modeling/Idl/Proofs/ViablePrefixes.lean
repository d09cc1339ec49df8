import Idl.Proofs.Parsing

/-!
# Where the parser stops

Run on any tokens, a parsing function takes off a sentence of its part of the grammar, or the tokens
it has taken begin such a sentence and it reports the next one. Either way it has seen no token
behind the next one.
-/
namespace Idl

namespace Grammar
open Computability

/-- The tokens that form a sentence of the language, none of them a lexical fault. -/
def written (language : Language TokenKind) : Language Token :=
  {tokens | tokens.map Token.kind ∈ language ∧
    ∀ token ∈ tokens, Parser.faultMessage? token.lexeme = none}

/-- What such tokens begin with. -/
def beginnings (language : Language TokenKind) : Language Token :=
  {tokens | ∃ rest, tokens ++ rest ∈ written language}

section Written

variable {language language' : Language TokenKind} {tokens tokens' : List Token}

theorem nil_mem_written_one : [] ∈ written 1 := by
  refine ⟨rfl, fun token htoken => ?_⟩
  exact absurd htoken List.not_mem_nil

theorem append_mem_written (h : tokens ∈ written language) (h' : tokens' ∈ written language') :
    tokens ++ tokens' ∈ written (language * language') := by
  refine ⟨?_, List.forall_mem_append.2 ⟨h.2, h'.2⟩⟩
  rw [List.map_append]
  exact Language.append_mem_mul h.1 h'.1

theorem written_mono (hle : language ≤ language') (h : tokens ∈ written language) :
    tokens ∈ written language' :=
  ⟨hle h.1, h.2⟩

theorem mem_beginnings (h : tokens ∈ written language) : tokens ∈ beginnings language :=
  ⟨[], by rwa [List.append_nil]⟩

theorem beginnings_mono (hle : language ≤ language') (h : tokens ∈ beginnings language) :
    tokens ∈ beginnings language' := by
  obtain ⟨rest, hrest⟩ := h
  exact ⟨rest, written_mono hle hrest⟩

theorem append_mem_beginnings (h : tokens ∈ written language)
    (h' : tokens' ∈ beginnings language') :
    tokens ++ tokens' ∈ beginnings (language * language') := by
  obtain ⟨rest, hrest⟩ := h'
  exact ⟨rest, by rw [List.append_assoc]; exact append_mem_written h hrest⟩

end Written

/-- Some tokens form a sentence of the language. -/
class Productive (language : Language TokenKind) : Prop where
  exists_mem : ∃ tokens, tokens ∈ written language

section Productive

variable {language language' : Language TokenKind} {tokens : List Token}

theorem productive_token {kind : TokenKind} (lexeme : Lexeme) (hkind : lexeme.kind = kind)
    (hfault : Parser.faultMessage? lexeme = none) : Productive (token kind) :=
  ⟨[⟨lexeme, ⟨0, 0⟩⟩], congrArg (fun kind => [kind]) hkind, List.forall_mem_singleton.2 hfault⟩

instance : Productive 1 := ⟨[], nil_mem_written_one⟩

instance (word : Keyword) : Productive (token (.keyword word)) :=
  productive_token (.keyword word) rfl rfl

instance (sign : Mark) : Productive (token (.mark sign)) :=
  productive_token (.mark sign) rfl rfl

instance : Productive (token .identifier) := productive_token (.identifier "") rfl rfl

instance : Productive (token .integer) := productive_token (.integer 0) rfl rfl

instance : Productive (token .string) := productive_token (.string "") rfl rfl

instance (word : Keyword) : Productive (keyword word) :=
  inferInstanceAs (Productive (token _))

instance (sign : Mark) : Productive (mark sign) := inferInstanceAs (Productive (token _))

instance [Productive language] [Productive language'] : Productive (language * language') := by
  obtain ⟨tokens, h⟩ := ‹Productive language›.exists_mem
  obtain ⟨tokens', h'⟩ := ‹Productive language'›.exists_mem
  exact ⟨_, append_mem_written h h'⟩

instance [Productive language] : Productive (language + language') := by
  obtain ⟨tokens, h⟩ := ‹Productive language›.exists_mem
  exact ⟨tokens, written_mono (fun _ h => .inl h) h⟩

instance : Productive (language∗) := ⟨[], Language.nil_mem_kstar _, nil_mem_written_one.2⟩

instance : Productive (optional language) := ⟨[], .inl rfl, nil_mem_written_one.2⟩

instance : Productive (items language) := inferInstanceAs (Productive (_∗))

instance (opening closing : Mark) : Productive (enclosed opening language closing) :=
  inferInstanceAs (Productive (_ * _ * _))

instance : Productive dotted := inferInstanceAs (Productive (_ * _))

instance : Productive type := by
  have hle : keyword .bool ≤ type := by
    rintro _ rfl
    exact .builtin .bool
  obtain ⟨tokens, h⟩ := (inferInstance : Productive (keyword .bool)).exists_mem
  exact ⟨tokens, written_mono hle h⟩

instance : Productive value := by
  have hle : token .integer ≤ value := by
    rintro _ rfl
    exact .integer
  obtain ⟨tokens, h⟩ := (inferInstance : Productive (token .integer)).exists_mem
  exact ⟨tokens, written_mono hle h⟩

instance : Productive entry := inferInstanceAs (Productive (_ * _ * _))

instance : Productive order := inferInstanceAs (Productive (optional _))

instance : Productive argument := inferInstanceAs (Productive (_ * _ * _))

instance : Productive field := inferInstanceAs (Productive (_ * _ * _ * _ * _))

instance : Productive enumEntry := inferInstanceAs (Productive (_ * _))

instance : Productive method := inferInstanceAs (Productive (_ * _ * _ * _ * _))

instance : Productive constant := inferInstanceAs (Productive (_ * _ * _ * _ * _))

instance : Productive definition := inferInstanceAs (Productive (_ + _ + _ + _ + _))

instance : Productive segment := inferInstanceAs (Productive (_ + _))

instance : Productive document := inferInstanceAs (Productive (_ * _))

theorem nil_mem_beginnings [Productive language] : [] ∈ beginnings language :=
  ‹Productive language›.exists_mem

theorem mem_beginnings_mul [Productive language'] (h : tokens ∈ beginnings language) :
    tokens ∈ beginnings (language * language') := by
  obtain ⟨rest, hrest⟩ := h
  obtain ⟨last, hlast⟩ := ‹Productive language'›.exists_mem
  exact ⟨rest ++ last, by rw [← List.append_assoc]; exact append_mem_written hrest hlast⟩

end Productive

theorem nil_notMem_token {kind : TokenKind} : [] ∉ token kind :=
  fun h => List.cons_ne_nil _ _ (mem_token.1 h).symm

end Grammar

namespace ParserState

variable {s : ParserState}

theorem current_eq {token : Token} {rest : List Token} (h : s.tokens = token :: rest) :
    s.current = token := by
  rw [current, h]
  rfl

/-- The token that is next stays next if the tokens are others only from a later one on. -/
theorem exists_tail {before after : List Token} {token : Token}
    (h : s.tokens = before ++ token :: after) (tail : List Token) :
    ∃ tail', before ++ token :: tail = s.current :: tail' := by
  cases before with
  | nil => exact ⟨tail, by rw [current_eq h]; rfl⟩
  | cons first before => exact ⟨before ++ token :: tail, by rw [current_eq h]; rfl⟩

theorem Ready.withNodes {input : List Token} (h : s.Ready input) (nodes : Nat) :
    ParserState.Ready input { s with nodes } :=
  ⟨h.within, h.closed, h.noFault⟩

open Grammar in
/-- From one state to the next, a sentence of the language is passed. -/
def Passes (s next : ParserState) (language : Language TokenKind) : Prop :=
  ∃ taken, s.tokens = taken ++ next.tokens ∧ taken ∈ written language

namespace Passes

variable {next : ParserState} {language : Language TokenKind}

theorem length_le (h : s.Passes next language) : next.tokens.length ≤ s.tokens.length := by
  obtain ⟨taken, htaken, -⟩ := h
  rw [htaken, List.length_append]
  exact Nat.le_add_left _ _

theorem length_lt (h : s.Passes next language) (hnil : [] ∉ language) :
    next.tokens.length < s.tokens.length := by
  obtain ⟨taken, htaken, hmem⟩ := h
  have hne : taken ≠ [] := by
    rintro rfl
    exact hnil hmem.1
  have hpos := List.length_pos_iff.2 hne
  rw [htaken, List.length_append]
  omega

end Passes
end ParserState

namespace Parser
open Grammar Computability

variable {α β : Type} {input : List Token} {s : ParserState}

/-- Where a parser may stop: after the tokens, at the token, with the message. -/
abbrev Stops := List Token → Token → Message → Prop

/-- The message that says that a token does not belong where it is. -/
def Refuses (token : Token) (message : Message) : Prop :=
  match faultMessage? token.lexeme with
  | some fault => message = fault
  | none => ∃ what, message = .expected what token.kind

theorem refuses_of_fault {token : Token} {message : Message}
    (h : faultMessage? token.lexeme = some message) : Refuses token message := by
  unfold Refuses
  rw [h]

/-- Within a sentence of the language. -/
def Within (language : Language TokenKind) : Stops := fun before token message =>
  before ∈ beginnings language ∧ Refuses token message

/-- The parser takes off a sentence of the language or stops at a token. The outcome would be the
same whatever came behind the token that is next then. -/
def FollowsAt (input : List Token) (language : Language TokenKind) (stops : Stops)
    (parser : Parser α) (s : ParserState) : Prop :=
  match parser.run s with
  | .ok (result, next) => next.Ready input ∧ ∃ taken, s.tokens = taken ++ next.tokens ∧
      taken ∈ written language ∧ ∀ tail,
        parser.run { s with tokens := taken ++ next.current :: tail } =
          .ok (result, { next with tokens := next.current :: tail })
  | .error failure => ∃ before token after message, s.tokens = before ++ token :: after ∧
      failure = .fault (.error token.span message) ∧ stops before token message ∧
      ∀ tail, parser.run { s with tokens := before ++ token :: tail } = .error failure

namespace FollowsAt

variable {language language' : Language TokenKind} {stops stops' : Stops}

theorem mono {parser : Parser α} (h : FollowsAt input language stops parser s)
    (hle : language ≤ language') (hstops : ∀ before token message,
      stops before token message → stops' before token message) :
    FollowsAt input language' stops' parser s := by
  unfold FollowsAt at h ⊢
  split at h
  · obtain ⟨hnext, taken, htaken, hmem, hsame⟩ := h
    exact ⟨hnext, taken, htaken, written_mono hle hmem, hsame⟩
  · obtain ⟨before, token, after, message, htokens, hfailure, hstop, hsame⟩ := h
    exact ⟨before, token, after, message, htokens, hfailure, hstops _ _ _ hstop, hsame⟩

theorem of_le {parser : Parser α} (h : FollowsAt input language (Within language) parser s)
    (hle : language ≤ language') : FollowsAt input language' (Within language') parser s :=
  h.mono hle fun _ _ _ hstop => ⟨beginnings_mono hle hstop.1, hstop.2⟩

theorem pure (hs : s.Ready input) (result : α) : FollowsAt input 1 stops (Pure.pure result) s := by
  obtain ⟨rest, hrest⟩ := hs.exists_cons
  exact ⟨hs, [], rfl, nil_mem_written_one, fun tail => rfl⟩

theorem fail (hs : s.Ready input) {message : Message} (h : stops [] s.current message) :
    FollowsAt input language stops (Parser.fail message : Parser α) s := by
  obtain ⟨rest, hrest⟩ := hs.exists_cons
  exact ⟨[], s.current, rest, message, hrest, rfl, h, fun tail => rfl⟩

theorem bind {stops₁ stops₂ : Stops} {first : Parser α} {second : α → Parser β}
    (h : FollowsAt input language stops₁ first s)
    (hsecond : ∀ result next, next.Ready input → s.Passes next language →
      FollowsAt input language' stops₂ (second result) next)
    (hstops₁ : ∀ before token message, stops₁ before token message → stops before token message)
    (hstops₂ : ∀ taken ∈ written language, ∀ before token message,
      stops₂ before token message → stops (taken ++ before) token message) :
    FollowsAt input (language * language') stops (first >>= second) s := by
  unfold FollowsAt at h
  unfold FollowsAt
  rw [StateT.run_bind]
  cases hfirst : first.run s with
  | error failure =>
    rw [hfirst] at h
    obtain ⟨before, token, after, message, htokens, hfailure, hstop, hsame⟩ := h
    refine ⟨before, token, after, message, htokens, hfailure, hstops₁ _ _ _ hstop, fun tail => ?_⟩
    rw [StateT.run_bind, hsame tail]
    rfl
  | ok pair =>
    obtain ⟨result, middle⟩ := pair
    rw [hfirst] at h
    obtain ⟨hmiddle, taken, htaken, hmem, hsame⟩ := h
    have hrun := hsecond result middle hmiddle ⟨taken, htaken, hmem⟩
    unfold FollowsAt at hrun
    have hbind : (Except.ok (result, middle) >>= fun pair => (second pair.1).run pair.2) =
        (second result).run middle := rfl
    rw [hbind]
    cases hnext : (second result).run middle with
    | error failure =>
      rw [hnext] at hrun
      obtain ⟨before, token, after, message, htokens, hfailure, hstop, hsame'⟩ := hrun
      refine ⟨taken ++ before, token, after, message, ?_, hfailure,
        hstops₂ _ hmem _ _ _ hstop, fun tail => ?_⟩
      · rw [htaken, htokens, List.append_assoc]
      -- what the second parser takes is the tail that the first one is run with
      · obtain ⟨tail', htail⟩ := ParserState.exists_tail htokens tail
        rw [List.append_assoc, htail, StateT.run_bind, hsame tail', ← hsame' tail, htail]
        rfl
    | ok pair =>
      obtain ⟨result', next⟩ := pair
      rw [hnext] at hrun
      obtain ⟨hready, taken', htaken', hmem', hsame'⟩ := hrun
      refine ⟨hready, taken ++ taken', ?_, append_mem_written hmem hmem', fun tail => ?_⟩
      · rw [htaken, htaken', List.append_assoc]
      · obtain ⟨rest, hrest⟩ := hready.exists_cons
        obtain ⟨tail', htail⟩ := ParserState.exists_tail (htaken'.trans (by rw [hrest])) tail
        rw [List.append_assoc, htail, StateT.run_bind, hsame tail', ← hsame' tail, htail]
        rfl

/-- The outcome depends on the next token only through what the parser does with it. -/
theorem congr (hs : s.Ready input) {parser other : Parser α}
    (h : FollowsAt input language stops other s)
    (hrun : ∀ tail, parser.run { s with tokens := s.current :: tail } =
      other.run { s with tokens := s.current :: tail }) :
    FollowsAt input language stops parser s := by
  obtain ⟨rest, hrest⟩ := hs.exists_cons
  have hself : parser.run s = other.run s := by
    have hsame := hrun rest
    rwa [← hrest] at hsame
  unfold FollowsAt at h ⊢
  rw [hself]
  cases hresult : other.run s with
  | error failure =>
    rw [hresult] at h
    obtain ⟨before, token, after, message, htokens, hfailure, hstop, hsame⟩ := h
    refine ⟨before, token, after, message, htokens, hfailure, hstop, fun tail => ?_⟩
    obtain ⟨tail', htail⟩ := ParserState.exists_tail htokens tail
    have hother := hsame tail
    rwa [htail, ← hrun tail', ← htail] at hother
  | ok pair =>
    rw [hresult] at h
    obtain ⟨hready, taken, htaken, hmem, hsame⟩ := h
    refine ⟨hready, taken, htaken, hmem, fun tail => ?_⟩
    obtain ⟨after, hafter⟩ := hready.exists_cons
    obtain ⟨tail', htail⟩ := ParserState.exists_tail (htaken.trans (by rw [hafter])) tail
    have hother := hsame tail
    rwa [htail, ← hrun tail', ← htail] at hother

theorem current (hs : s.Ready input) {next : Token → Parser α}
    (h : FollowsAt input language stops (next s.current) s) :
    FollowsAt input language stops (Parser.current >>= next) s :=
  h.congr hs fun _ => rfl

theorem kind (hs : s.Ready input) {next : TokenKind → Parser α}
    (h : FollowsAt input language stops (next s.current.kind) s) :
    FollowsAt input language stops (Parser.kind >>= next) s :=
  h.congr hs fun _ => rfl

theorem position (hs : s.Ready input) {next : Nat → Parser α}
    (h : FollowsAt input language stops (next s.current.span.start) s) :
    FollowsAt input language stops (Parser.position >>= next) s :=
  h.congr hs fun _ => rfl

theorem node {start : Nat} {next : Span → Parser α}
    (h : FollowsAt input language stops (next ⟨start, s.previousEnd⟩)
      { s with nodes := s.nodes + 1 }) :
    FollowsAt input language stops (Parser.node start >>= next) s := h

/-- One step within the language after another. -/
theorem within_bind [Productive language'] {first : Parser α} {second : α → Parser β}
    (h : FollowsAt input language (Within language) first s)
    (hsecond : ∀ result next, next.Ready input → s.Passes next language →
      FollowsAt input language' (Within language') (second result) next) :
    FollowsAt input (language * language') (Within (language * language')) (first >>= second) s :=
  h.bind hsecond
    (fun _ _ _ hstop => ⟨mem_beginnings_mul hstop.1, hstop.2⟩)
    fun _ htaken _ _ _ hstop => ⟨append_mem_beginnings htaken hstop.1, hstop.2⟩

/-- A last step that takes no tokens and cannot stop. -/
theorem last {first : Parser α} {second : α → Parser β}
    (h : FollowsAt input language stops first s)
    (hsecond : ∀ result next, next.Ready input →
      FollowsAt input 1 (fun _ _ _ => False) (second result) next) :
    FollowsAt input language stops (first >>= second) s := by
  have hbind := h.bind (fun result next hnext _ => hsecond result next hnext)
    (fun _ _ _ hstop => hstop) fun _ _ _ _ _ hstop => hstop.elim
  rwa [mul_one] at hbind

theorem map {parser : Parser α} {f : α → β} (h : FollowsAt input language stops parser s) :
    FollowsAt input language stops (f <$> parser) s := by
  rw [← bind_pure_comp]
  exact h.last fun result next hnext => .pure hnext (f result)

theorem expected [Productive language] (hs : s.Ready input) (what : String) :
    FollowsAt input language (Within language) (Parser.expected what : Parser α) s := by
  have hrefuses : Refuses s.current (.expected what s.current.kind) := by
    unfold Refuses
    rw [hs.noFault]
    exact ⟨what, rfl⟩
  exact (fail hs ⟨nil_mem_beginnings, hrefuses⟩).congr hs fun _ => rfl

theorem checkCurrent (hs : s.Ready input) {next : Unit → Parser α}
    (h : FollowsAt input language stops (next ()) s) :
    FollowsAt input language stops (Parser.checkCurrent >>= next) s := by
  refine h.congr hs fun tail => ?_
  rw [StateT.run_bind,
    run_checkCurrent_of_eq_none (s := { s with tokens := s.current :: tail }) hs.noFault]
  rfl

/-- A token that is a lexical fault is reported as soon as it is next. -/
theorem checkCurrent_of_fault [Productive language] (hclosed : Token.Closed s.tokens)
    {message : Message} (hfault : faultMessage? s.current.lexeme = some message)
    (next : Unit → Parser α) :
    FollowsAt input language (Within language) (Parser.checkCurrent >>= next) s := by
  obtain ⟨after, hafter⟩ := ParserState.exists_cons_of_closed hclosed
  unfold FollowsAt
  rw [StateT.run_bind, run_checkCurrent_of_eq_some hfault]
  refine ⟨[], s.current, after, message, hafter, rfl, ⟨nil_mem_beginnings, refuses_of_fault hfault⟩,
    fun tail => ?_⟩
  rw [StateT.run_bind, List.nil_append,
    run_checkCurrent_of_eq_some (s := { s with tokens := s.current :: tail }) hfault]
  rfl

/-- The token behind the one that is taken is looked at. -/
theorem advance (hs : s.Ready input) {kind : TokenKind} (hkind : s.current.kind = kind)
    (hne : kind ≠ .finish) :
    FollowsAt input (token kind) (Within (token kind)) Parser.advance s := by
  subst hkind
  obtain ⟨htokens, hclosed, hwithin⟩ := hs.tail fun h => hne (congrArg Lexeme.kind h)
  obtain ⟨after, hafter⟩ := ParserState.exists_cons_of_closed hclosed
  have htaken : [s.current] ∈ written (token s.current.kind) :=
    ⟨rfl, List.forall_mem_singleton.2 hs.noFault⟩
  have hsame : ∀ tail, Parser.advance.run { s with tokens := s.current :: tail } =
      Parser.checkCurrent.run { s.advance with tokens := tail } := fun tail =>
    run_advance (s := { s with tokens := s.current :: tail }) hne
  unfold FollowsAt
  rw [run_advance hne]
  cases hfault : faultMessage? s.advance.current.lexeme with
  | some message =>
    rw [run_checkCurrent_of_eq_some hfault]
    refine ⟨[s.current], s.advance.current, after, message, ?_, rfl,
      ⟨mem_beginnings htaken, refuses_of_fault hfault⟩, ?_⟩
    · rw [htokens, hafter, List.singleton_append]
    · exact fun tail => (hsame _).trans
        (run_checkCurrent_of_eq_some (s := { s.advance with tokens := _ :: tail }) hfault)
  | none =>
    rw [run_checkCurrent_of_eq_none hfault]
    exact ⟨⟨hwithin, hclosed, hfault⟩, [s.current], htokens, htaken, fun tail => (hsame _).trans
      (run_checkCurrent_of_eq_none (s := { s.advance with tokens := _ :: tail }) hfault)⟩

end FollowsAt

/-- With at most so many tokens left, the parser takes off a sentence of the language or stops
within one. -/
def Follows (input : List Token) (bound : Nat) (language : Language TokenKind)
    (parser : Parser α) : Prop :=
  ∀ s : ParserState, s.Ready input → s.tokens.length ≤ bound →
    FollowsAt input language (Within language) parser s

variable {bound : Nat} {language language' : Language TokenKind}

/-- A token of a known kind is taken and then fewer are left. -/
theorem FollowsAt.step [Productive language] (hs : s.Ready input)
    (hbound : s.tokens.length ≤ bound + 1) {kind : TokenKind} (hkind : s.current.kind = kind)
    (hne : kind ≠ .finish) {next : Unit → Parser α} (h : Follows input bound language (next ())) :
    FollowsAt input (token kind * language) (Within (token kind * language))
      (Parser.advance >>= next) s := by
  refine (FollowsAt.advance hs hkind hne).within_bind ?_
  intro _ state hstate hpasses
  exact h state hstate (Nat.lt_succ_iff.1 ((hpasses.length_lt nil_notMem_token).trans_le hbound))

/-- The token is all that is taken. -/
theorem FollowsAt.leaf (hs : s.Ready input) {kind : TokenKind} (hkind : s.current.kind = kind)
    (hne : kind ≠ .finish) {next : Unit → Parser α}
    (h : Follows input s.tokens.length 1 (next ())) :
    FollowsAt input (token kind) (Within (token kind)) (Parser.advance >>= next) s := by
  rw [← mul_one (token kind)]
  exact .step hs (Nat.le_succ _) hkind hne h

namespace Follows

variable {parser : Parser α}

theorem mono {bound' : Nat} (h : Follows input bound language parser) (hle : bound' ≤ bound) :
    Follows input bound' language parser :=
  fun s hs hbound => h s hs (hbound.trans hle)

theorem of_le (h : Follows input bound language parser) (hle : language ≤ language') :
    Follows input bound language' parser :=
  fun s hs hbound => (h s hs hbound).of_le hle

/-- Some token is always left. -/
theorem zero : Follows input 0 language parser :=
  fun _ hs hbound => absurd hs.length_pos (by omega)

theorem pure (result : α) : Follows input bound 1 (Pure.pure result : Parser α) :=
  fun _ hs _ => .pure hs result

theorem expected [Productive language] (what : String) :
    Follows input bound language (Parser.expected what : Parser α) :=
  fun _ hs _ => .expected hs what

theorem expected_bind [Productive language] (what : String) (next : α → Parser β) :
    Follows input bound language (Parser.expected what >>= next) :=
  fun _ hs _ => (FollowsAt.expected hs what).congr hs fun _ => rfl

theorem kind {next : TokenKind → Parser α}
    (h : ∀ kind, Follows input bound language (next kind)) :
    Follows input bound language (Parser.kind >>= next) :=
  fun s hs hbound => .kind hs (h _ s hs hbound)

theorem position {next : Nat → Parser α}
    (h : ∀ start, Follows input bound language (next start)) :
    Follows input bound language (Parser.position >>= next) :=
  fun s hs hbound => .position hs (h _ s hs hbound)

theorem node {start : Nat} {next : Span → Parser α}
    (h : ∀ span, Follows input bound language (next span)) :
    Follows input bound language (Parser.node start >>= next) :=
  fun _ hs hbound => .node (h _ _ (hs.withNodes _) hbound)

theorem bind [Productive language'] {second : α → Parser β}
    (h : Follows input bound language parser)
    (hsecond : ∀ result, Follows input bound language' (second result)) :
    Follows input bound (language * language') (parser >>= second) := by
  intro s hs hbound
  refine (h s hs hbound).within_bind fun result next hnext hpasses => ?_
  exact hsecond result next hnext (hpasses.length_le.trans hbound)

/-- Behind a sentence that is not empty fewer tokens are left. -/
theorem bind_fewer [Productive language'] (hnil : [] ∉ language) {second : α → Parser β}
    (h : Follows input (bound + 1) language parser)
    (hsecond : ∀ result, Follows input bound language' (second result)) :
    Follows input (bound + 1) (language * language') (parser >>= second) := by
  intro s hs hbound
  refine (h s hs hbound).within_bind fun result next hnext hpasses => ?_
  exact hsecond result next hnext
    (Nat.lt_succ_iff.1 ((hpasses.length_lt hnil).trans_le hbound))

/-- The last step that takes tokens. -/
theorem last {second : α → Parser β} (h : Follows input bound language parser)
    (hsecond : ∀ result, Follows input bound 1 (second result)) :
    Follows input bound language (parser >>= second) := by
  rw [← mul_one language]
  exact h.bind hsecond

theorem map {f : α → β} (h : Follows input bound language parser) :
    Follows input bound language (f <$> parser) :=
  fun s hs hbound => (h s hs hbound).map

/-- A token that need not be there, with what comes after it. -/
theorem accept [Productive language] {wanted : TokenKind} (hwanted : wanted ≠ .finish)
    {next : Bool → Parser α} (htrue : Follows input bound language (next true))
    (hfalse : Follows input (bound + 1) language' (next false)) :
    Follows input (bound + 1) (language' + token wanted * language)
      (Parser.accept wanted >>= next) := by
  intro s hs hbound
  unfold Parser.accept
  rw [bind_assoc]
  refine .kind hs ?_
  split
  · next hkind =>
    rw [bind_assoc]
    exact (FollowsAt.step hs hbound hkind hwanted htrue).of_le fun _ h => .inr h
  · exact (hfalse s hs hbound).of_le fun _ h => .inl h

end Follows

theorem follows_accept {wanted : TokenKind} (hwanted : wanted ≠ .finish) :
    Follows input bound (optional (token wanted)) (accept wanted) := by
  have h : Follows input (bound + 1) (1 + token wanted * 1) (accept wanted >>= pure) :=
    .accept hwanted (.pure true) (.pure false)
  rw [bind_pure, mul_one] at h
  exact h.mono (Nat.le_succ bound)

theorem follows_expect {wanted : TokenKind} [Productive (token wanted)] (hwanted : wanted ≠ .finish)
    (what : String) : Follows input bound (token wanted) (expect wanted what) := by
  have h : Follows input (bound + 1) (token wanted + token wanted * 1) (expect wanted what) :=
    .accept hwanted (.pure ()) (.expected what)
  rw [mul_one] at h
  exact (h.mono (Nat.le_succ bound)).of_le (sup_idem (token wanted)).le

theorem follows_clause [Productive language] {wanted : TokenKind} (hwanted : wanted ≠ .finish)
    {item : Parser α} (hitem : Follows input bound language item) :
    Follows input bound (optional (token wanted * language)) (clause wanted item) :=
  (Follows.accept hwanted hitem.map (.pure none)).mono (Nat.le_succ bound)

theorem follows_separator :
    Follows input bound (optional Grammar.separator) separator := by
  intro s hs hbound
  unfold separator
  refine .kind hs ?_
  split
  · next hkind =>
    rcases List.mem_pair.1 hkind with hkind | hkind
    · exact (FollowsAt.advance hs hkind TokenKind.noConfusion).of_le fun _ h => .inr (.inl h)
    · exact (FollowsAt.advance hs hkind TokenKind.noConfusion).of_le fun _ h => .inr (.inr h)
  · exact (FollowsAt.pure hs ()).of_le fun _ h => .inl h

end Parser
end Idl
