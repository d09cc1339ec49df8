import Idl.Proofs.LoadTrace
import Idl.Proofs.MeasuredParser
import Idl.Proofs.StoppingPlaces

/-!
# Syntax errors

The parser reports the first token that cannot continue: with the tokens in front of it the file can
still be completed to one that has a tree, with that token it cannot.
-/
namespace Idl

namespace Grammar
open Computability

/-- The tokens begin those of a file that has a tree. -/
def Viable (tokens : List Token) : Prop :=
  tokens ∈ beginnings (document * token .finish)

theorem viable_of_mem_beginnings {tokens : List Token} (h : tokens ∈ beginnings document) :
    Viable tokens := by
  obtain ⟨rest, hrest⟩ := h
  have hfinish : [⟨.finish, ⟨0, 0⟩⟩] ∈ written (token .finish) :=
    ⟨rfl, List.forall_mem_singleton.2 rfl⟩
  refine ⟨rest ++ [⟨.finish, ⟨0, 0⟩⟩], ?_⟩
  rw [← List.append_assoc]
  exact append_mem_written hrest hfinish

theorem Viable.of_prefix {front tokens : List Token} (h : Viable tokens)
    (hfront : front <+: tokens) : Viable front := by
  obtain ⟨rest, hrest⟩ := h
  obtain ⟨middle, rfl⟩ := hfront
  exact ⟨middle ++ rest, by rwa [← List.append_assoc]⟩

theorem IsHeader.faultMessage?_eq_none {token : Token} (h : IsHeader token.kind) :
    Parser.faultMessage? token.lexeme = none := by
  rw [← Parser.isFault_kind]
  rcases h with hkind | hkind
  · exact congrArg TokenKind.isFault hkind
  · exact congrArg TokenKind.isFault hkind

theorem mem_beginnings_header {token : Token} (h : IsHeader token.kind) :
    [token] ∈ beginnings header := by
  have hfault : ∀ other ∈ [token], Parser.faultMessage? other.lexeme = none :=
    List.forall_mem_singleton.2 h.faultMessage?_eq_none
  rcases h with hkind | hkind
  · have hnaming : [token] ∈ written (keyword .naming) :=
      ⟨congrArg (fun kind => [kind]) hkind, hfault⟩
    exact beginnings_mono (fun _ h => .inr h)
      (mem_beginnings_mul (mem_beginnings_mul (mem_beginnings hnaming)))
  · have hinclusion : [token] ∈ written (keyword .inclusion) :=
      ⟨congrArg (fun kind => [kind]) hkind, hfault⟩
    exact beginnings_mono (fun _ h => .inl h) (mem_beginnings_mul (mem_beginnings hinclusion))

/-- Where only directives have come before, another one may come. -/
theorem viable_of_header {tokens : List Token} {token : Token}
    (h : tokens ∈ written (items header)) (htoken : IsHeader token.kind) :
    Viable (tokens ++ [token]) := by
  have hle : items header * header ≤ document := by
    rintro _ ⟨first, hfirst, last, hlast, rfl⟩
    have hmore : items header * (header * optional separator) ≤ items header := kstar_mul_le_kstar
    have hitems := hmore (Language.append_mem_mul hfirst (Language.append_mem_mul hlast (.inl rfl)))
    have hdefinitions : [] ∈ items definition := Language.nil_mem_kstar _
    have hdocument := Language.append_mem_mul hitems hdefinitions
    rwa [List.append_nil, List.append_nil] at hdocument
  exact viable_of_mem_beginnings
    (beginnings_mono hle (append_mem_beginnings h (mem_beginnings_header htoken)))

end Grammar

/-- What is said about a token that does not continue those before it. -/
def Token.Explains (before : List Token) (token : Token) (message : Message) : Prop :=
  match Parser.faultMessage? token.lexeme with
  | some fault => message = fault
  | none =>
    (Grammar.IsHeader token.kind ∧ before ∈ Grammar.written Grammar.document →
      message = .headerAfterDeclaration token.kind) ∧
    (¬ (Grammar.IsHeader token.kind ∧ before ∈ Grammar.written Grammar.document) →
      ∃ what, message = .expected what token.kind)

/-- Of tokens with different starts, each is in one place only. -/
theorem Token.eq_of_span_eq {before before' after after' : List Token} {token token' : Token}
    (hsorted : (before ++ token :: after).Pairwise
      fun token next => token.span.start < next.span.start)
    (h : before ++ token :: after = before' ++ token' :: after')
    (hspan : token.span = token'.span) : before = before' ∧ token = token' := by
  have hdistinct : ∀ {front back : List Token} {first : Token},
      (front ++ first :: back).Pairwise (fun token next => token.span.start < next.span.start) →
        ∀ last ∈ back, first.span ≠ last.span := by
    intro front back first hsorted last hlast hspan
    have hcons := (List.pairwise_append.1 hsorted).2.1
    exact absurd (List.rel_of_pairwise_cons hcons hlast) (by rw [hspan]; exact lt_irrefl _)
  rcases List.append_eq_append_iff.1 h with ⟨between, rfl, hrest⟩ | ⟨between, rfl, hrest⟩
  · cases between with
    | nil => exact ⟨(List.append_nil _).symm, (List.cons.inj hrest).1⟩
    | cons first between =>
      obtain ⟨rfl, rfl⟩ := List.cons.inj hrest
      exact absurd hspan (hdistinct hsorted token' (by simp))
  · cases between with
    | nil => exact ⟨List.append_nil _, (List.cons.inj hrest).1.symm⟩
    | cons first between =>
      obtain ⟨rfl, rfl⟩ := List.cons.inj hrest
      rw [h] at hsorted
      exact absurd hspan.symm (hdistinct hsorted token (by simp))

namespace Parser

variable {s : ParserState} {rest : List TokenKind} {kind : TokenKind}

/-- The failure says that a directive of the kind is behind a declaration. -/
def SaysMisplaced (kind : TokenKind) (failure : ParseFailure) : Prop :=
  ∃ span, failure = .fault (.error span (.headerAfterDeclaration kind))

theorem misplaces_declaration (hkind : Grammar.IsHeader kind) (hs : s.Shows (kind :: rest))
    (fuel : Nat) : Ensures (SaysMisplaced kind) (declaration fuel) s fun _ _ => False := by
  unfold declaration
  refine .kind ?_
  rw [hs.current_kind]
  rcases hkind with rfl | rfl
  · exact ⟨s.current.span, rfl⟩
  · exact ⟨s.current.span, rfl⟩

theorem misplaces_declarations {fuel rounds : Nat} {sentence : List TokenKind}
    (hkind : Grammar.IsHeader kind) (hsentence : sentence ∈ Grammar.items Grammar.definition)
    (hs : s.Shows (sentence ++ kind :: rest)) (hrounds : (sentence ++ kind :: rest).length ≤ rounds)
    (hfuel : (sentence ++ kind :: rest).length ≤ fuel) :
    Ensures (SaysMisplaced kind) (declarations fuel rounds) s fun _ _ => False := by
  refine ensures_declarations_append hsentence hs hrounds hfuel
    (.cons ⟨hkind.starts.ends, hkind.starts.not_isSeparator⟩ rest) fun rounds last h hrounds => ?_
  cases rounds with
  | zero => simp at hrounds
  | succ rounds =>
    have hmore : kind ≠ .finish := fun h => hkind.starts.not_closes (h ▸ by simp [Grammar.Closes])
    rw [declarations]
    refine .kind ?_
    rw [if_neg (h.current_kind ▸ hmore)]
    exact (misplaces_declaration hkind h fuel).bind fun _ _ h => h.elim

theorem misplaces_document {fuel : Nat} {first second : List TokenKind}
    (hkind : Grammar.IsHeader kind) (hfirst : first ∈ Grammar.items Grammar.header)
    (hsecond : second ∈ Grammar.items Grammar.definition) (hnonempty : second ≠ [])
    (hs : s.Shows (first ++ second ++ kind :: rest))
    (hfuel : (first ++ second ++ kind :: rest).length ≤ fuel) :
    Ensures (SaysMisplaced kind) (document fuel) s fun _ _ => False := by
  have hthen : Meets AfterHeaders (second ++ kind :: rest) := by
    have hdefinitions := hsecond
    rw [Grammar.items, ← Language.one_add_self_mul_kstar_eq_kstar] at hdefinitions
    rcases hdefinitions with rfl | ⟨_, ⟨definition, hdefinition, _, -, rfl⟩, _, -, rfl⟩
    · exact absurd rfl hnonempty
    · simp only [List.append_assoc]
      exact (Meets.begins Grammar.begins_definition hdefinition _).mono fun _ h => .inl h
  simp only [List.append_assoc, List.length_append, List.length_cons] at hs hfuel
  unfold document
  refine (takes_checkCurrent hs).of_never.bind fun _ s hs => ?_
  refine .position ?_
  refine (takes_headers hfirst hs (by simp; omega) (by simp; omega) hthen).of_never.bind
    fun _ s1 h1 => ?_
  exact (misplaces_declarations hkind hsecond h1 (by simp; omega) (by simp; omega)).bind
    fun _ _ h => h.elim

/-- With enough fuel the parser fails so on the tokens, whatever comes behind them. -/
def BreaksOff (tokens : List Token) (failure : ParseFailure) : Prop :=
  ∃ least, ∀ fuel tail, least ≤ fuel →
    (document fuel).run ⟨tokens ++ tail, 0, 0⟩ = .error failure

/-- Tokens that the parser does not get past do not begin a file with a tree. -/
theorem BreaksOff.not_viable {tokens : List Token} {failure : ParseFailure}
    (h : BreaksOff tokens failure) : ¬ Grammar.Viable tokens := by
  rintro ⟨rest, ⟨sentence, hsentence, _, rfl, hkinds⟩, hfault⟩
  obtain ⟨least, hruns⟩ := h
  have hshows : ParserState.Shows ⟨tokens ++ rest, 0, 0⟩ (sentence ++ [.finish]) :=
    ⟨hkinds.symm, hfault⟩
  have htakes := takes_document hsentence hshows (le_max_right least _)
  unfold Takes Ensures at htakes
  rw [hruns _ rest (le_max_left _ _)] at htakes
  exact htakes

variable {before : List Token} {token : Token} {message : Message}

/-- A directive that cannot continue a file with a declaration in it is reported as such. -/
theorem BreaksOff.message_eq
    (h : BreaksOff (before ++ [token]) (.fault (.error token.span message)))
    (hheader : Grammar.IsHeader token.kind) (hbefore : before ∈ Grammar.written Grammar.document) :
    message = .headerAfterDeclaration token.kind := by
  obtain ⟨⟨first, hfirst, second, hsecond, hkinds⟩, hfault⟩ := hbefore
  change first ++ second = before.map Token.kind at hkinds
  have hnonempty : second ≠ [] := by
    rintro rfl
    rw [List.append_nil] at hkinds
    exact h.not_viable (Grammar.viable_of_header ⟨hkinds ▸ hfirst, hfault⟩ hheader)
  have hshows : ParserState.Shows ⟨before ++ [token] ++ [], 0, 0⟩
      (first ++ second ++ token.kind :: []) := by
    rw [hkinds, List.append_nil]
    exact ⟨List.map_append, List.forall_mem_append.2
      ⟨hfault, List.forall_mem_singleton.2 hheader.faultMessage?_eq_none⟩⟩
  obtain ⟨least, hruns⟩ := h
  have hmisplaces := misplaces_document hheader hfirst hsecond hnonempty hshows
    (le_max_right least _)
  unfold Ensures at hmisplaces
  rw [hruns _ [] (le_max_left _ _)] at hmisplaces
  obtain ⟨span, hsame⟩ := hmisplaces
  injection hsame with hreport
  injection hreport

namespace Halts

/-- The tokens before the one at which the parser stops could have gone on in another way. -/
theorem viable (h : Halts Grammar.document Grammar.document before token message) :
    Grammar.Viable before := by
  rcases h with h | h
  · exact Grammar.viable_of_mem_beginnings h.1
  · exact Grammar.viable_of_mem_beginnings (Grammar.mem_beginnings h.1)

theorem explains (h : Halts Grammar.document Grammar.document before token message)
    (hbreaks : BreaksOff (before ++ [token]) (.fault (.error token.span message))) :
    token.Explains before message := by
  unfold Token.Explains
  split
  · next fault hfault =>
    rcases h with ⟨-, hrefuses⟩ | ⟨-, hheader, -⟩
    · unfold Refuses at hrefuses
      rwa [hfault] at hrefuses
    · rw [hheader.faultMessage?_eq_none] at hfault
      cases hfault
  · next hfault =>
    refine ⟨fun ⟨hheader, hbefore⟩ => hbreaks.message_eq hheader hbefore, fun hother => ?_⟩
    rcases h with ⟨-, hrefuses⟩ | ⟨hbefore, hheader, -⟩
    · unfold Refuses at hrefuses
      rwa [hfault] at hrefuses
    · exact absurd ⟨hheader, hbefore⟩ hother

end Halts
end Parser

namespace Source
open Grammar

variable {source : Source} {failure : ParseFailure}

theorem run_of_parse_eq_error (h : source.parse = .error failure) {fuel : Nat}
    (hfuel : source.tokens.length ≤ fuel) :
    (Parser.document fuel).run ⟨source.tokens, 0, 0⟩ = .error failure := by
  have hinput : ∀ token ∈ source.tokens, token.lexeme.IsProper :=
    fun _ h => Token.isProper_of_mem_readAll h
  have hclosed : Token.Closed source.tokens := Token.closed_readAll 0 source.chars
  rw [parse] at h
  rw [@Parser.run_document ⟨source.tokens, 0, 0⟩ hinput hclosed _ hfuel,
    ← @Parser.run_document ⟨source.tokens, 0, 0⟩ hinput hclosed _ le_rfl]
  cases hrun : (Parser.document source.tokens.length).run ⟨source.tokens, 0, 0⟩ with
  | error other =>
    simp only [hrun, Except.map] at h
    rw [Except.error.inj h]
  | ok result =>
    simp only [hrun, Except.map] at h
    cases h

/-- Where the parser stops, and that it stops there whatever comes behind. -/
theorem exists_stop (h : source.parse = .error failure) :
    ∃ before token after message, source.tokens = before ++ token :: after ∧
      failure = .fault (.error token.span message) ∧
      Parser.Halts document document before token message ∧
      Parser.BreaksOff (before ++ [token]) failure := by
  have hstops : ∀ fuel, source.tokens.length ≤ fuel →
      ∃ before token after message, source.tokens = before ++ token :: after ∧
        failure = .fault (.error token.span message) ∧
        Parser.Halts document document before token message ∧
        ∀ tail, (Parser.document fuel).run ⟨before ++ token :: tail, 0, 0⟩ = .error failure := by
    intro fuel hfuel
    have hfollows := Parser.follows_document (s := ⟨source.tokens, 0, 0⟩) fuel
      (fun _ h => h) (Token.closed_readAll 0 source.chars) hfuel
    unfold Parser.FollowsAt at hfollows
    rwa [run_of_parse_eq_error h hfuel] at hfollows
  obtain ⟨before, token, after, message, htokens, hfailure, hhalts, -⟩ := hstops _ le_rfl
  refine ⟨before, token, after, message, htokens, hfailure, hhalts, source.tokens.length,
    fun fuel tail hfuel => ?_⟩
  -- Another amount of fuel leads to the same report, so to the same token.
  obtain ⟨before', token', after', message', htokens', hfailure', -, hsame⟩ := hstops fuel hfuel
  have hsorted := source.pairwise_start_tokens
  rw [htokens] at hsorted
  rw [hfailure'] at hfailure
  have hspan : token'.span = token.span := by
    injection hfailure with hreport
    injection hreport
  obtain ⟨rfl, rfl⟩ := Token.eq_of_span_eq hsorted (htokens.symm.trans htokens') hspan.symm
  rw [List.append_assoc]
  exact hsame tail

end Source

theorem FoundFile.faults_of_parse_eq_error {file : FoundFile} {token : Token} {message : Message}
    (htoken : token ∈ Source.tokens ⟨file.path, file.text⟩)
    (hparse : Source.parse ⟨file.path, file.text⟩ = .error (.fault (.error token.span message))) :
    file.faults = [⟨.error, file.path, token.span,
      Source.lineColumn ⟨file.path, file.text⟩ token.span.start, message, []⟩] := by
  have hreports : ∀ report ∈ [Report.error token.span message], ∀ span ∈ report.spans,
      Source.Locates ⟨file.path, file.text⟩ span := by
    intro report hreport span hspan
    obtain rfl := List.mem_singleton.1 hreport
    rw [Report.spans_error, List.mem_singleton] at hspan
    rw [hspan]
    exact Source.locates_of_mem_tokens htoken
  rw [faults, hparse]
  simp only [ParseFailure.reports, Source.diagnose_eq_map hreports]
  simp [Source.place, Source.placeAll, Report.error]

/-- A file with a tree has no syntax error. One without has exactly one, about the first token that
cannot continue: the beginnings of its tokens that can be completed to a file with a tree are those
that end before this token. The message is that of the token if it is a lexical fault. If it is a
directive behind complete declarations, that is said, and else that something else was expected. -/
theorem FoundFile.faults_eq_first_misfit (file : FoundFile) :
    let source : Source := ⟨file.path, file.text⟩
    match source.parse with
    | .ok _ => file.faults = []
    | .error _ => ∃ before token after message,
      source.tokens = before ++ token :: after ∧
        (∀ front, front <+: source.tokens →
          (Grammar.Viable front ↔ front.length ≤ before.length)) ∧
        token.Explains before message ∧
        file.faults = [⟨.error, source.path, token.span, source.lineColumn token.span.start,
          message, []⟩] := by
  intro source
  cases hparse : source.parse with
  | ok parsed =>
    have hparse : Source.parse ⟨file.path, file.text⟩ = .ok parsed := hparse
    rw [faults, hparse]
  | error failure =>
    obtain ⟨before, token, after, message, htokens, rfl, hhalts, hbreaks⟩ :=
      Source.exists_stop hparse
    have hfaults := faults_of_parse_eq_error (by rw [htokens]; simp) hparse
    refine ⟨before, token, after, message, htokens, fun front hfront => ?_,
      hhalts.explains hbreaks, hfaults⟩
    have hbefore : before ++ [token] <+: source.tokens := ⟨after, by simp [htokens]⟩
    constructor
    · intro hviable
      by_contra hlength
      have hthrough : before ++ [token] <+: front :=
        List.prefix_of_prefix_length_le hbefore hfront (by simp; omega)
      exact hbreaks.not_viable (hviable.of_prefix hthrough)
    · intro hlength
      have hinside := List.prefix_of_prefix_length_le hfront
        ((List.prefix_append before [token]).trans hbefore) hlength
      exact hhalts.viable.of_prefix hinside

/-- A file with a directive behind a declaration, and with a character that begins no token. -/
def misfitFile : FoundFile :=
  ⟨"misfit.thrift", "misfit.thrift", "enum E \x7b\x7d include \"a\" @"⟩

def misfitTokens : List Token :=
  [⟨.keyword .enum, ⟨0, 4⟩⟩, ⟨.identifier "E", ⟨5, 6⟩⟩, ⟨.mark .openBrace, ⟨7, 8⟩⟩,
    ⟨.mark .closeBrace, ⟨8, 9⟩⟩, ⟨.keyword .inclusion, ⟨10, 17⟩⟩, ⟨.string "a", ⟨18, 21⟩⟩,
    ⟨.unknownChar '@', ⟨22, 23⟩⟩, ⟨.finish, ⟨23, 23⟩⟩]

/-- The directive is reported, and not the character behind it. -/
theorem faults_misfitFile :
    Source.tokens ⟨misfitFile.path, misfitFile.text⟩ = misfitTokens ∧
      (∀ front, front <+: misfitTokens → (Grammar.Viable front ↔ front.length ≤ 4)) ∧
      misfitFile.faults = [⟨.error, "misfit.thrift", ⟨10, 17⟩, ⟨1, 11⟩,
        .headerAfterDeclaration (.keyword .inclusion), []⟩] := by
  have htokens : Source.tokens ⟨misfitFile.path, misfitFile.text⟩ = misfitTokens := by
    decide +kernel
  have hfaults : misfitFile.faults = [⟨.error, "misfit.thrift", ⟨10, 17⟩, ⟨1, 11⟩,
      .headerAfterDeclaration (.keyword .inclusion), []⟩] := by
    decide +kernel
  have hmisfit := misfitFile.faults_eq_first_misfit
  refine ⟨htokens, ?_, hfaults⟩
  simp only at hmisfit
  split at hmisfit
  · cases hfaults.symm.trans hmisfit
  · obtain ⟨before, token, after, message, hsplit, hviable, -, hreport⟩ := hmisfit
    have hspan : token.span = ⟨10, 17⟩ := by
      have hsame := hreport.symm.trans hfaults
      injection hsame with hsame
      injection hsame
    have hsorted := Source.pairwise_start_tokens ⟨misfitFile.path, misfitFile.text⟩
    rw [hsplit] at hsorted
    have hwhole : before ++ token :: after =
        misfitTokens.take 4 ++ ⟨.keyword .inclusion, ⟨10, 17⟩⟩ :: misfitTokens.drop 5 :=
      hsplit.symm.trans htokens
    obtain ⟨rfl, -⟩ := Token.eq_of_span_eq hsorted hwhole hspan
    rw [htokens] at hviable
    exact hviable

example : FoundFile.faults ⟨"a.thrift", "a.thrift", "enum E \x7b \"A"⟩ =
    [⟨.error, "a.thrift", ⟨9, 11⟩, ⟨1, 10⟩, .unclosedString, []⟩] := by
  decide +kernel

example : FoundFile.faults ⟨"a.thrift", "a.thrift", "enum E \x7b"⟩ =
    [⟨.error, "a.thrift", ⟨8, 8⟩, ⟨1, 9⟩, .expected "enum entry or '\x7d'" .finish, []⟩] := by
  decide +kernel

end Idl
