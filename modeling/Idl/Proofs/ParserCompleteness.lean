import Idl.Proofs.Lookahead
import Idl.Proofs.ParserSteps

/-!
# What the parser accepts

Each parsing function, started on tokens whose kinds begin with a sentence of its part of the
grammar, goes through and takes off just that sentence, if the kind after the sentence is none
that could continue it.
-/
namespace Idl

namespace ParserState

/-- The kinds of the remaining tokens are these, and none of the tokens is a lexical fault. -/
structure Shows (s : ParserState) (kinds : List TokenKind) : Prop where
  kinds_eq : s.tokens.map Token.kind = kinds
  noFault : ∀ token ∈ s.tokens, Parser.faultMessage? token.lexeme = none

theorem Shows.exists_token {s : ParserState} {kind : TokenKind} {rest : List TokenKind}
    (h : s.Shows (kind :: rest)) :
    ∃ token tokens, s.tokens = token :: tokens ∧ token.kind = kind ∧ s.current = token ∧
      tokens.map Token.kind = rest := by
  obtain ⟨token, tokens, htokens, hkind, hrest⟩ := List.map_eq_cons_iff.1 h.kinds_eq
  exact ⟨token, tokens, htokens, hkind, by rw [current, htokens]; rfl, hrest⟩

theorem Shows.current_kind {s : ParserState} {kind : TokenKind} {rest : List TokenKind}
    (h : s.Shows (kind :: rest)) : s.current.kind = kind := by
  obtain ⟨token, tokens, -, hkind, hcurrent, -⟩ := h.exists_token
  rw [hcurrent, hkind]

theorem Shows.current_noFault {s : ParserState} {kinds : List TokenKind} (h : s.Shows kinds) :
    Parser.faultMessage? s.current.lexeme = none := by
  cases htokens : s.tokens with
  | nil => simp [current, htokens, Parser.faultMessage?]
  | cons token rest =>
    apply h.noFault
    simp [current, htokens]

end ParserState

namespace Parser
open Grammar Computability

variable {α β : Type} {s : ParserState} {kind : TokenKind} {rest : List TokenKind}

/-- The parser goes through and leaves these kinds. -/
def Takes (parser : Parser α) (s : ParserState) (kinds : List TokenKind) : Prop :=
  Ensures (fun _ => False) parser s fun _ next => next.Shows kinds

/-- There is a next kind, and it is of this sort. -/
def Meets (sort : TokenKind → Prop) (kinds : List TokenKind) : Prop :=
  ∃ kind rest, kinds = kind :: rest ∧ sort kind

namespace Meets

variable {sort sort' : TokenKind → Prop} {sentence after : List TokenKind}
  {language : Language TokenKind}

theorem cons (h : sort kind) (rest : List TokenKind) : Meets sort (kind :: rest) :=
  ⟨kind, rest, rfl, h⟩

theorem mono (h : Meets sort after) (hsort : ∀ kind, sort kind → sort' kind) :
    Meets sort' after := by
  obtain ⟨kind, rest, rfl, hkind⟩ := h
  exact ⟨kind, rest, rfl, hsort kind hkind⟩

theorem begins (hbegins : Begins sort language) (hsentence : sentence ∈ language)
    (after : List TokenKind) : Meets sort (sentence ++ after) := by
  obtain ⟨kind, rest, rfl, hkind⟩ := hbegins sentence hsentence
  exact ⟨kind, rest ++ after, rfl, hkind⟩

/-- What comes next if what stands in front of it may be left out. -/
theorem optional (h : Meets sort after) (hsentence : sentence ∈ optional language)
    (hlanguage : sentence ∈ language → Meets sort (sentence ++ after)) :
    Meets sort (sentence ++ after) := by
  rcases hsentence with rfl | hsentence
  · exact h
  · exact hlanguage hsentence

end Meets

/-- What comes after the separator of an item: another item or the end of the list. -/
theorem Meets.items {language : Language TokenKind} (hbegins : Begins Starts language)
    {list after : List TokenKind} (hlist : list ∈ Grammar.items language)
    (hafter : Meets (fun kind => Ends kind ∧ ¬ IsSeparator kind) after) :
    Meets (fun kind => Ends kind ∧ ¬ IsSeparator kind) (list ++ after) := by
  rw [Grammar.items, ← Language.one_add_self_mul_kstar_eq_kstar] at hlist
  rcases hlist with rfl | ⟨_, ⟨item, hitem, sep, -, rfl⟩, rest, -, rfl⟩
  · exact hafter
  · simp only [List.append_assoc]
    exact (Meets.begins hbegins hitem _).mono fun _ h => ⟨h.ends, h.not_isSeparator⟩

/-- What comes after an item ends it. -/
theorem Meets.separator {sep after : List TokenKind}
    (hsep : sep ∈ Grammar.optional Grammar.separator)
    (hafter : Meets (fun kind => Ends kind ∧ ¬ IsSeparator kind) after) :
    Meets Ends (sep ++ after) := by
  refine (hafter.mono fun _ h => h.1).optional hsep fun h => ?_
  rcases h with rfl | rfl
  · exact .cons (by simp [Ends]) _
  · exact .cons (by simp [Ends]) _

/-- With at most so many tokens left, the parser takes a sentence of the language off, whatever
follows it as long as that ends the sentence. -/
def Accepts (bound : Nat) (parser : Parser α) (language : Language TokenKind)
    (ends : TokenKind → Prop) : Prop :=
  ∀ (s : ParserState) (sentence after : List TokenKind), sentence ∈ language →
    s.Shows (sentence ++ after) → (sentence ++ after).length ≤ bound → Meets ends after →
      Takes parser s after

theorem Accepts.mono {bound bound' : Nat} {parser : Parser α} {language : Language TokenKind}
    {ends ends' : TokenKind → Prop} (h : Accepts bound parser language ends)
    (hbound : bound' ≤ bound) (hends : ∀ kind, ends' kind → ends kind) :
    Accepts bound' parser language ends' :=
  fun s sentence after hsentence hs hlength hafter =>
    h s sentence after hsentence hs (hlength.trans hbound) (hafter.mono hends)

theorem current_kind_of_begins {language : Language TokenKind} {sentence after : List TokenKind}
    (h : Begins (Eq kind) language) (hsentence : sentence ∈ language)
    (hs : s.Shows (sentence ++ after)) : s.current.kind = kind := by
  obtain ⟨_, rest, rfl, rfl⟩ := h sentence hsentence
  exact hs.current_kind

theorem takes_checkCurrent {kinds : List TokenKind} (hs : s.Shows kinds) :
    Takes checkCurrent s kinds := by
  unfold Takes Ensures
  rw [run_checkCurrent_of_eq_none hs.current_noFault]
  exact hs

theorem takes_advance (hs : s.Shows (kind :: rest)) (hkind : kind ≠ .finish) :
    Takes advance s rest := by
  obtain ⟨token, tokens, htokens, htoken, hcurrent, hrest⟩ := hs.exists_token
  have hne : s.current.kind ≠ .finish := hs.current_kind ▸ hkind
  have hnext : s.advance.tokens = tokens := by rw [ParserState.advance, htokens]; rfl
  have hshows : s.advance.Shows rest :=
    ⟨hnext ▸ hrest, fun other h => hs.noFault other (htokens ▸ List.mem_cons_of_mem _ (hnext ▸ h))⟩
  have hcheck := takes_checkCurrent hshows
  unfold Takes Ensures at hcheck ⊢
  rwa [run_advance hne]

theorem takes_accept (hs : s.Shows (kind :: rest)) (hkind : kind ≠ .finish) :
    Ensures (fun _ => False) (accept kind) s fun taken next => taken = true ∧ next.Shows rest := by
  unfold accept
  refine .kind ?_
  rw [if_pos hs.current_kind]
  exact (takes_advance hs hkind).bind fun _ _ h => .pure ⟨rfl, h⟩

theorem skips_accept (hs : s.Shows (kind :: rest)) {wanted : TokenKind} (hkind : kind ≠ wanted) :
    Ensures (fun _ => False) (accept wanted) s fun taken next => taken = false ∧ next = s := by
  unfold accept
  refine .kind ?_
  rw [if_neg (hs.current_kind ▸ hkind)]
  exact .pure ⟨rfl, rfl⟩

theorem takes_expect (hs : s.Shows (kind :: rest)) (hkind : kind ≠ .finish) (what : String) :
    Takes (expect kind what) s rest := by
  unfold expect
  refine (takes_accept hs hkind).bind ?_
  rintro _ next ⟨rfl, h⟩
  exact .pure h

theorem accepts_separator (bound : Nat) :
    Accepts bound separator (optional Grammar.separator) fun kind => ¬ IsSeparator kind := by
  rintro s sentence _ hsentence hs - ⟨kind, rest, rfl, hkind⟩
  unfold separator
  refine .kind ?_
  rcases hsentence with rfl | rfl | rfl
  · rw [if_neg (hs.current_kind ▸ hkind)]
    exact .pure hs
  · rw [if_pos (by rw [hs.current_kind]; decide)]
    exact takes_advance hs TokenKind.noConfusion
  · rw [if_pos (by rw [hs.current_kind]; decide)]
    exact takes_advance hs TokenKind.noConfusion

theorem takes_clause (hs : s.Shows (kind :: rest)) (hkind : kind ≠ .finish) {item : Parser α}
    {kinds : List TokenKind}
    (hitem : ∀ next : ParserState, next.Shows rest → Takes item next kinds) :
    Ensures (fun _ => False) (clause kind item) s fun result next =>
      result.isSome ∧ next.Shows kinds := by
  unfold clause
  refine (takes_accept hs hkind).bind ?_
  rintro _ next ⟨rfl, hnext⟩
  exact (hitem next hnext).map fun _ _ h => ⟨rfl, h⟩

theorem skips_clause (hs : s.Shows (kind :: rest)) {wanted : TokenKind} (hkind : kind ≠ wanted)
    (item : Parser α) :
    Ensures (fun _ => False) (clause wanted item) s fun result next =>
      result = none ∧ next = s := by
  unfold clause
  refine (skips_accept hs hkind).bind ?_
  rintro _ _ ⟨rfl, rfl⟩
  exact .pure ⟨rfl, rfl⟩

/-- A clause is optional; it is there if its first token is. -/
theorem accepts_clause {bound : Nat} {wanted : TokenKind} (hwanted : wanted ≠ .finish)
    {item : Parser α} {language : Language TokenKind} {ends : TokenKind → Prop}
    (hitem : Accepts bound item language ends) :
    Accepts bound (clause wanted item) (optional (token wanted * language))
      fun kind => kind ≠ wanted ∧ ends kind := by
  intro s sentence after hsentence hs hbound hafter
  rcases hsentence with rfl | ⟨_, rfl, sentence, hsentence, rfl⟩
  · obtain ⟨kind, rest, rfl, hkind⟩ := hafter
    exact (skips_clause hs hkind.1 item).mono fun _ _ h => h.2 ▸ hs
  · refine (takes_clause hs hwanted fun next hnext => hitem next sentence after hsentence hnext ?_
      (hafter.mono fun _ h => h.2)).mono fun _ _ h => h.2
    simp only [List.length_append, List.length_cons] at hbound ⊢
    omega

theorem takes_identifier (hs : s.Shows (.identifier :: rest)) (what : String) :
    Takes (identifier what) s rest := by
  unfold identifier
  refine .current ?_
  split
  · exact (takes_advance hs TokenKind.noConfusion).bind fun _ next h => .node (.pure ⟨h.1, h.2⟩)
  · next h =>
    have hkind := hs.current_kind
    unfold Token.kind Lexeme.kind at hkind
    split at hkind <;> simp_all

theorem takes_integerLiteral (hs : s.Shows (.integer :: rest)) (what : String) :
    Takes (integerLiteral what) s rest := by
  unfold integerLiteral
  refine .current ?_
  split
  · exact (takes_advance hs TokenKind.noConfusion).bind fun _ next h => .node (.pure ⟨h.1, h.2⟩)
  · next h =>
    have hkind := hs.current_kind
    unfold Token.kind Lexeme.kind at hkind
    split at hkind <;> simp_all

theorem takes_stringLiteral (hs : s.Shows (.string :: rest)) (what : String) :
    Takes (stringLiteral what) s rest := by
  unfold stringLiteral
  refine .current ?_
  split
  · exact (takes_advance hs TokenKind.noConfusion).bind fun _ next h => .node (.pure ⟨h.1, h.2⟩)
  · next h =>
    have hkind := hs.current_kind
    unfold Token.kind Lexeme.kind at hkind
    split at hkind <;> simp_all

theorem accepts_identifier (bound : Nat) (what : String) :
    Accepts bound (identifier what) (token .identifier) fun _ => True := by
  rintro s _ after rfl hs - -
  exact takes_identifier hs what

theorem accepts_integerLiteral (bound : Nat) (what : String) :
    Accepts bound (integerLiteral what) (token .integer) fun _ => True := by
  rintro s _ after rfl hs - -
  exact takes_integerLiteral hs what

theorem accepts_dotted {bound : Nat} {item : Parser α} {language : Language TokenKind}
    (hitem : Accepts bound item language fun _ => True) :
    Accepts bound (dotted item bound) (mark .dot * language)∗ fun kind => kind ≠ .mark .dot := by
  suffices h : ∀ fuel, fuel ≤ bound → Accepts fuel (dotted item fuel) (mark .dot * language)∗
      fun kind => kind ≠ .mark .dot from h bound le_rfl
  intro fuel
  induction fuel with
  | zero =>
    rintro _ s sentence _ - - hlength ⟨kind, rest, rfl, -⟩
    simp at hlength
  | succ fuel ih =>
    intro hbound s sentence after hsentence hs hlength hafter
    rw [dotted]
    rw [← Language.one_add_self_mul_kstar_eq_kstar] at hsentence
    rcases hsentence with rfl | ⟨_, ⟨_, rfl, first, hfirst, rfl⟩, sentence, hsentence, rfl⟩
    · obtain ⟨kind, rest, rfl, hkind⟩ := hafter
      refine (skips_clause hs hkind item).bind ?_
      rintro _ _ ⟨rfl, rfl⟩
      exact .pure hs
    · simp only [List.append_assoc, List.cons_append, List.nil_append, List.length_cons,
        List.length_append] at hs hlength
      have hclause := takes_clause hs TokenKind.noConfusion fun state hstate =>
        hitem state first (sentence ++ after) hfirst hstate
          (by simp only [List.length_append]; omega) ?_
      · refine hclause.bind ?_
        rintro result state ⟨hresult, hstate⟩
        cases result with
        | none => cases hresult
        | some result =>
          refine (ih (by omega) state sentence after hsentence hstate ?_ hafter).bind
            fun _ _ h => .pure h
          simp only [List.length_append]
          omega
      · obtain ⟨kind, rest, rfl, -⟩ := hafter
        cases sentence with
        | nil => exact ⟨kind, rest, rfl, trivial⟩
        | cons next sentence => exact ⟨next, sentence ++ kind :: rest, rfl, trivial⟩

theorem accepts_name (fuel : Nat) :
    Accepts (fuel + 1) (name fuel) Grammar.dotted fun kind => kind ≠ .mark .dot := by
  rintro s _ after ⟨_, rfl, tail, htail, rfl⟩ hs hlength hafter
  simp only [List.cons_append, List.nil_append, List.length_cons] at hs hlength
  unfold name
  refine .position ?_
  refine (takes_identifier hs "name").bind fun _ s1 h1 => ?_
  refine (accepts_dotted (accepts_identifier fuel "name") s1 tail after htail h1 (by omega)
    hafter).bind fun _ s2 h2 => ?_
  exact .node (.pure ⟨h2.1, h2.2⟩)

theorem accepts_typeRef (fuel : Nat) :
    Accepts fuel (typeRef fuel) type fun kind => kind ≠ .mark .dot := by
  induction fuel with
  | zero =>
    rintro s sentence _ - - hlength ⟨kind, rest, rfl, -⟩
    simp at hlength
  | succ fuel ih =>
    intro s sentence after hsentence hs hlength hafter
    rw [typeRef]
    refine .position (.kind ?_)
    rw [type_eq] at hsentence
    rcases hsentence with ((hsentence | hsentence) | hsentence) | hsentence
    · obtain ⟨builtin, rfl⟩ := Language.mem_iSup.1 hsentence
      rw [hs.current_kind]
      have hleaf : Takes (do
          advance
          return TypeRef.builtin builtin (← node s.current.span.start)) s after :=
        (takes_advance hs TokenKind.noConfusion).bind fun _ _ h => .node (.pure ⟨h.1, h.2⟩)
      cases builtin <;> exact hleaf
    · obtain ⟨_, ⟨_, ⟨_, rfl, _, rfl, rfl⟩, element, helement, rfl⟩, _, rfl, rfl⟩ := hsentence
      simp only [List.append_assoc, List.cons_append, List.nil_append, List.length_cons,
        List.length_append] at hs hlength
      rw [hs.current_kind]
      refine (takes_advance hs TokenKind.noConfusion).bind fun _ s1 h1 => ?_
      refine (takes_expect h1 TokenKind.noConfusion _).bind fun _ s2 h2 => ?_
      refine (ih s2 element _ helement h2 (by simp; omega) (.cons (by decide) _)).bind
        fun _ s3 h3 => ?_
      refine (takes_expect h3 TokenKind.noConfusion _).bind fun _ s4 h4 => ?_
      exact .node (.pure ⟨h4.1, h4.2⟩)
    · obtain ⟨_, ⟨_, ⟨_, ⟨_, ⟨_, rfl, _, rfl, rfl⟩, key, hkey, rfl⟩, _, rfl, rfl⟩, value, hvalue,
        rfl⟩, _, rfl, rfl⟩ := hsentence
      simp only [List.append_assoc, List.cons_append, List.nil_append, List.length_cons,
        List.length_append] at hs hlength
      rw [hs.current_kind]
      refine (takes_advance hs TokenKind.noConfusion).bind fun _ s1 h1 => ?_
      refine (takes_expect h1 TokenKind.noConfusion _).bind fun _ s2 h2 => ?_
      refine (ih s2 key _ hkey h2 (by simp; omega) (.cons (by decide) _)).bind fun _ s3 h3 => ?_
      refine (takes_expect h3 TokenKind.noConfusion _).bind fun _ s4 h4 => ?_
      refine (ih s4 value _ hvalue h4 (by simp; omega) (.cons (by decide) _)).bind
        fun _ s5 h5 => ?_
      refine (takes_expect h5 TokenKind.noConfusion _).bind fun _ s6 h6 => ?_
      exact .node (.pure ⟨h6.1, h6.2⟩)
    · have hname := accepts_name fuel s sentence after hsentence hs hlength hafter
      obtain ⟨_, rfl, tail, htail, rfl⟩ := hsentence
      rw [hs.current_kind]
      exact hname.bind fun _ _ h => .pure h

/-- A list of items goes on as long as the next kind does not close it. -/
theorem accepts_terminated {bound : Nat} {item : Parser α} {language : Language TokenKind}
    (hitem : Accepts bound item language Ends) (hbegins : Begins Starts language) {closing : Mark}
    (hclosing : Closes (.mark closing)) (what : String) :
    Accepts bound (terminated item closing what bound) (items language * mark closing)
      fun _ => True := by
  suffices h : ∀ fuel, fuel ≤ bound → Accepts fuel (terminated item closing what fuel)
      (items language * mark closing) fun _ => True from h bound le_rfl
  intro fuel
  induction fuel with
  | zero =>
    rintro _ s sentence _ - - hlength ⟨kind, rest, rfl, -⟩
    simp at hlength
  | succ fuel ih =>
    rintro hbound s _ after ⟨list, hlist, _, rfl, rfl⟩ hs hlength hafter
    rw [terminated]
    rw [items, ← Language.one_add_self_mul_kstar_eq_kstar] at hlist
    rcases hlist with rfl | ⟨_, ⟨first, hfirst, sep, hsep, rfl⟩, rest, hrest, rfl⟩
    · refine (takes_accept hs TokenKind.noConfusion).bind ?_
      rintro _ next ⟨rfl, hnext⟩
      exact .pure hnext
    · simp only [List.append_assoc, List.cons_append, List.nil_append, List.length_append,
        List.length_cons] at hs hlength
      have hthen := Meets.items hbegins hrest
        (.cons ⟨hclosing.ends, hclosing.not_isSeparator⟩ after)
      have hends := hthen.separator hsep
      obtain ⟨kind, _, rfl, hkind⟩ := hbegins first hfirst
      rw [List.length_cons] at hlength
      have hopen : kind ≠ .mark closing := fun h => hkind.not_closes (h ▸ hclosing)
      have hmore : kind ≠ .finish := fun h => hkind.not_closes (h ▸ by simp [Closes])
      refine (skips_accept hs hopen).bind ?_
      rintro _ _ ⟨rfl, rfl⟩
      refine .kind ?_
      rw [if_neg (hs.current_kind ▸ hmore)]
      refine (hitem _ _ _ hfirst hs (by simp; omega) hends).bind fun _ s1 h1 => ?_
      refine (accepts_separator bound s1 sep _ hsep h1 (by simp; omega)
        (hthen.mono fun _ h => h.2)).bind fun _ s2 h2 => ?_
      refine (ih (by omega) s2 (rest ++ [.mark closing]) after
        (Language.append_mem_mul hrest (mem_mark.2 rfl)) (by simpa using h2) ?_ hafter).bind
          fun _ _ h => .pure h
      simp
      omega

theorem accepts_mapEntry {bound : Nat} {expr : Parser Expr}
    (hexpr : Accepts bound expr value Ends) : Accepts bound (mapEntry expr) entry Ends := by
  rintro s _ after ⟨_, ⟨key, hkey, _, rfl, rfl⟩, value, hvalue, rfl⟩ hs hlength hafter
  simp only [List.append_assoc, List.cons_append, List.nil_append, List.length_append,
    List.length_cons] at hs hlength
  unfold mapEntry
  refine (hexpr s key _ hkey hs (by simp; omega) (.cons (by simp [Ends]) _)).bind
    fun _ s1 h1 => ?_
  refine (takes_expect h1 TokenKind.noConfusion _).bind fun _ s2 h2 => ?_
  exact (hexpr s2 value after hvalue h2 (by simp; omega) hafter).bind fun _ _ h => .pure h

theorem accepts_expr (fuel : Nat) : Accepts fuel (expr fuel) value Ends := by
  induction fuel with
  | zero =>
    rintro s sentence _ - - hlength ⟨kind, rest, rfl, -⟩
    simp at hlength
  | succ fuel ih =>
    intro s sentence after hsentence hs hlength hafter
    rw [expr]
    refine .position (.kind ?_)
    rw [value_eq] at hsentence
    rcases hsentence with ((((((rfl | rfl) | rfl) | rfl) | hsentence) | hsentence) | hsentence)
    · rw [hs.current_kind]
      exact (takes_integerLiteral hs _).bind fun _ _ h => .pure h
    · rw [hs.current_kind]
      exact (takes_stringLiteral hs _).bind fun _ _ h => .pure h
    · rw [hs.current_kind]
      exact (takes_advance hs TokenKind.noConfusion).bind fun _ _ h => .node (.pure ⟨h.1, h.2⟩)
    · rw [hs.current_kind]
      exact (takes_advance hs TokenKind.noConfusion).bind fun _ _ h => .node (.pure ⟨h.1, h.2⟩)
    · have hname := accepts_name fuel s sentence after hsentence hs hlength
        (hafter.mono fun _ h => h.1)
      obtain ⟨_, rfl, tail, htail, rfl⟩ := hsentence
      rw [hs.current_kind]
      exact hname.bind fun _ _ h => .pure h
    · rw [enclosed, mul_assoc] at hsentence
      obtain ⟨_, rfl, list, hlist, rfl⟩ := hsentence
      simp only [List.cons_append, List.nil_append, List.length_cons] at hs hlength
      rw [hs.current_kind]
      refine (takes_advance hs TokenKind.noConfusion).bind fun _ s1 h1 => ?_
      refine (accepts_terminated ih begins_value (by simp [Closes]) _ s1 list after hlist h1
        (by omega) (hafter.mono fun _ _ => trivial)).bind fun _ s2 h2 => ?_
      exact .node (.pure ⟨h2.1, h2.2⟩)
    · rw [enclosed, mul_assoc] at hsentence
      obtain ⟨_, rfl, list, hlist, rfl⟩ := hsentence
      simp only [List.cons_append, List.nil_append, List.length_cons] at hs hlength
      rw [hs.current_kind]
      refine (takes_advance hs TokenKind.noConfusion).bind fun _ s1 h1 => ?_
      refine (accepts_terminated (accepts_mapEntry ih) begins_entry (by simp [Closes]) _ s1 list
        after hlist h1 (by omega) (hafter.mono fun _ _ => trivial)).bind fun _ s2 h2 => ?_
      exact .node (.pure ⟨h2.1, h2.2⟩)

theorem accepts_order (bound : Nat) :
    Accepts bound order Grammar.order fun kind => kind ≠ .integer := by
  rintro s _ after (rfl | ⟨_, rfl, _, rfl, rfl⟩) hs - hafter
  · obtain ⟨kind, rest, rfl, hkind⟩ := hafter
    unfold order
    refine .kind ?_
    rw [if_neg (hs.current_kind ▸ hkind)]
    exact .pure hs
  · unfold order
    refine .kind ?_
    rw [if_pos hs.current_kind]
    refine (takes_integerLiteral hs _).bind fun _ s1 h1 => ?_
    exact (takes_expect h1 TokenKind.noConfusion _).bind fun _ s2 h2 => .pure h2

theorem accepts_enumEntry (bound : Nat) :
    Accepts bound enumEntry Grammar.enumEntry fun kind => kind ≠ .mark .equals := by
  rintro s _ after ⟨_, rfl, value, hvalue, rfl⟩ hs hlength hafter
  simp only [List.cons_append, List.nil_append, List.length_cons] at hs hlength
  unfold enumEntry
  refine .position ?_
  refine (takes_identifier hs _).bind fun _ s1 h1 => ?_
  refine (accepts_clause TokenKind.noConfusion (accepts_integerLiteral bound _) s1 value after
    hvalue h1 (by omega) (hafter.mono fun _ h => ⟨h, trivial⟩)).bind fun _ s2 h2 => ?_
  exact .node (.pure ⟨h2.1, h2.2⟩)

theorem accepts_requiredness (bound : Nat) :
    Accepts bound requiredness (optional (keyword .required + keyword .optional)) fun kind =>
      kind ≠ .keyword .required ∧ kind ≠ .keyword .optional := by
  rintro s sentence after hsentence hs - hafter
  unfold requiredness
  rcases hsentence with rfl | rfl | rfl
  · obtain ⟨kind, rest, rfl, hkind⟩ := hafter
    refine (skips_accept hs hkind.1).bind ?_
    rintro _ _ ⟨rfl, rfl⟩
    refine (skips_accept hs hkind.2).bind ?_
    rintro _ _ ⟨rfl, rfl⟩
    exact .pure hs
  · refine (takes_accept hs TokenKind.noConfusion).bind ?_
    rintro _ s1 ⟨rfl, h1⟩
    exact .pure h1
  · refine (skips_accept hs (by decide)).bind ?_
    rintro _ _ ⟨rfl, rfl⟩
    refine (takes_accept hs TokenKind.noConfusion).bind ?_
    rintro _ s1 ⟨rfl, h1⟩
    exact .pure h1

theorem accepts_field (fuel : Nat) : Accepts fuel (field fuel) Grammar.field Ends := by
  rintro s _ after ⟨_, ⟨_, ⟨_, ⟨number, hnumber, need, hneed, rfl⟩, type, htype, rfl⟩, _, rfl, rfl⟩,
    value, hvalue, rfl⟩ hs hlength hafter
  simp only [List.append_assoc, List.cons_append, List.nil_append, List.length_append,
    List.length_cons] at hs hlength
  have hfront := (Meets.begins begins_type htype (.identifier :: (value ++ after))).mono
    fun _ h => h.ne_of_prefix
  unfold field
  refine .position ?_
  refine (accepts_order fuel s number _ hnumber hs (by simp; omega) ?_).bind fun _ s1 h1 => ?_
  · refine (hfront.mono fun _ h => h.1).optional hneed fun h => ?_
    rcases h with rfl | rfl
    · exact .cons TokenKind.noConfusion _
    · exact .cons TokenKind.noConfusion _
  refine (accepts_requiredness fuel s1 need _ hneed h1 (by simp; omega)
    (hfront.mono fun _ h => ⟨h.2.1, h.2.2.1⟩)).bind fun _ s2 h2 => ?_
  refine (accepts_typeRef fuel s2 type _ htype h2 (by simp; omega)
    (.cons TokenKind.noConfusion _)).bind fun _ s3 h3 => ?_
  refine (takes_identifier h3 _).bind fun _ s4 h4 => ?_
  refine (accepts_clause TokenKind.noConfusion (accepts_expr fuel) s4 value after hvalue h4
    (by simp; omega) (hafter.mono fun _ h => ⟨h.2.1, h⟩)).bind fun _ s5 h5 => ?_
  exact .node (.pure ⟨h5.1, h5.2⟩)

theorem accepts_argument (fuel : Nat) :
    Accepts fuel (argument fuel) Grammar.argument fun _ => True := by
  rintro s _ after ⟨_, ⟨number, hnumber, type, htype, rfl⟩, _, rfl, rfl⟩ hs hlength -
  simp only [List.append_assoc, List.cons_append, List.nil_append, List.length_append,
    List.length_cons] at hs hlength
  unfold argument
  refine .position ?_
  refine (accepts_order fuel s number _ hnumber hs (by simp; omega)
    ((Meets.begins begins_type htype _).mono fun _ h => h.ne_of_prefix.1)).bind fun _ s1 h1 => ?_
  refine (accepts_typeRef fuel s1 type _ htype h1 (by simp; omega)
    (.cons TokenKind.noConfusion _)).bind fun _ s2 h2 => ?_
  refine (takes_identifier h2 _).bind fun _ s3 h3 => ?_
  exact .node (.pure ⟨h3.1, h3.2⟩)

theorem accepts_enclosed {bound : Nat} {item : Parser α} {language : Language TokenKind}
    (hitem : Accepts bound item language Ends) (hbegins : Begins Starts language) {closing : Mark}
    (hclosing : Closes (.mark closing)) (opening : Mark) (what what' : String) :
    Accepts bound
      (do
        expect (.mark opening) what
        terminated item closing what' bound)
      (enclosed opening language closing) fun _ => True := by
  intro s sentence after hsentence hs hlength hafter
  rw [enclosed, mul_assoc] at hsentence
  obtain ⟨_, rfl, list, hlist, rfl⟩ := hsentence
  simp only [List.cons_append, List.nil_append, List.length_cons] at hs hlength
  refine (takes_expect hs TokenKind.noConfusion _).bind fun _ s1 h1 => ?_
  exact accepts_terminated hitem hbegins hclosing _ s1 list after hlist h1 (by omega) hafter

theorem takes_enclosed {bound : Nat} {item : Parser α} {language : Language TokenKind}
    (hitem : Accepts bound item language Ends) (hbegins : Begins Starts language)
    {opening closing : Mark} (hclosing : Closes (.mark closing)) (what what' : String)
    {sentence after kinds : List TokenKind}
    (hsentence : sentence ∈ enclosed opening language closing) (hs : s.Shows (sentence ++ after))
    (hlength : (sentence ++ after).length ≤ bound) (hafter : Meets (fun _ => True) after)
    {next : List α → Parser β}
    (hnext : ∀ list last, last.Shows after → Takes (next list) last kinds) :
    Takes
      (do
        expect (.mark opening) what
        let list ← terminated item closing what' bound
        next list) s kinds := by
  have h := (accepts_enclosed hitem hbegins hclosing opening what what' s sentence after hsentence
    hs hlength hafter).bind hnext
  rwa [bind_assoc] at h

theorem accepts_method (fuel : Nat) :
    Accepts fuel (method fuel) Grammar.method fun kind => kind ≠ .keyword .throws := by
  rintro s _ after ⟨_, ⟨_, ⟨_, ⟨way, hway, type, htype, rfl⟩, _, rfl, rfl⟩, arguments, harguments,
    rfl⟩, throws, hthrows, rfl⟩ hs hlength hafter
  simp only [List.append_assoc, List.cons_append, List.nil_append, List.length_append,
    List.length_cons] at hs hlength
  have hargument := (accepts_argument fuel).mono le_rfl fun kind (_ : Ends kind) => trivial
  have hclosing : Closes (.mark .closeParen) := by simp [Closes]
  have hthen : Meets (fun _ => True) (throws ++ after) := by
    refine (hafter.mono fun _ _ => trivial).optional hthrows ?_
    rintro ⟨_, rfl, list, -, rfl⟩
    exact .cons trivial _
  unfold method
  refine .position ?_
  have honeway : Ensures (fun _ => False) (accept (.keyword .oneway)) s fun _ next =>
      next.Shows (type ++ .identifier :: (arguments ++ (throws ++ after))) := by
    rcases hway with rfl | rfl
    · obtain ⟨kind, rest, hkind, htype⟩ :=
        Meets.begins begins_type htype (.identifier :: (arguments ++ (throws ++ after)))
      rw [List.nil_append, hkind] at hs
      exact (skips_accept hs htype.ne_of_prefix.2.2.2).mono fun _ _ h => h.2 ▸ hkind ▸ hs
    · exact (takes_accept hs TokenKind.noConfusion).mono fun _ _ h => h.2
  refine honeway.bind fun _ s1 h1 => ?_
  refine (accepts_typeRef fuel s1 type _ htype h1 (by simp; omega)
    (.cons TokenKind.noConfusion _)).bind fun _ s2 h2 => ?_
  refine (takes_identifier h2 _).bind fun _ s3 h3 => ?_
  refine takes_enclosed hargument begins_argument hclosing _ _ harguments h3 (by simp; omega) hthen
    fun _ s4 h4 => ?_
  refine (accepts_clause TokenKind.noConfusion (accepts_enclosed hargument begins_argument hclosing
    .openParen _ _) s4 throws after hthrows h4 (by simp; omega)
      (hafter.mono fun _ h => ⟨h, trivial⟩)).bind fun _ s5 h5 => ?_
  exact .node (.pure ⟨h5.1, h5.2⟩)

theorem accepts_constantDecl (fuel : Nat) :
    Accepts fuel (constantDecl fuel) constant Ends := by
  rintro s _ after ⟨_, ⟨_, ⟨_, ⟨_, rfl, type, htype, rfl⟩, _, rfl, rfl⟩, _, rfl, rfl⟩, value,
    hvalue, rfl⟩ hs hlength hafter
  simp only [List.append_assoc, List.cons_append, List.nil_append, List.length_append,
    List.length_cons] at hs hlength
  unfold constantDecl
  refine .position ?_
  refine (takes_advance hs TokenKind.noConfusion).bind fun _ s1 h1 => ?_
  refine (accepts_typeRef fuel s1 type _ htype h1 (by simp; omega)
    (.cons TokenKind.noConfusion _)).bind fun _ s2 h2 => ?_
  refine (takes_identifier h2 _).bind fun _ s3 h3 => ?_
  refine (takes_expect h3 TokenKind.noConfusion _).bind fun _ s4 h4 => ?_
  refine (accepts_expr fuel s4 value after hvalue h4 (by simp; omega) hafter).bind
    fun _ s5 h5 => ?_
  exact .node (.pure ⟨h5.1, h5.2⟩)

theorem accepts_typedefDecl (fuel : Nat) :
    Accepts fuel (typedefDecl fuel) typedef fun _ => True := by
  rintro s _ after ⟨_, ⟨_, rfl, type, htype, rfl⟩, _, rfl, rfl⟩ hs hlength -
  simp only [List.append_assoc, List.cons_append, List.nil_append, List.length_append,
    List.length_cons] at hs hlength
  unfold typedefDecl
  refine .position ?_
  refine (takes_advance hs TokenKind.noConfusion).bind fun _ s1 h1 => ?_
  refine (accepts_typeRef fuel s1 type _ htype h1 (by simp; omega)
    (.cons TokenKind.noConfusion _)).bind fun _ s2 h2 => ?_
  refine (takes_identifier h2 _).bind fun _ s3 h3 => ?_
  exact .node (.pure ⟨h3.1, h3.2⟩)

theorem accepts_enumDecl (fuel : Nat) : Accepts fuel (enumDecl fuel) enum fun _ => True := by
  rintro s _ after ⟨_, ⟨_, rfl, _, rfl, rfl⟩, entries, hentries, rfl⟩ hs hlength hafter
  simp only [List.cons_append, List.nil_append, List.length_append, List.length_cons] at hs hlength
  have hentry := (accepts_enumEntry fuel).mono le_rfl fun kind (h : Ends kind) => h.2.1
  unfold enumDecl
  refine .position ?_
  refine (takes_advance hs TokenKind.noConfusion).bind fun _ s1 h1 => ?_
  refine (takes_identifier h1 _).bind fun _ s2 h2 => ?_
  refine takes_enclosed hentry begins_enumEntry (by simp [Closes]) _ _ hentries h2
    (by simp; omega) hafter fun _ s3 h3 => ?_
  exact .node (.pure ⟨h3.1, h3.2⟩)

theorem takes_structDecl (kind : StructKind) {fuel : Nat} {word : Keyword}
    {fields after : List TokenKind}
    (hfields : fields ∈ enclosed .openBrace Grammar.field .closeBrace)
    (hs : s.Shows (.keyword word :: .identifier :: (fields ++ after)))
    (hlength : (fields ++ after).length ≤ fuel) (hafter : Meets (fun _ => True) after) :
    Takes (structDecl kind fuel) s after := by
  unfold structDecl
  refine .position ?_
  refine (takes_advance hs TokenKind.noConfusion).bind fun _ s1 h1 => ?_
  refine (takes_identifier h1 _).bind fun _ s2 h2 => ?_
  refine takes_enclosed (accepts_field fuel) begins_field (by simp [Closes]) _ _ hfields h2 hlength
    hafter fun _ s3 h3 => ?_
  exact .node (.pure ⟨h3.1, h3.2⟩)

theorem accepts_serviceDecl (fuel : Nat) :
    Accepts fuel (serviceDecl fuel) service fun _ => True := by
  rintro s _ after ⟨_, ⟨_, ⟨_, rfl, _, rfl, rfl⟩, parent, hparent, rfl⟩, methods, hmethods, rfl⟩ hs
    hlength hafter
  simp only [List.append_assoc, List.cons_append, List.nil_append, List.length_append,
    List.length_cons] at hs hlength
  have hmethod := (accepts_method fuel).mono le_rfl fun kind (h : Ends kind) => h.2.2
  have hthen : Meets (fun kind => kind ≠ .keyword .extending ∧ kind ≠ .mark .dot)
      (methods ++ after) := by
    obtain ⟨_, ⟨_, rfl, _, -, rfl⟩, _, -, rfl⟩ := hmethods
    exact .cons (by decide) _
  unfold serviceDecl
  refine .position ?_
  refine (takes_advance hs TokenKind.noConfusion).bind fun _ s1 h1 => ?_
  refine (takes_identifier h1 _).bind fun _ s2 h2 => ?_
  refine (accepts_clause TokenKind.noConfusion ((accepts_name fuel).mono (Nat.le_succ fuel)
    fun _ h => h) s2 parent _ hparent h2 (by simp; omega) hthen).bind fun _ s3 h3 => ?_
  refine takes_enclosed hmethod begins_method (by simp [Closes]) _ _ hmethods h3 (by simp; omega)
    hafter fun _ s4 h4 => ?_
  exact .node (.pure ⟨h4.1, h4.2⟩)

theorem accepts_declaration (fuel : Nat) :
    Accepts fuel (declaration fuel) definition Ends := by
  intro s sentence after hsentence hs hlength hafter
  have hthen : Meets (fun _ => True) after := hafter.mono fun _ _ => trivial
  unfold declaration
  refine .kind ?_
  rcases hsentence with (((hsentence | hsentence) | hsentence) | hsentence) | hsentence
  · rw [current_kind_of_begins (((((Begins.token rfl).mul _).mul _).mul _).mul _) hsentence hs]
    exact (accepts_constantDecl fuel s sentence after hsentence hs hlength hafter).map
      fun _ _ h => h
  · rw [current_kind_of_begins (((Begins.token rfl).mul _).mul _) hsentence hs]
    exact (accepts_typedefDecl fuel s sentence after hsentence hs hlength hthen).map fun _ _ h => h
  · rw [current_kind_of_begins (((Begins.token rfl).mul _).mul _) hsentence hs]
    exact (accepts_enumDecl fuel s sentence after hsentence hs hlength hthen).map fun _ _ h => h
  · obtain ⟨_, ⟨_, hkeyword, _, rfl, rfl⟩, fields, hfields, rfl⟩ := hsentence
    rcases hkeyword with rfl | rfl <;>
      simp only [List.cons_append, List.nil_append, List.length_append, List.length_cons]
        at hs hlength
    · rw [hs.current_kind]
      exact (takes_structDecl .struct hfields hs (by simp; omega) hthen).map fun _ _ h => h
    · rw [hs.current_kind]
      exact (takes_structDecl .exception hfields hs (by simp; omega) hthen).map fun _ _ h => h
  · rw [current_kind_of_begins ((((Begins.token rfl).mul _).mul _).mul _) hsentence hs]
    exact (accepts_serviceDecl fuel s sentence after hsentence hs hlength hthen).map fun _ _ h => h

theorem takes_namespaceSegment {sentence after : List TokenKind}
    (hsentence : sentence ∈ Grammar.segment) (hs : s.Shows (sentence ++ after)) (what : String) :
    Takes (namespaceSegment what) s after := by
  unfold namespaceSegment
  refine .current ?_
  have hkind : s.current.kind = .identifier ∨ ∃ word, s.current.kind = .keyword word := by
    rcases hsentence with rfl | hsentence
    · exact .inl hs.current_kind
    · obtain ⟨word, rfl⟩ := Language.mem_iSup.1 hsentence
      exact .inr ⟨word, hs.current_kind⟩
  have hadvance : Takes advance s after := by
    rcases hsentence with rfl | hsentence
    · exact takes_advance hs TokenKind.noConfusion
    · obtain ⟨word, rfl⟩ := Language.mem_iSup.1 hsentence
      exact takes_advance hs TokenKind.noConfusion
  split
  · exact hadvance.bind fun _ _ h => .pure h
  · exact hadvance.bind fun _ _ h => .pure h
  · next hidentifier hkeyword =>
    unfold Token.kind Lexeme.kind at hkind
    split at hkind <;> simp_all

theorem accepts_namespaceSegment (bound : Nat) (what : String) :
    Accepts bound (namespaceSegment what) Grammar.segment fun _ => True :=
  fun _ _ _ hsentence hs _ _ => takes_namespaceSegment hsentence hs what

theorem takes_namespaceScope {sentence after : List TokenKind}
    (hsentence : sentence ∈ Grammar.segment + mark .star) (hs : s.Shows (sentence ++ after)) :
    Takes namespaceScope s after := by
  unfold namespaceScope
  rcases hsentence with hsentence | rfl
  · have hskip : Ensures (fun _ => False) (accept (.mark .star)) s fun taken next =>
        taken = false ∧ next = s := by
      rcases hsentence with rfl | hword
      · exact skips_accept hs TokenKind.noConfusion
      · obtain ⟨word, rfl⟩ := Language.mem_iSup.1 hword
        exact skips_accept hs TokenKind.noConfusion
    refine hskip.bind ?_
    rintro _ _ ⟨rfl, rfl⟩
    exact takes_namespaceSegment hsentence hs _
  · refine (takes_accept hs TokenKind.noConfusion).bind ?_
    rintro _ next ⟨rfl, hnext⟩
    exact .pure hnext

theorem accepts_namespaceDirective (fuel : Nat) :
    Accepts fuel (namespaceDirective fuel) naming fun kind => kind ≠ .mark .dot := by
  rintro s _ after ⟨_, ⟨_, rfl, scope, hscope, rfl⟩, _, ⟨head, hhead, tail, htail, rfl⟩, rfl⟩ hs
    hlength hafter
  simp only [List.append_assoc, List.cons_append, List.nil_append, List.length_append,
    List.length_cons] at hs hlength
  unfold namespaceDirective
  refine .position ?_
  refine (takes_advance hs TokenKind.noConfusion).bind fun _ s1 h1 => ?_
  refine (takes_namespaceScope hscope h1).bind fun _ s2 h2 => ?_
  refine (takes_namespaceSegment hhead h2 _).bind fun _ s3 h3 => ?_
  refine (accepts_dotted (accepts_namespaceSegment fuel _) s3 tail after htail h3 (by simp; omega)
    hafter).bind fun _ s4 h4 => ?_
  exact .node (.pure ⟨h4.1, h4.2⟩)

theorem takes_includeDirective (hs : s.Shows (.keyword .inclusion :: .string :: rest)) :
    Takes includeDirective s rest := by
  unfold includeDirective
  refine .position ?_
  refine (takes_advance hs TokenKind.noConfusion).bind fun _ s1 h1 => ?_
  refine (takes_stringLiteral h1 _).bind fun _ s2 h2 => ?_
  exact .node (.pure ⟨h2.1, h2.2⟩)

/-- The kinds after the headers: the start of a definition, or the end of the file. -/
def AfterHeaders (kind : TokenKind) : Prop :=
  StartsDefinition kind ∨ kind = .finish

theorem AfterHeaders.ends {kind : TokenKind} (h : AfterHeaders kind) :
    Ends kind ∧ ¬ IsSeparator kind := by
  rcases h with h | rfl
  · exact ⟨h.1.ends, h.1.not_isSeparator⟩
  · simp [Ends, IsSeparator]

theorem takes_headers {fuel rounds : Nat} {sentence after : List TokenKind}
    (hsentence : sentence ∈ items header) (hs : s.Shows (sentence ++ after))
    (hrounds : (sentence ++ after).length ≤ rounds) (hfuel : (sentence ++ after).length ≤ fuel)
    (hafter : Meets AfterHeaders after) : Takes (headers fuel rounds) s after := by
  induction rounds generalizing s sentence with
  | zero =>
    obtain ⟨kind, rest, rfl, -⟩ := hafter
    simp at hrounds
  | succ rounds ih =>
    rw [headers]
    refine .kind ?_
    rw [items, ← Language.one_add_self_mul_kstar_eq_kstar] at hsentence
    rcases hsentence with rfl | ⟨_, ⟨first, hfirst, sep, hsep, rfl⟩, rest, hrest, rfl⟩
    · obtain ⟨kind, rest, rfl, hkind⟩ := hafter
      rw [hs.current_kind]
      split
      · rcases hkind with h | h
        · exact absurd rfl h.2.1
        · cases h
      · rcases hkind with h | h
        · exact absurd rfl h.2.2
        · cases h
      · exact .pure hs
    · simp only [List.append_assoc, List.length_append] at hs hrounds hfuel
      have hthen := Meets.items begins_header hrest (hafter.mono fun _ h => h.ends)
      have hends := (hthen.separator hsep).mono fun _ h => h.1
      obtain ⟨kind, _, rfl, hkind⟩ := begins_header first hfirst
      rw [List.length_cons] at hrounds hfuel
      rcases hfirst with hfirst | hfirst
      · obtain ⟨_, rfl, _, rfl, happend⟩ := hfirst
        obtain ⟨rfl, rfl⟩ := List.cons.inj happend
        rw [hs.current_kind]
        refine (takes_includeDirective hs).bind fun _ s1 h1 => ?_
        refine (accepts_separator fuel s1 sep _ hsep h1 (by simp; omega)
          (hthen.mono fun _ h => h.2)).bind fun _ s2 h2 => ?_
        exact (ih hrest h2 (by simp; omega) (by simp; omega)).bind fun _ _ h => .pure h
      · rw [current_kind_of_begins (((Begins.token rfl).mul _).mul _) hfirst hs]
        refine (accepts_namespaceDirective fuel s _ _ hfirst hs (by simp; omega) hends).bind
          fun _ s1 h1 => ?_
        refine (accepts_separator fuel s1 sep _ hsep h1 (by simp; omega)
          (hthen.mono fun _ h => h.2)).bind fun _ s2 h2 => ?_
        exact (ih hrest h2 (by simp; omega) (by simp; omega)).bind fun _ _ h => .pure h

/-- Declarations are taken off one by one, and then the rest is looked at. -/
theorem ensures_declarations_append {failing : ParseFailure → Prop} {post : ParserState → Prop}
    {fuel rounds : Nat} {sentence after : List TokenKind} (hsentence : sentence ∈ items definition)
    (hs : s.Shows (sentence ++ after)) (hrounds : (sentence ++ after).length ≤ rounds)
    (hfuel : (sentence ++ after).length ≤ fuel)
    (hafter : Meets (fun kind => Ends kind ∧ ¬ IsSeparator kind) after)
    (hlast : ∀ rounds (last : ParserState), last.Shows after → after.length ≤ rounds →
      Ensures failing (declarations fuel rounds) last fun _ next => post next) :
    Ensures failing (declarations fuel rounds) s fun _ next => post next := by
  induction rounds generalizing s sentence with
  | zero =>
    obtain ⟨kind, rest, rfl, -⟩ := hafter
    simp at hrounds
  | succ rounds ih =>
    rw [items, ← Language.one_add_self_mul_kstar_eq_kstar] at hsentence
    rcases hsentence with rfl | ⟨_, ⟨first, hfirst, sep, hsep, rfl⟩, rest, hrest, rfl⟩
    · exact hlast _ s hs hrounds
    · rw [declarations]
      refine .kind ?_
      simp only [List.append_assoc, List.length_append] at hs hrounds hfuel
      have hthen := Meets.items (begins_definition.mono fun _ h => h.1) hrest hafter
      have hends := hthen.separator hsep
      have hdeclaration := accepts_declaration fuel s first _ hfirst hs (by simp; omega) hends
      obtain ⟨kind, _, rfl, hkind⟩ := begins_definition first hfirst
      rw [List.length_cons] at hrounds hfuel
      have hmore : kind ≠ .finish := fun h => hkind.1.not_closes (h ▸ by simp [Closes])
      rw [if_neg (hs.current_kind ▸ hmore)]
      refine hdeclaration.of_never.bind fun _ s1 h1 => ?_
      refine (accepts_separator fuel s1 sep _ hsep h1 (by simp; omega)
        (hthen.mono fun _ h => h.2)).of_never.bind fun _ s2 h2 => ?_
      exact (ih hrest h2 (by simp; omega) (by simp; omega)).bind fun _ _ h => .pure h

theorem takes_declarations {fuel rounds : Nat} {sentence : List TokenKind}
    (hsentence : sentence ∈ items definition) (hs : s.Shows (sentence ++ [.finish]))
    (hrounds : (sentence ++ [TokenKind.finish]).length ≤ rounds)
    (hfuel : (sentence ++ [TokenKind.finish]).length ≤ fuel) :
    Takes (declarations fuel rounds) s [.finish] := by
  have hfinish : Closes .finish := by simp [Closes]
  refine ensures_declarations_append hsentence hs hrounds hfuel
    (.cons ⟨hfinish.ends, hfinish.not_isSeparator⟩ []) fun rounds last h hrounds => ?_
  cases rounds with
  | zero => simp at hrounds
  | succ rounds =>
    rw [declarations]
    refine .kind ?_
    rw [if_pos h.current_kind]
    exact .pure h

/-- A sentence of the grammar is parsed as a whole. -/
theorem takes_document {fuel : Nat} {sentence : List TokenKind}
    (hsentence : sentence ∈ Grammar.document) (hs : s.Shows (sentence ++ [.finish]))
    (hfuel : (sentence ++ [TokenKind.finish]).length ≤ fuel) :
    Takes (document fuel) s [.finish] := by
  obtain ⟨first, hfirst, second, hsecond, rfl⟩ := hsentence
  simp only [List.append_assoc, List.length_append, List.length_singleton] at hs hfuel
  have hthen : Meets AfterHeaders (second ++ [.finish]) := by
    have hdefinitions := hsecond
    rw [items, ← Language.one_add_self_mul_kstar_eq_kstar] at hdefinitions
    rcases hdefinitions with rfl | ⟨_, ⟨definition, hdefinition, _, -, rfl⟩, _, -, rfl⟩
    · exact .cons (.inr rfl) _
    · simp only [List.append_assoc]
      exact (Meets.begins begins_definition hdefinition _).mono fun _ h => .inl h
  unfold document
  refine (takes_checkCurrent hs).bind fun _ s hs => ?_
  refine .position ?_
  refine (takes_headers hfirst hs (by simp; omega) (by simp; omega) hthen).bind fun _ s1 h1 => ?_
  refine (takes_declarations hsecond h1 (by simp; omega) (by simp; omega)).bind fun _ s2 h2 => ?_
  exact .node (.pure ⟨h2.1, h2.2⟩)

end Parser
end Idl
