import Idl.Proofs.Gaps

/-!
# The token stream tiles the text

From any place in a text on, the tokens that a lexer hands out and the gaps between them make up
the rest of the text, and a lexer that starts at the end of a token hands out the tokens that are
left.
-/
namespace Idl

namespace Text

theorem exists_of_drop? {n : Nat} {cs rest : List Char} (h : drop? n cs = some rest) :
    ∃ before, cs = before ++ rest ∧ n = size before := by
  fun_induction drop? n cs with
  | case1 cs => exact ⟨[], Option.some.inj h, rfl⟩
  | case2 => cases h
  | case3 n c cs hsize ih =>
    obtain ⟨before, rfl, hbefore⟩ := ih h
    exact ⟨c :: before, rfl, by rw [size_cons]; omega⟩
  | case4 => cases h

theorem drop?_size_self (cs : List Char) : drop? (size cs) cs = some [] := by
  simpa using drop?_size cs []

theorem take?_size (cs ds : List Char) : take? (size cs) (cs ++ ds) = some cs := by
  induction cs with
  | nil => cases ds <;> rfl
  | cons c cs ih =>
    obtain ⟨k, hk, hle, hrest⟩ := exists_size_cons c cs
    rw [hk, List.cons_append, take?, if_pos hle, hrest, ih]
    rfl

theorem slice?_size (before cs after : List Char) :
    slice? (size before) (size before + size cs) (before ++ (cs ++ after)) = some cs := by
  rw [slice?, if_pos (Nat.le_add_right _ _), drop?_size, Nat.add_sub_cancel_left]
  exact take?_size cs after

theorem isBoundary_size (before after : List Char) :
    IsBoundary (size before) (before ++ after) := by
  rw [IsBoundary, drop?_size]
  rfl

end Text

namespace Reading

theorem integerLexeme_ne_finish (value : Int) : integerLexeme value ≠ .finish := by
  unfold integerLexeme
  split <;> simp

theorem readInteger_ne_finish (sign cs : List Char) : (readInteger sign cs).lexeme ≠ .finish :=
  integerLexeme_ne_finish _

theorem ofChars_ne_finish {cs : List Char} (h : cs ≠ []) : (ofChars cs).lexeme ≠ .finish := by
  fun_cases ofChars cs with
  | case1 => exact absurd rfl h
  | case4 => exact readInteger_ne_finish [] _
  | case5 => exact readInteger_ne_finish _ _
  | case6 =>
    simp only [wordLexeme]
    split <;> simp
  | case2 | case3 | case7 | case8 => simp

end Reading

namespace Token

/-- Where the last of some tokens ends that are read from an offset on. -/
def endOf : Nat → List Token → Nat
  | offset, [] => offset
  | _, token :: tokens => endOf token.span.stop tokens

variable {offset : Nat} {cs : List Char}

/-- Behind a gap there is a token, or the text ends. -/
theorem read_spec (offset : Nat) (cs : List Char) :
    (Gap.Back offset cs ∧
      read offset cs = (⟨.finish, ⟨offset + Text.size cs, offset + Text.size cs⟩⟩, [])) ∨
    ∃ gap written rest lexeme, cs = gap ++ (written ++ rest) ∧ Gap.Front offset gap ∧
      written ≠ [] ∧ lexeme ≠ .finish ∧ read offset cs =
        (⟨lexeme, ⟨offset + Text.size gap, offset + Text.size gap + Text.size written⟩⟩, rest) := by
  have hgap := Gap.read_spec offset cs
  unfold read
  generalize Gap.read .between offset cs = result at hgap
  cases hgap with
  | finish h => exact .inl ⟨h, rfl⟩
  | @other gap c rest h =>
    refine .inr ⟨gap, (Reading.ofChars (c :: rest)).written, (Reading.ofChars (c :: rest)).rest, _,
      ?_, h, Reading.written_ne_nil (List.cons_ne_nil _ _),
      Reading.ofChars_ne_finish (List.cons_ne_nil _ _), rfl⟩
    rw [Reading.written_append_rest]
  | @unclosed gap text h =>
    refine .inr ⟨gap, '/' :: '*' :: text, [], .unclosedComment, by simp, h, List.cons_ne_nil _ _,
      by simp, ?_⟩
    simp only [Text.size_append, Nat.add_assoc]

theorem readAll_eq_cons {token : Token} {after : List Token}
    (h : readAll offset cs = token :: after) :
    (read offset cs).1 = token ∧
      (token.lexeme ≠ .finish → readAll token.span.stop (read offset cs).2 = after) ∧
      (token.lexeme = .finish → after = []) := by
  by_cases hfinish : (read offset cs).1.lexeme = .finish
  · rw [readAll_of_finish hfinish] at h
    obtain ⟨rfl, rfl⟩ := List.cons.inj h
    exact ⟨rfl, fun hne => absurd hfinish hne, fun _ => rfl⟩
  · rw [readAll_of_ne_finish hfinish] at h
    obtain ⟨rfl, rfl⟩ := List.cons.inj h
    exact ⟨rfl, fun _ => rfl, fun heq => absurd heq hfinish⟩

/-- The tokens of a text are some that are not `finish` and then `finish`, which is empty and lies
at the end of the text. -/
theorem exists_front_readAll (offset : Nat) (cs : List Char) :
    ∃ front, readAll offset cs =
        front ++ [⟨.finish, ⟨offset + Text.size cs, offset + Text.size cs⟩⟩] ∧
      ∀ token ∈ front, token.lexeme ≠ .finish := by
  induction offset, cs using readAll.induct with
  | case1 offset cs token h =>
    have hfinish : (read offset cs).1.lexeme = .finish := h
    refine ⟨[], ?_, by simp⟩
    rw [readAll_of_finish hfinish]
    rcases read_spec offset cs with ⟨-, hread⟩ | ⟨_, _, _, _, -, -, -, hother, hread⟩
    · rw [hread]
      rfl
    · rw [hread] at hfinish
      exact absurd hfinish hother
  | case2 offset cs token h ih =>
    have hother : (read offset cs).1.lexeme ≠ .finish := h
    obtain ⟨front, hfront, hne⟩ := ih
    refine ⟨(read offset cs).1 :: front, ?_, List.forall_mem_cons.2 ⟨hother, hne⟩⟩
    obtain ⟨gap, written, hcs, hspan, -⟩ := exists_of_read offset cs
    have hend : (read offset cs).1.span.stop + Text.size (read offset cs).2 =
        offset + Text.size cs := by
      rw [hspan, congrArg Text.size hcs]
      simp only [Text.size_append, Nat.add_assoc]
    rw [readAll_of_ne_finish hother, hfront, List.cons_append, ← hend]

end Token

namespace Lexer

/-- The lexer on the first token of the text that starts at the given offset. -/
def reading (offset : Nat) (cs : List Char) : Lexer :=
  ⟨(Token.read offset cs).1, (Token.read offset cs).2, offset, false⟩

/-- The lexer after some calls of `next`. -/
def after (lexer : Lexer) : Nat → Lexer
  | 0 => lexer
  | calls + 1 => lexer.next.2.after calls

/-- The calls of `next` hand out exactly these tokens, and nothing ever after. -/
def HandsOut (lexer : Lexer) (tokens : List Token) : Prop :=
  ∀ calls, (lexer.after calls).next.1 = tokens[calls]?

variable {offset : Nat} {cs : List Char}

theorem create?_eq_some {source : Source} (h : Text.drop? offset source.chars = some cs) :
    create? source offset = some (reading offset cs) := by
  rw [create?, h]
  rfl

theorem next_reading (h : (Token.read offset cs).1.lexeme ≠ .finish) :
    (reading offset cs).next = (some (Token.read offset cs).1,
      reading (Token.read offset cs).1.span.stop (Token.read offset cs).2) := by
  simp [next, reading, advance?, h]

theorem next_reading_of_finish (h : (Token.read offset cs).1.lexeme = .finish) :
    (reading offset cs).next =
      (some (Token.read offset cs).1, { reading offset cs with finished := true }) := by
  simp [next, reading, advance?, h]

theorem after_of_finished {lexer : Lexer} (h : lexer.finished = true) (calls : Nat) :
    lexer.after calls = lexer := by
  induction calls with
  | zero => rfl
  | succ calls ih =>
    have hnext : lexer.next.2 = lexer := by rw [next, if_pos h]
    rw [after, hnext, ih]

theorem handsOut_reading (offset : Nat) (cs : List Char) :
    (reading offset cs).HandsOut (Token.readAll offset cs) := by
  induction offset, cs using Token.readAll.induct with
  | case1 offset cs token h =>
    have hnext := next_reading_of_finish h
    rw [Token.readAll_of_finish h]
    intro calls
    cases calls with
    | zero => rw [after, hnext]; rfl
    | succ calls =>
      rw [after, hnext, after_of_finished rfl]
      rfl
  | case2 offset cs token h ih =>
    rw [Token.readAll_of_ne_finish h]
    intro calls
    cases calls with
    | zero => rw [after, next_reading h]; rfl
    | succ calls =>
      rw [after, next_reading h]
      exact ih calls

theorem handsOut_of_create? {source : Source} {lexer : Lexer}
    (h : create? source offset = some lexer) (hcs : Text.drop? offset source.chars = some cs) :
    lexer.HandsOut (Token.readAll offset cs) := by
  obtain rfl := Option.some.inj (h.symm.trans (create?_eq_some hcs))
  exact handsOut_reading offset cs

theorem HandsOut.unique {lexer : Lexer} {tokens tokens' : List Token} (h : lexer.HandsOut tokens)
    (h' : lexer.HandsOut tokens') : tokens = tokens' :=
  List.ext_getElem? fun calls => (h calls).symm.trans (h' calls)

/-- The lexer that comes to a token stands at the end of the token before it. -/
theorem after_reading {before after : List Token} {token : Token}
    (h : Token.readAll offset cs = before ++ token :: after) :
    ∃ front rest, cs = front ++ rest ∧ Token.endOf offset before = offset + Text.size front ∧
      (reading offset cs).after before.length = reading (Token.endOf offset before) rest ∧
      Token.readAll (Token.endOf offset before) rest = token :: after := by
  induction before generalizing offset cs with
  | nil => exact ⟨[], cs, rfl, rfl, rfl, h⟩
  | cons first before ih =>
    obtain ⟨hfirst, hother, hfinish⟩ := Token.readAll_eq_cons h
    have hne : first.lexeme ≠ .finish := fun heq => by simpa using hfinish heq
    obtain ⟨front, rest, hrest, hend, hafter, hreadAll⟩ := ih (hother hne)
    obtain ⟨gap, written, hcs, hspan, -⟩ := Token.exists_of_read offset cs
    rw [hfirst] at hspan
    refine ⟨gap ++ (written ++ front), rest, ?_, ?_, ?_, hreadAll⟩
    · rw [hcs, hrest]
      simp
    · rw [Token.endOf, hend, hspan]
      simp only [Text.size_append]
      omega
    · rw [List.length_cons, Lexer.after, next_reading (hfirst ▸ hne), hfirst]
      exact hafter

end Lexer

/-- The tokens lie one after the other in the part of the text that starts at the offset, with
nothing but gaps between them; only the last one is `finish`. -/
structure Source.TiledBy (source : Source) (offset : Nat) (tokens : List Token) : Prop where
  finish : ∃ front, tokens = front ++ [⟨.finish, ⟨source.size, source.size⟩⟩] ∧
    ∀ token ∈ front, token.lexeme ≠ .finish ∧ token.span.start < token.span.stop
  boundary : ∀ token ∈ tokens, Text.IsBoundary token.span.start source.chars ∧
    Text.IsBoundary token.span.stop source.chars
  ordered : tokens.Pairwise fun token next => token.span.stop ≤ next.span.start
  gaps : ∀ before token after, tokens = before ++ token :: after →
    ∃ gap, Text.slice? (Token.endOf offset before) token.span.start source.chars = some gap ∧
      if after = [] then Gap.Back (Token.endOf offset before) gap
      else Gap.Front (Token.endOf offset before) gap

variable {source : Source} {offset : Nat} {cs : List Char}

theorem Token.exists_gap_of_readAll {token : Token} {after : List Token}
    (h : readAll offset cs = token :: after) :
    ∃ gap rest, cs = gap ++ rest ∧ token.span.start = offset + Text.size gap ∧
      if after = [] then Gap.Back offset gap else Gap.Front offset gap := by
  obtain ⟨hfirst, hother, hfinish⟩ := readAll_eq_cons h
  rcases read_spec offset cs with ⟨hgap, hread⟩ | ⟨gap, written, rest, _, rfl, hgap, -, hne, hread⟩
  · rw [hread] at hfirst
    subst hfirst
    exact ⟨cs, [], by simp, rfl, by rwa [if_pos (hfinish rfl)]⟩
  · rw [hread] at hfirst
    subst hfirst
    refine ⟨gap, written ++ rest, rfl, rfl, ?_⟩
    rw [if_neg]
    · exact hgap
    · rintro rfl
      exact readAll_ne_nil _ _ (hother hne)

theorem Source.tiledBy_readAll (h : Text.drop? offset source.chars = some cs) :
    source.TiledBy offset (Token.readAll offset cs) := by
  obtain ⟨start, hchars, rfl⟩ := Text.exists_of_drop? h
  have hsize : source.size = Text.size start + Text.size cs := by
    rw [Source.size, hchars, Text.size_append]
  have hpairwise := Token.pairwise_readAll (Text.size start) cs
  obtain ⟨front, hfront, hother⟩ := Token.exists_front_readAll (Text.size start) cs
  refine ⟨⟨front, hsize ▸ hfront, fun token htoken => ⟨hother token htoken, ?_⟩⟩, ?_, ?_, ?_⟩
  · rw [hfront] at hpairwise
    exact ((List.pairwise_append.1 hpairwise).2.2 token htoken _ List.mem_cons_self).1
  · intro token htoken
    obtain ⟨before, written, after, rfl, hspan⟩ := Token.exists_of_mem_readAll htoken
    rw [hspan, hchars, ← Text.size_append, ← Text.size_append]
    refine ⟨?_, ?_⟩
    · rw [← List.append_assoc]
      exact Text.isBoundary_size _ _
    · rw [← List.append_assoc, ← List.append_assoc]
      exact Text.isBoundary_size _ _
  · exact hpairwise.imp fun h => h.2
  · intro before token after htokens
    obtain ⟨passed, rest, rfl, hend, -, hreadAll⟩ := Lexer.after_reading htokens
    obtain ⟨gap, rest, rfl, hstart, hgap⟩ := Token.exists_gap_of_readAll hreadAll
    refine ⟨gap, ?_, hgap⟩
    rw [hstart, hend, hchars, ← Text.size_append, ← List.append_assoc]
    exact Text.slice?_size _ gap rest

namespace Token

/-- Behind the end of a token lie the tokens after it, and of `finish` itself, which is empty. -/
theorem filter_readAll {before after : List Token} {token : Token}
    (h : readAll offset cs = before ++ token :: after) :
    (readAll offset cs).filter (token.span.stop ≤ ·.span.start) =
      if token.span.start < token.span.stop then after else token :: after := by
  obtain ⟨_, written, _, -, hspan⟩ := exists_of_mem_readAll (h ▸ List.mem_append_right before
    List.mem_cons_self : token ∈ readAll offset cs)
  have hpairwise := pairwise_readAll offset cs
  rw [h] at hpairwise ⊢
  obtain ⟨-, htail, hbefore⟩ := List.pairwise_append.1 hpairwise
  obtain ⟨hafter, -⟩ := List.pairwise_cons.1 htail
  have hdropped : before.filter (token.span.stop ≤ ·.span.start) = [] := by
    refine List.filter_eq_nil_iff.2 fun earlier hearlier => ?_
    have hlt := hbefore earlier hearlier token List.mem_cons_self
    have hle : token.span.start ≤ token.span.stop := by
      rw [hspan]
      exact Nat.le_add_right _ _
    simp only [decide_eq_true_eq, not_le]
    omega
  have hkept : after.filter (token.span.stop ≤ ·.span.start) = after :=
    List.filter_eq_self.2 fun later hlater => decide_eq_true (hafter later hlater).2
  rw [List.filter_append, hdropped, List.nil_append, List.filter_cons, hkept]
  simp only [decide_eq_true_eq, ← not_lt, ite_not]

end Token

namespace Lexer

/-- A lexer that starts at the end of a token hands out the tokens that lie from there on. -/
theorem exists_later {before after : List Token} {token : Token}
    (h : Text.drop? offset source.chars = some cs)
    (htokens : Token.readAll offset cs = before ++ token :: after) :
    ∃ later rest, create? source token.span.stop = some later ∧ later.HandsOut rest ∧
      rest = (Token.readAll offset cs).filter (token.span.stop ≤ ·.span.start) ∧
      (token.lexeme ≠ .finish → rest = after) := by
  obtain ⟨start, hchars, rfl⟩ := Text.exists_of_drop? h
  obtain ⟨front, cs, rfl, hend, -, hreadAll⟩ := after_reading htokens
  obtain ⟨hfirst, hother, hfinish⟩ := Token.readAll_eq_cons hreadAll
  rw [Token.filter_readAll htokens]
  -- a lexer behind `finish` hands out `finish` again, and one behind another token what is left
  rcases Token.read_spec (Token.endOf (Text.size start) before) cs with
    ⟨-, hread⟩ | ⟨gap, written, rest, lexeme, rfl, -, hwritten, hne, hread⟩
  · rw [hread] at hfirst
    subst hfirst
    have hdrop : Text.drop? (Token.endOf (Text.size start) before + Text.size cs)
        source.chars = some [] := by
      rw [hend, hchars, ← Text.size_append, ← Text.size_append, ← List.append_assoc]
      exact Text.drop?_size_self _
    refine ⟨_, _, create?_eq_some hdrop, handsOut_reading _ _, ?_, fun hne => absurd rfl hne⟩
    rw [if_neg (lt_irrefl _), hfinish rfl]
    exact Token.readAll_of_finish rfl
  · rw [hread] at hfirst hother
    subst hfirst
    have hdrop : Text.drop? (Token.endOf (Text.size start) before + Text.size gap +
        Text.size written) source.chars = some rest := by
      rw [hend, hchars]
      simp only [← Text.size_append, ← List.append_assoc]
      exact Text.drop?_size _ _
    refine ⟨_, _, create?_eq_some hdrop, handsOut_reading _ _, ?_, hother⟩
    obtain ⟨c, tail, rfl⟩ := List.exists_cons_of_ne_nil hwritten
    have hpos := c.utf8Size_pos
    rw [if_pos (by simp only [Text.size_cons]; omega)]
    exact hother hne

/-- The tokens that a lexer hands out tile the text from where it starts, each is current when the
end of the one before it is `previousEnd`, and a lexer that starts at the end of a token hands out
the tokens that lie from there on. -/
theorem handsOut_tiles (h : Text.IsBoundary offset source.chars) :
    ∃ lexer tokens, create? source offset = some lexer ∧ lexer.HandsOut tokens ∧
      source.TiledBy offset tokens ∧
      ∀ before token after, tokens = before ++ token :: after →
        (lexer.after before.length).current = token ∧
        (lexer.after before.length).previousEnd = Token.endOf offset before ∧
        ∃ later rest, create? source token.span.stop = some later ∧ later.HandsOut rest ∧
          rest = tokens.filter (token.span.stop ≤ ·.span.start) ∧
          (token.lexeme ≠ .finish → rest = after) := by
  obtain ⟨cs, hcs⟩ := Option.isSome_iff_exists.1 h
  refine ⟨reading offset cs, Token.readAll offset cs, create?_eq_some hcs,
    handsOut_reading offset cs, Source.tiledBy_readAll hcs, fun before token after htokens => ?_⟩
  obtain ⟨front, rest, -, -, hafter, hreadAll⟩ := after_reading htokens
  rw [hafter]
  exact ⟨(Token.readAll_eq_cons hreadAll).1, rfl, exists_later hcs htokens⟩

/-- A text with a comment, a literal that is too large and a comment that does not end. -/
def boundsFile : Source :=
  ⟨"bounds.thrift", "é /* minimum */ -9223372036854775809 ; # maximum\n λ /* none"⟩

/-- The tokens behind the first character. -/
def boundsTokens : List Token :=
  [⟨.integerRange, ⟨17, 37⟩⟩, ⟨.mark .semicolon, ⟨38, 39⟩⟩, ⟨.unknownChar 'λ', ⟨51, 53⟩⟩,
    ⟨.unclosedComment, ⟨54, 61⟩⟩, ⟨.finish, ⟨61, 61⟩⟩]

theorem handsOut_tiles_boundsFile :
    Text.IsBoundary 2 boundsFile.chars ∧
      ∃ lexer, create? boundsFile 2 = some lexer ∧ lexer.HandsOut boundsTokens ∧
        boundsFile.TiledBy 2 boundsTokens ∧
        (lexer.after 2).current = ⟨.unknownChar 'λ', ⟨51, 53⟩⟩ ∧
        (lexer.after 2).previousEnd = 39 ∧
        ∃ later, create? boundsFile 53 = some later ∧
          later.HandsOut [⟨.unclosedComment, ⟨54, 61⟩⟩, ⟨.finish, ⟨61, 61⟩⟩] := by
  have hstart : Text.IsBoundary 2 boundsFile.chars := by decide
  obtain ⟨lexer, tokens, hcreate, hout, htiled, hplaces⟩ := handsOut_tiles hstart
  have hcs : Text.drop? 2 boundsFile.chars = some (boundsFile.chars.drop 1) := by decide
  have hread : Token.readAll 2 (boundsFile.chars.drop 1) = boundsTokens := by decide +kernel
  obtain rfl : tokens = boundsTokens := hout.unique (hread ▸ handsOut_of_create? hcreate hcs)
  obtain ⟨hcurrent, hprevious, later, rest, hlater, hrest, -, hafter⟩ :=
    hplaces (boundsTokens.take 2) _ _ rfl
  obtain rfl := hafter (by decide)
  exact ⟨hstart, lexer, hcreate, hout, htiled, hcurrent, hprevious, later, hlater, hrest⟩

end Lexer
end Idl
