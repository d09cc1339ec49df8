import Idl.Proofs.LexicalGrammar

/-!
# Runs of tokens

A stretch of text is read as a run of tokens, each with its span, in front of the text that goes on
behind it. Runs can be put one behind the other, and a run that is cut out of its text is read in
the same way wherever it then begins.
-/
namespace Idl

def Span.move (f : Nat → Nat) (span : Span) : Span := ⟨f span.start, f span.stop⟩

def Token.move (f : Nat → Nat) (token : Token) : Token := ⟨token.lexeme, token.span.move f⟩

namespace Token

/-- A lexeme that is neither a fault nor the end of the text. -/
def IsWhole (lexeme : Lexeme) : Prop :=
  lexeme.kind.isFault = false ∧ lexeme ≠ .finish

/-- The characters, which begin at the offset and have `after` behind them, are read as the tokens
with gaps in front of them, and perhaps one more at the end. -/
inductive Run (after : List Char) : Nat → List Char → List Token → Prop
  | nil {offset} : Run after offset [] []
  | gap {offset gap cs tokens} (filler : Gap.Filler gap)
      (tail : Run after (offset + Text.size gap) cs tokens) : Run after offset (gap ++ cs) tokens
  | token {offset written cs lexeme tokens} (whole : IsWhole lexeme)
      (lexical : Lexical offset written (cs ++ after) lexeme)
      (tail : Run after (offset + Text.size written) cs tokens) :
      Run after offset (written ++ cs)
        (⟨lexeme, ⟨offset, offset + Text.size written⟩⟩ :: tokens)

theorem readAll_of_read_eq {offset offset' : Nat} {cs cs' : List Char}
    (h : read offset cs = read offset' cs') : readAll offset cs = readAll offset' cs' := by
  by_cases hfinish : (read offset cs).1.lexeme = .finish
  · rw [readAll_of_finish hfinish, readAll_of_finish (h ▸ hfinish), h]
  · have hfinish' : (read offset' cs').1.lexeme ≠ .finish := h ▸ hfinish
    rw [readAll_of_ne_finish hfinish, readAll_of_ne_finish hfinish', h]

theorem read_gap {offset : Nat} {gap cs : List Char}
    (h : Gap.read .between offset (gap ++ cs) = Gap.read .between (offset + Text.size gap) cs) :
    read offset (gap ++ cs) = read (offset + Text.size gap) cs := by
  rw [read, read, h]

theorem readAll_lexical {offset : Nat} {written rest : List Char} {lexeme : Lexeme}
    (h : Lexical offset written rest lexeme) (hne : lexeme ≠ .finish) :
    readAll offset (written ++ rest) = ⟨lexeme, ⟨offset, offset + Text.size written⟩⟩ ::
      readAll (offset + Text.size written) rest := by
  rw [readAll_of_ne_finish (by rw [h.read_eq]; exact hne), h.read_eq]

namespace Run

variable {after cs cs' : List Char} {offset : Nat} {tokens tokens' : List Token}

theorem readAll_append (h : Run after offset cs tokens) :
    readAll offset (cs ++ after) = tokens ++ readAll (offset + Text.size cs) after := by
  induction h with
  | nil => rfl
  | gap filler _ ih =>
    rw [List.append_assoc, readAll_of_read_eq (read_gap (Gap.read_filler filler)), ih,
      Text.size_append, Nat.add_assoc]
  | token whole lexical _ ih =>
    rw [List.append_assoc, readAll_lexical lexical whole.2, ih, Text.size_append, Nat.add_assoc,
      List.cons_append]

/-- At the end of a text the run is all that is read, but for the end itself. -/
theorem readAll_eq (h : Run [] offset cs tokens) :
    readAll offset cs =
      tokens ++ [⟨.finish, ⟨offset + Text.size cs, offset + Text.size cs⟩⟩] := by
  have hread := h.readAll_append
  rw [List.append_nil] at hread
  rw [hread, readAll_of_finish rfl]
  rfl

theorem append (h : Run (cs' ++ after) offset cs tokens)
    (h' : Run after (offset + Text.size cs) cs' tokens') :
    Run after offset (cs ++ cs') (tokens ++ tokens') := by
  induction h with
  | nil => exact h'
  | gap filler _ ih =>
    rw [Text.size_append, ← Nat.add_assoc] at h'
    rw [List.append_assoc]
    exact .gap filler (ih h')
  | token whole lexical _ ih =>
    rw [Text.size_append, ← Nat.add_assoc] at h'
    rw [List.append_assoc]
    exact .token whole (by rwa [List.append_assoc]) (ih h')

theorem isWhole (h : Run after offset cs tokens) : ∀ token ∈ tokens, IsWhole token.lexeme := by
  induction h with
  | nil => simp
  | gap _ _ ih => exact ih
  | token whole _ _ ih => exact List.forall_mem_cons.2 ⟨whole, ih⟩

end Run

end Token

/-- A token is read in the same way if the text ends somewhere behind it, and wherever it begins. -/
theorem Lexical.cut {offset : Nat} {written rest after : List Char} {lexeme : Lexeme}
    (h : Lexical offset written (rest ++ after) lexeme) (hwhole : Token.IsWhole lexeme)
    (offset' : Nat) : Lexical offset' written rest lexeme := by
  have hhead : ∀ c ∈ rest.head?, c ∈ (rest ++ after).head? := by
    cases rest with
    | nil => simp
    | cons c rest => simp
  generalize hfollows : rest ++ after = follows at h
  rw [hfollows] at hhead
  cases h with
  | finish => exact absurd rfl hwhole.2
  | string unquoted => exact .string unquoted
  | integer signed decimal longest range =>
    exact .integer signed decimal (fun c hc => longest c (hhead c hc)) range
  | keyword word longest => exact .keyword word fun c hc => longest c (hhead c hc)
  | identifier start parts longest notKeyword =>
    exact .identifier start parts (fun c hc => longest c (hhead c hc)) notKeyword
  | mark mark => exact .mark mark
  | unclosedString | integerRange | unclosedComment | unknownChar => cases hwhole.1

namespace Token

variable {after cs : List Char} {offset : Nat} {tokens : List Token}

/-- A run that is cut out of its text is read in the same way from where it then begins. -/
theorem Run.exists_cut {start shift : Nat} (h : Run after start cs tokens)
    (hstart : start = offset + shift) :
    ∃ cut, Run [] offset cs cut ∧ tokens = cut.map (Token.move (· + shift)) := by
  induction h generalizing offset with
  | nil => exact ⟨[], .nil, rfl⟩
  | @gap start gap cs tokens filler _ ih =>
    obtain ⟨cut, hcut, htokens⟩ := @ih (offset + Text.size gap) (by omega)
    exact ⟨cut, .gap filler hcut, htokens⟩
  | @token start written cs lexeme tokens whole lexical _ ih =>
    obtain ⟨cut, hcut, rfl⟩ := @ih (offset + Text.size written) (by omega)
    refine ⟨⟨lexeme, ⟨offset, offset + Text.size written⟩⟩ :: cut,
      .token whole (by rw [List.append_nil]; exact lexical.cut whole offset) hcut, ?_⟩
    subst hstart
    rw [List.map_cons, move, Span.move, Nat.add_right_comm]

/-! ### Runs in a text -/

/-- What is read behind a gap, if that is a token. -/
theorem exists_front_lexical (h : IsWhole (read offset cs).1.lexeme) :
    ∃ gap written rest lexeme, cs = gap ++ (written ++ rest) ∧ Gap.Front offset gap ∧
      Lexical (offset + Text.size gap) written rest lexeme ∧
      read offset cs =
        (⟨lexeme, ⟨offset + Text.size gap, offset + Text.size gap + Text.size written⟩⟩, rest) := by
  obtain ⟨gap, rest, rfl, hgap, hstop, hmark⟩ := Gap.exists_front offset cs
  rw [read_gap (Gap.read_front hgap)] at h ⊢
  cases hstop with
  | finish => exact absurd rfl h.2
  | line hcomment =>
    rw [read, Gap.read_lineComment hcomment] at h
    exact absurd rfl h.2
  | block hclose =>
    rw [read, Gap.read_unclosed hclose] at h
    cases h.1
  | @other c rest hblank hhash hcomment =>
    have hclosed : c = '\uFEFF' → offset + Text.size gap ≠ 0 := fun hc => hmark (congrArg some hc)
    refine ⟨gap, _, _, _, ?_, hgap, Reading.lexical_ofChars hblank hhash hcomment hclosed, ?_⟩
    · rw [Reading.written_append_rest]
    · rw [read, Gap.read_other hblank hhash hcomment hclosed]

/-- Tokens that are read one after the other, the first of them behind a gap, are a run. -/
theorem exists_run {first : Token} {later : List Token}
    (hreadAll : readAll offset cs = first :: tokens ++ later)
    (hwhole : ∀ token ∈ first :: tokens, IsWhole token.lexeme) :
    ∃ gap text after, cs = gap ++ (text ++ after) ∧ Gap.Front offset gap ∧
      Run after (offset + Text.size gap) text (first :: tokens) ∧
      first.span.start = offset + Text.size gap ∧
      ((first :: tokens).getLast?.map (·.span.stop)) =
        some (offset + Text.size gap + Text.size text) := by
  induction tokens generalizing offset cs first with
  | nil =>
    obtain ⟨hread, -, -⟩ := readAll_eq_cons hreadAll
    have hfirst := hwhole first List.mem_cons_self
    obtain ⟨gap, written, rest, lexeme, rfl, hgap, hlexical, hwritten⟩ :=
      exists_front_lexical (hread ▸ hfirst)
    rw [hwritten] at hread
    subst hread
    refine ⟨gap, written, rest, rfl, hgap, ?_, rfl, rfl⟩
    have hrun := @Run.token rest _ written [] lexeme [] hfirst hlexical .nil
    rwa [List.append_nil] at hrun
  | cons next tokens ih =>
    obtain ⟨hread, hrest, -⟩ := readAll_eq_cons hreadAll
    have hfirst := hwhole first List.mem_cons_self
    obtain ⟨gap, written, rest, lexeme, rfl, hgap, hlexical, hwritten⟩ :=
      exists_front_lexical (hread ▸ hfirst)
    have hbefore := pairwise_readAll offset (gap ++ (written ++ rest))
    rw [hreadAll] at hbefore
    have hnonempty := ((List.pairwise_cons.1 hbefore).1 next List.mem_cons_self).1
    replace hrest := hrest hfirst.2
    rw [hwritten] at hread hrest
    subst hread
    simp only at hnonempty
    obtain ⟨inner, text, after, rfl, hinner, hrun, -, hstop⟩ :=
      ih hrest fun token htoken => hwhole token (List.mem_cons_of_mem _ htoken)
    -- a byte order mark is part of a gap at the start of the text only
    have hfiller : Gap.Filler inner := by
      cases hinner with
      | filler h => exact h
      | marked hstart =>
        have hzero : offset + Text.size gap + Text.size written = 0 := hstart
        omega
    refine ⟨gap, written ++ (inner ++ text), after, by simp, hgap, ?_, rfl, ?_⟩
    · exact .token hfirst (by rwa [List.append_assoc]) (.gap hfiller hrun)
    · rw [List.getLast?_cons_cons, hstop]
      simp only [Text.size_append, Nat.add_assoc]

end Token
end Idl
