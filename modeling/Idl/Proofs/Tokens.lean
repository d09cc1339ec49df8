import Idl.Token.Lexer
import Mathlib.Data.List.TakeWhile
import Mathlib.Tactic.Tauto

/-!
# Facts about the tokens of a text

Tokens follow one another in the text and begin and end between characters, `finish` is the last
token and no other, and an identifier is a run of word characters that spells no keyword.
-/
namespace Idl

/-- An identifier is spelled as a word that is no keyword. -/
def Lexeme.IsProper (lexeme : Lexeme) : Prop :=
  ∀ name, lexeme = .identifier name →
    Keyword.ofSpelling? name = none ∧ ∀ c ∈ name.toList, Reading.isWordPart c

namespace Reading

theorem isWordPart_of_isWordStart {c : Char} (h : isWordStart c) : isWordPart c := by
  simp only [isWordStart, isWordPart, Bool.or_eq_true, Char.isAlphanum] at h ⊢
  tauto

theorem isProper_wordLexeme {word : String} (h : ∀ c ∈ word.toList, isWordPart c) :
    (wordLexeme word).IsProper := by
  intro name hname
  unfold wordLexeme at hname
  split at hname
  · cases hname
  · next hnone =>
    obtain rfl := Lexeme.identifier.inj hname
    exact ⟨hnone, h⟩

theorem integerLexeme_ne_identifier (value : Int) (name : String) :
    integerLexeme value ≠ .identifier name := by
  unfold integerLexeme
  split <;> simp

theorem isProper_readInteger (sign cs : List Char) : (readInteger sign cs).lexeme.IsProper :=
  fun name hname => absurd hname (integerLexeme_ne_identifier _ name)

theorem isProper_ofChars (cs : List Char) : (ofChars cs).lexeme.IsProper := by
  fun_cases ofChars cs with
  | case4 => exact isProper_readInteger [] _
  | case5 => exact isProper_readInteger _ _
  | case6 c cs _ _ _ hstart word =>
    apply isProper_wordLexeme
    intro d hd
    rw [String.toList_ofList] at hd
    rcases List.mem_cons.1 hd with rfl | hd
    · exact isWordPart_of_isWordStart hstart
    · exact List.mem_takeWhile_imp hd
  | _ =>
    intro name hname
    cases hname

/-- A word is read back from its spelling. -/
theorem wordLexeme_of_isProper {name : String} (h : (Lexeme.identifier name).IsProper) :
    wordLexeme name = .identifier name := by
  rw [wordLexeme, (h name rfl).1]

end Reading

namespace Gap

theorem utf8Size_of_isBlank {c : Char} (h : isBlank c) : c.utf8Size = 1 := by
  simp only [isBlank, Bool.or_eq_true, beq_iff_eq] at h
  rcases h with ((rfl | rfl) | rfl) | rfl <;> rfl

/-- Where a gap lies in the text that it is read from: one that is closed is cut off the front, and
a comment that never ends reaches from where it is opened to the end of the text. -/
def LiesIn (region : Region) (offset : Nat) (cs : List Char) : Gap → Prop
  | .closed stop rest => ∃ gap, cs = gap ++ rest ∧ stop = offset + Text.size gap
  | .unclosed opened stop => stop = offset + Text.size cs ∧ (region = .block opened ∨
      ∃ gap comment, cs = gap ++ comment ∧ opened = offset + Text.size gap ∧ comment ≠ [])

/-- A gap may be read on from behind its first characters. They may open a comment, and else the
comment that is read on in was open before. -/
theorem LiesIn.skip {region inner : Region} {offset : Nat} {cs : List Char} {gap : Gap}
    (skipped : List Char) (h : gap.LiesIn inner (offset + Text.size skipped) cs)
    (hinner : ∀ opened, inner = .block opened →
      region = .block opened ∨ opened = offset ∧ skipped ≠ []) :
    gap.LiesIn region offset (skipped ++ cs) := by
  cases gap with
  | closed stop rest =>
    obtain ⟨gap, rfl, rfl⟩ := h
    exact ⟨skipped ++ gap, by simp, by simp; omega⟩
  | unclosed opened stop =>
    obtain ⟨rfl, hopened | ⟨gap, comment, rfl, rfl, hcomment⟩⟩ := h
    · refine ⟨by simp; omega, ?_⟩
      rcases hinner opened hopened with hregion | ⟨rfl, hskipped⟩
      · exact .inl hregion
      · exact .inr ⟨[], skipped ++ cs, rfl, rfl, by simp [hskipped]⟩
    · exact ⟨by simp; omega,
        .inr ⟨skipped ++ gap, comment, by simp, by simp; omega, hcomment⟩⟩

theorem liesIn_read (region : Region) (offset : Nat) (cs : List Char) :
    (read region offset cs).LiesIn region offset cs := by
  fun_induction read region offset cs with
  | case1 | case7 | case8 => exact ⟨[], rfl, rfl⟩
  | case2 offset tail ih => exact .skip ['/', '/'] ih fun _ => Region.noConfusion
  | case3 offset tail ih =>
    refine .skip ['/', '*'] ih fun opened hopened => ?_
    exact .inr ⟨(Region.block.inj hopened).symm, List.cons_ne_nil _ _⟩
  | case4 offset c tail _ _ hblank ih =>
    exact .skip [c] (by simpa [utf8Size_of_isBlank hblank] using ih) fun _ => Region.noConfusion
  | case5 offset tail _ _ _ ih => exact .skip ['#'] ih fun _ => Region.noConfusion
  | case6 offset c tail _ _ _ _ _ ih => exact .skip [c] ih fun _ => Region.noConfusion
  | case9 offset c tail ih =>
    refine .skip [c] ih fun opened hopened => ?_
    split at hopened <;> cases hopened
  | case10 => exact ⟨rfl, .inl rfl⟩
  | case11 opened offset tail ih => exact .skip ['*', '/'] ih fun _ => Region.noConfusion
  | case12 opened offset c tail _ ih => exact .skip [c] ih fun _ => .inl

theorem exists_of_read_closed {region : Region} {offset stop : Nat} {cs rest : List Char}
    (h : read region offset cs = .closed stop rest) :
    ∃ gap, cs = gap ++ rest ∧ stop = offset + Text.size gap := by
  have hlies := liesIn_read region offset cs
  rwa [h] at hlies

end Gap

namespace Token

/-- `finish` ends the list and stands nowhere else in it. -/
inductive Closed : List Token → Prop
  | last {token} (finish : token.lexeme = .finish) : Closed [token]
  | cons {token tokens} (other : token.lexeme ≠ .finish) (closed : Closed tokens) :
      Closed (token :: tokens)

/-- A token is cut off the text behind a gap. -/
theorem exists_of_read (offset : Nat) (cs : List Char) :
    ∃ gap written, cs = gap ++ (written ++ (read offset cs).2) ∧
      (read offset cs).1.span =
        ⟨offset + Text.size gap, offset + Text.size gap + Text.size written⟩ ∧
      ((read offset cs).1.lexeme ≠ .finish → written ≠ []) := by
  unfold read
  split
  · next opened stop hgap =>
    have hlies := Gap.liesIn_read .between offset cs
    rw [hgap] at hlies
    obtain ⟨rfl, hregion | ⟨gap, comment, rfl, rfl, hcomment⟩⟩ := hlies
    · cases hregion
    · exact ⟨gap, comment, by simp, by simp; omega, fun _ => hcomment⟩
  · next start rest hgap =>
    obtain ⟨gap, rfl, rfl⟩ := Gap.exists_of_read_closed hgap
    refine ⟨gap, (Reading.ofChars rest).written, ?_, rfl, fun hlexeme => ?_⟩
    · simp only [Reading.written_append_rest]
    · apply Reading.written_ne_nil
      rintro rfl
      exact hlexeme rfl

theorem isProper_read (offset : Nat) (cs : List Char) : (read offset cs).1.lexeme.IsProper := by
  unfold read
  split
  · intro name hname
    cases hname
  · exact Reading.isProper_ofChars _

theorem closed_readAll (offset : Nat) (cs : List Char) : Closed (readAll offset cs) := by
  induction offset, cs using readAll.induct with
  | case1 offset cs token h =>
    rw [readAll_of_finish h]
    exact .last h
  | case2 offset cs token h ih =>
    rw [readAll_of_ne_finish h]
    exact .cons h ih

theorem isProper_of_mem_readAll {offset : Nat} {cs : List Char} {token : Token}
    (h : token ∈ readAll offset cs) : token.lexeme.IsProper := by
  induction offset, cs using readAll.induct with
  | case1 offset cs first hfirst =>
    rw [readAll_of_finish hfirst] at h
    obtain rfl := List.mem_singleton.1 h
    exact isProper_read offset cs
  | case2 offset cs first hfirst ih =>
    rw [readAll_of_ne_finish hfirst] at h
    rcases List.mem_cons.1 h with rfl | h
    · exact isProper_read offset cs
    · exact ih h

/-- Every token covers a part of the text. -/
theorem exists_of_mem_readAll {offset : Nat} {cs : List Char} {token : Token}
    (h : token ∈ readAll offset cs) :
    ∃ before written after, cs = before ++ (written ++ after) ∧
      token.span = ⟨offset + Text.size before,
        offset + Text.size before + Text.size written⟩ := by
  induction offset, cs using readAll.induct with
  | case1 offset cs first hfirst =>
    rw [readAll_of_finish hfirst] at h
    obtain rfl := List.mem_singleton.1 h
    obtain ⟨gap, written, hcs, hspan, -⟩ := exists_of_read offset cs
    exact ⟨gap, written, _, hcs, hspan⟩
  | case2 offset cs first hfirst ih =>
    rw [readAll_of_ne_finish hfirst] at h
    obtain ⟨gap, written, hcs, hspan, -⟩ := exists_of_read offset cs
    rcases List.mem_cons.1 h with rfl | h
    · exact ⟨gap, written, _, hcs, hspan⟩
    · obtain ⟨before, written', after, hrest, hspan'⟩ := ih h
      refine ⟨gap ++ (written ++ before), written', after, ?_, ?_⟩
      · rw [hcs, hrest]
        simp
      · rw [hspan', hspan]
        simp only [Text.size_append]
        congr 1 <;> omega

theorem le_start_of_mem_readAll {offset : Nat} {cs : List Char} {token : Token}
    (h : token ∈ readAll offset cs) : offset ≤ token.span.start := by
  obtain ⟨before, written, after, -, hspan⟩ := exists_of_mem_readAll h
  rw [hspan]
  exact Nat.le_add_right offset _

/-- A token that has another one after it is not empty and ends before that one starts. -/
theorem pairwise_readAll (offset : Nat) (cs : List Char) :
    (readAll offset cs).Pairwise fun token next =>
      token.span.start < token.span.stop ∧ token.span.stop ≤ next.span.start := by
  induction offset, cs using readAll.induct with
  | case1 offset cs token h =>
    rw [readAll_of_finish h]
    exact List.pairwise_singleton _ _
  | case2 offset cs token h ih =>
    rw [readAll_of_ne_finish h]
    refine List.pairwise_cons.2 ⟨fun next hnext => ⟨?_, le_start_of_mem_readAll hnext⟩, ih⟩
    obtain ⟨gap, written, -, hspan, hwritten⟩ := exists_of_read offset cs
    obtain ⟨c, written, rfl⟩ := List.exists_cons_of_ne_nil (hwritten h)
    have hpos := c.utf8Size_pos
    rw [hspan]
    simp only [Text.size_cons]
    omega

end Token

/-- Tokens begin and end between characters. -/
theorem Source.isBoundary_of_mem_tokens {source : Source} {token : Token}
    (h : token ∈ source.tokens) :
    Text.IsBoundary token.span.start source.chars ∧
      Text.IsBoundary token.span.stop source.chars := by
  obtain ⟨before, written, after, hchars, hspan⟩ := Token.exists_of_mem_readAll h
  rw [hspan, hchars]
  refine ⟨?_, ?_⟩
  · rw [Text.IsBoundary, Nat.zero_add, Text.drop?_size]
    rfl
  · rw [Text.IsBoundary, Nat.zero_add, ← Text.size_append, ← List.append_assoc, Text.drop?_size]
    rfl

end Idl
