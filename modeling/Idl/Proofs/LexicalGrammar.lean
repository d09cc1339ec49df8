import Idl.Proofs.TokenStream
import Idl.Proofs.WrittenTokens
import Mathlib.Data.List.Induction
import Mathlib.Data.Nat.Digits.Defs

/-!
# The lexical grammar

What a token may be written with and what it then means, depending on what comes behind it. Behind
a gap a text has exactly one reading, and the token that is handed out there is that reading.
-/
namespace Idl

/-- What stands in front of the digits of a number, and what the number is multiplied by. -/
inductive Sign : List Char → Int → Prop
  | unsigned : Sign [] 1
  | plus : Sign ['+'] 1
  | minus : Sign ['-'] (-1)

/-- The number that decimal digits stand for. -/
def numeral (digits : List Char) : Nat :=
  Nat.ofDigits 10 (digits.reverse.map fun c => c.toNat - '0'.toNat)

/-- The numbers that literals can have as values. -/
def IsInt64 (value : Int) : Prop :=
  -2 ^ 63 ≤ value ∧ value < 2 ^ 63

/-- A character at an offset that starts neither a gap nor any of the tokens proper, because of
what it is or because of the one behind it. -/
structure IsUnknown (offset : Nat) (c : Char) (next : Option Char) : Prop where
  notQuote : c ≠ '"'
  notDigit : ¬ c.isDigit
  notWord : ¬ Reading.isWordStart c
  notMark : ∀ mark : Mark, mark.char ≠ c
  notBlank : ¬ Gap.isBlank c
  notHash : c ≠ '#'
  notSign : c = '+' ∨ c = '-' → ¬ next.any Char.isDigit
  notComment : c = '/' → next ≠ some '/' ∧ next ≠ some '*'
  notByteOrderMark : c = '\uFEFF' → offset ≠ 0

/-- The readings of a text at an offset, where no gap goes on: the characters of the token, those
behind it, and the lexeme. -/
inductive Lexical (offset : Nat) : List Char → List Char → Lexeme → Prop
  | finish : Lexical offset [] [] .finish
  | string {contents rest} (unquoted : '"' ∉ contents) :
      Lexical offset ('"' :: (contents ++ ['"'])) rest (.string (String.ofList contents))
  | unclosedString {contents} (unquoted : '"' ∉ contents) :
      Lexical offset ('"' :: contents) [] .unclosedString
  | integer {sign unit digits rest} (signed : Sign sign unit) (decimal : IsDecimal digits)
      (longest : ∀ c ∈ rest.head?, ¬ c.isDigit) (range : IsInt64 (unit * numeral digits)) :
      Lexical offset (sign ++ digits) rest (.integer (unit * numeral digits))
  | integerRange {sign unit digits rest} (signed : Sign sign unit) (decimal : IsDecimal digits)
      (longest : ∀ c ∈ rest.head?, ¬ c.isDigit) (range : ¬ IsInt64 (unit * numeral digits)) :
      Lexical offset (sign ++ digits) rest .integerRange
  | keyword (word : Keyword) {rest} (longest : Reading.Apart rest) :
      Lexical offset word.spelling.toList rest (.keyword word)
  | identifier {c cs rest} (start : Reading.isWordStart c) (parts : ∀ d ∈ cs, Reading.isWordPart d)
      (longest : Reading.Apart rest)
      (notKeyword : ∀ word : Keyword, word.spelling ≠ String.ofList (c :: cs)) :
      Lexical offset (c :: cs) rest (.identifier (String.ofList (c :: cs)))
  | unclosedComment {text} (unclosed : ¬ ['*', '/'] <:+: text) :
      Lexical offset ('/' :: '*' :: text) [] .unclosedComment
  | mark (mark : Mark) {rest} : Lexical offset [mark.char] rest (.mark mark)
  | unknownChar {c rest} (unknown : IsUnknown offset c rest.head?) :
      Lexical offset [c] rest (.unknownChar c)

theorem decimal_eq_numeral (digits : List Char) : Reading.decimal digits = numeral digits := by
  induction digits using List.reverseRecOn with
  | nil => rfl
  | append_singleton digits c ih =>
    rw [Reading.decimal, List.foldl_append, ← Reading.decimal, ih, numeral, numeral,
      List.reverse_append, List.reverse_singleton, List.singleton_append, List.map_cons,
      Nat.ofDigits_cons]
    exact Nat.add_comm _ _

namespace Keyword

theorem ofSpelling?_eq_none_iff {text : String} :
    ofSpelling? text = none ↔ ∀ word : Keyword, word.spelling ≠ text := by
  simp [ofSpelling?, List.find?_eq_none, mem_all]

end Keyword

namespace Mark

theorem ofChar?_eq_none_iff {c : Char} : ofChar? c = none ↔ ∀ mark : Mark, mark.char ≠ c := by
  simp [ofChar?, List.find?_eq_none, mem_all]

end Mark

namespace Reading

theorem not_head?_dropWhile (p : Char → Bool) (cs : List Char) :
    ∀ c ∈ (cs.dropWhile p).head?, ¬ p c := by
  intro c hc hp
  have := List.head?_dropWhile_not p cs
  rw [Option.mem_def.1 hc] at this
  simp [hp] at this

/-- A number is read with all its digits. -/
theorem lexical_readInteger (offset : Nat) {sign : List Char} {unit : Int} (hsign : Sign sign unit)
    {cs : List Char} (hdigit : cs.head?.any Char.isDigit) :
    Lexical offset (readInteger sign cs).written (readInteger sign cs).rest
      (readInteger sign cs).lexeme := by
  have hdecimal : IsDecimal (cs.takeWhile Char.isDigit) := by
    refine ⟨fun hnil => ?_, fun c hc => List.mem_takeWhile_imp hc⟩
    cases cs with
    | nil => cases hdigit
    | cons c cs => simp [show c.isDigit from hdigit] at hnil
  have hlongest := not_head?_dropWhile Char.isDigit cs
  have hvalue : (if sign = ['-'] then -(decimal (cs.takeWhile Char.isDigit) : Int)
      else decimal (cs.takeWhile Char.isDigit)) =
        unit * numeral (cs.takeWhile Char.isDigit) := by
    rw [decimal_eq_numeral]
    cases hsign <;> simp
  simp only [readInteger, hvalue, integerLexeme]
  split
  · next hrange => exact .integer hsign hdecimal hlongest (by rw [IsInt64]; omega)
  · next hrange => exact .integerRange hsign hdecimal hlongest (by rw [IsInt64]; omega)

theorem lexical_wordLexeme (offset : Nat) {c : Char} {cs rest : List Char} (start : isWordStart c)
    (parts : ∀ d ∈ cs, isWordPart d) (hrest : Apart rest) :
    Lexical offset (c :: cs) rest (wordLexeme (String.ofList (c :: cs))) := by
  unfold wordLexeme
  split
  · next word hword =>
    have hspelling := congrArg String.toList (Keyword.spelling_of_ofSpelling? hword)
    rw [String.toList_ofList] at hspelling
    exact hspelling ▸ .keyword word hrest
  · next hword => exact .identifier start parts hrest (Keyword.ofSpelling?_eq_none_iff.1 hword)

/-- Where no gap goes on, the text is read as the lexical grammar says. -/
theorem lexical_ofChars {offset : Nat} {c : Char} {cs : List Char} (notBlank : ¬ Gap.isBlank c)
    (notHash : c ≠ '#') (notComment : c = '/' → cs.head? ≠ some '/' ∧ cs.head? ≠ some '*')
    (notByteOrderMark : c = '\uFEFF' → offset ≠ 0) :
    Lexical offset (ofChars (c :: cs)).written (ofChars (c :: cs)).rest
      (ofChars (c :: cs)).lexeme := by
  generalize htext : c :: cs = text
  fun_cases ofChars text with
  | case1 => cases htext
  | case2 cs h =>
    refine .unclosedString fun hquote => ?_
    simpa using List.dropWhile_eq_nil_iff.1 h _ hquote
  | case3 cs contents quote rest h =>
    have hquote : quote = '"' := by
      have hstop := not_head?_dropWhile (fun c => decide (c ≠ '"')) cs
      rw [h] at hstop
      simpa using hstop quote rfl
    subst hquote
    refine .string fun hmem => ?_
    simpa using List.mem_takeWhile_imp hmem
  | case4 c cs _ hdigit => exact lexical_readInteger offset .unsigned hdigit
  | case5 c cs _ _ hsign =>
    obtain ⟨rfl | rfl, hdigit⟩ := hsign
    · exact lexical_readInteger offset .plus hdigit
    · exact lexical_readInteger offset .minus hdigit
  | case6 c cs _ _ _ start word =>
    exact lexical_wordLexeme offset start (fun d hd => List.mem_takeWhile_imp hd)
      (not_head?_dropWhile _ cs)
  | case7 c cs _ _ _ _ mark hmark =>
    obtain rfl := Mark.char_of_ofChar? hmark
    exact .mark mark
  | case8 d tail notQuote notDigit notSign notWord notMark =>
    obtain ⟨rfl, rfl⟩ := List.cons.inj htext
    exact .unknownChar ⟨fun heq => notQuote heq, notDigit, notWord,
      Mark.ofChar?_eq_none_iff.1 notMark, notBlank, notHash,
      fun hsign hdigit => notSign ⟨hsign, hdigit⟩, notComment, notByteOrderMark⟩

end Reading

namespace Sign

variable {sign digits rest : List Char} {unit : Int}

theorem exists_cons (signed : Sign sign unit) (decimal : IsDecimal digits) :
    ∃ c cs, sign ++ digits = c :: cs ∧ ¬ Gap.Opens c := by
  cases signed with
  | unsigned =>
    obtain ⟨c, cs, rfl⟩ := List.exists_cons_of_ne_nil decimal.1
    exact ⟨c, cs, rfl, Reading.not_opens_of_isWordPart
      (Reading.isWordPart_of_isDigit (decimal.2 c List.mem_cons_self))⟩
  | plus | minus => exact ⟨_, _, rfl, by decide⟩

/-- A literal is read as its value, or as a fault if it has none. -/
theorem ofChars_eq (signed : Sign sign unit) (decimal : IsDecimal digits)
    (longest : ∀ c ∈ rest.head?, ¬ c.isDigit) :
    Reading.ofChars (sign ++ digits ++ rest) =
      ⟨Reading.integerLexeme (unit * numeral digits), sign ++ digits, rest⟩ := by
  rw [← decimal_eq_numeral]
  cases signed with
  | unsigned =>
    rw [List.nil_append, Reading.ofChars_unsigned decimal,
      Reading.readInteger_append decimal.2 longest, Int.one_mul]
    rfl
  | plus =>
    rw [List.append_assoc, List.singleton_append, Reading.ofChars_signed (.inl rfl) decimal,
      Reading.readInteger_append decimal.2 longest, if_neg (by decide), Int.one_mul]
  | minus =>
    rw [List.append_assoc, List.singleton_append, Reading.ofChars_signed (.inr rfl) decimal,
      Reading.readInteger_append decimal.2 longest, if_pos rfl, Int.neg_one_mul]

end Sign

/-! ### Tokens behind gaps -/

namespace Token

/-- Behind the gap the token is read as the lexical grammar says. -/
theorem exists_lexical (offset : Nat) (cs : List Char) :
    ∃ gap written rest lexeme, cs = gap ++ (written ++ rest) ∧
      Lexical (offset + Text.size gap) written rest lexeme ∧
      read offset cs =
        (⟨lexeme, ⟨offset + Text.size gap, offset + Text.size gap + Text.size written⟩⟩, rest) := by
  obtain ⟨gap, rest, rfl, hgap, hstop, hmark⟩ := Gap.exists_front offset cs
  cases hstop with
  | finish =>
    refine ⟨gap, [], [], .finish, rfl, .finish, ?_⟩
    rw [read, List.append_nil, Gap.read_back (.closed hgap)]
    rfl
  | line h =>
    refine ⟨gap ++ rest, [], [], .finish, by simp, .finish, ?_⟩
    rw [read, Gap.read_back (.line hgap h)]
    rfl
  | @block text h =>
    refine ⟨gap, '/' :: '*' :: text, [], .unclosedComment, by simp, .unclosedComment h, ?_⟩
    rw [read, Gap.read_front hgap, Gap.read_unclosed h]
  | @other c cs hblank hhash hcomment =>
    have hclosed : c = '\uFEFF' → offset + Text.size gap ≠ 0 := fun hc => hmark (congrArg some hc)
    refine ⟨gap, _, _, _, ?_, Reading.lexical_ofChars hblank hhash hcomment hclosed, ?_⟩
    · rw [Reading.written_append_rest]
    · rw [read, Gap.read_front hgap, Gap.read_other hblank hhash hcomment hclosed]

end Token

namespace Lexical

variable {offset : Nat} {written rest : List Char} {lexeme : Lexeme}

/-- Only a comment that is never closed is read as part of the gap. -/
theorem gap_eq (h : Lexical offset written rest lexeme) (hlexeme : lexeme ≠ .unclosedComment) :
    Gap.read .between offset (written ++ rest) = .closed offset (written ++ rest) := by
  have hstart {c : Char} {cs : List Char} (hc : ¬ Gap.Opens c) :
      Gap.read .between offset (c :: cs) = .closed offset (c :: cs) :=
    Gap.read_of_not_opens hc
  cases h with
  | finish => rfl
  | string | unclosedString => exact hstart (by decide)
  | integer signed decimal | integerRange signed decimal =>
    obtain ⟨c, cs, hcs, hc⟩ := signed.exists_cons decimal
    rw [hcs]
    exact hstart hc
  | keyword word longest =>
    obtain ⟨c, cs, hspelling, start, -⟩ := Reading.exists_cons_spelling word
    rw [hspelling]
    exact hstart (Reading.not_opens_of_isWordPart (Reading.isWordPart_of_isWordStart start))
  | identifier start =>
    exact hstart (Reading.not_opens_of_isWordPart (Reading.isWordPart_of_isWordStart start))
  | unclosedComment => exact absurd rfl hlexeme
  | mark mark => exact hstart (by cases mark <;> decide)
  | unknownChar unknown =>
    exact Gap.read_other unknown.notBlank unknown.notHash unknown.notComment
      unknown.notByteOrderMark

theorem ofChars_eq (h : Lexical offset written rest lexeme) (hlexeme : lexeme ≠ .unclosedComment) :
    Reading.ofChars (written ++ rest) = ⟨lexeme, written, rest⟩ := by
  cases h with
  | finish => rfl
  | string unquoted =>
    rw [List.cons_append, List.append_assoc]
    exact Reading.ofChars_string unquoted
  | @unclosedString contents unquoted =>
    have hnone : contents.dropWhile (fun c => decide (c ≠ '"')) = [] :=
      List.dropWhile_eq_nil_iff.2 fun c hc => decide_eq_true fun heq => unquoted (heq ▸ hc)
    rw [List.append_nil, Reading.ofChars, hnone]
  | integer signed decimal longest range =>
    rw [IsInt64] at range
    rw [signed.ofChars_eq decimal longest, Reading.integerLexeme, if_pos (by omega)]
  | integerRange signed decimal longest range =>
    rw [IsInt64] at range
    rw [signed.ofChars_eq decimal longest, Reading.integerLexeme, if_neg (by omega)]
  | keyword word longest =>
    exact Reading.ofChars_writtenAs (.keyword word) longest
  | identifier start parts longest notKeyword =>
    exact Reading.ofChars_writtenAs
      (.identifier start parts (Keyword.ofSpelling?_eq_none_iff.2 notKeyword)) longest
  | unclosedComment => exact absurd rfl hlexeme
  | mark mark => exact Reading.ofChars_mark mark
  | @unknownChar c rest unknown =>
    rw [List.singleton_append, Reading.ofChars.eq_3 _ _ unknown.notQuote, if_neg unknown.notDigit,
      if_neg fun h => unknown.notSign h.1 h.2, if_neg unknown.notWord,
      Mark.ofChar?_eq_none_iff.2 unknown.notMark]

/-- Every reading that the lexical grammar allows is the one that is found. -/
theorem read_eq (h : Lexical offset written rest lexeme) :
    Token.read offset (written ++ rest) =
      (⟨lexeme, ⟨offset, offset + Text.size written⟩⟩, rest) := by
  by_cases hlexeme : lexeme = .unclosedComment
  · subst hlexeme
    cases h with
    | unclosedComment unclosed => rw [List.append_nil, Token.read, Gap.read_unclosed unclosed]
  · rw [Token.read, h.gap_eq hlexeme]
    simp only [h.ofChars_eq hlexeme]

/-- The text has no other reading. -/
theorem unique (h : Lexical offset written rest lexeme) {otherWritten otherRest : List Char}
    {other : Lexeme} (hother : Lexical offset otherWritten otherRest other)
    (htext : otherWritten ++ otherRest = written ++ rest) :
    otherWritten = written ∧ otherRest = rest ∧ other = lexeme := by
  have hread := hother.read_eq
  rw [htext, h.read_eq] at hread
  simp only [Prod.mk.injEq, Token.mk.injEq] at hread
  obtain ⟨⟨rfl, -⟩, rfl⟩ := hread
  exact ⟨List.append_cancel_right htext, rfl, rfl⟩

end Lexical

/-- Every token of a text is what the lexical grammar makes of the text where the token begins. -/
theorem Token.lexical_of_mem_readAll {offset : Nat} {cs : List Char} {token : Token}
    (h : token ∈ readAll offset cs) :
    ∃ before written rest, cs = before ++ (written ++ rest) ∧
      token.span = ⟨offset + Text.size before,
        offset + Text.size before + Text.size written⟩ ∧
      Lexical (offset + Text.size before) written rest token.lexeme := by
  obtain ⟨earlier, later, htokens⟩ := List.append_of_mem h
  obtain ⟨front, tail, rfl, hend, -, hreadAll⟩ := Lexer.after_reading htokens
  rw [hend] at hreadAll
  obtain ⟨gap, written, rest, lexeme, rfl, hlexical, hread⟩ :=
    exists_lexical (offset + Text.size front) tail
  have htoken := (readAll_eq_cons hreadAll).1
  rw [hread] at htoken
  subst htoken
  rw [Nat.add_assoc, ← Text.size_append] at hlexical ⊢
  exact ⟨front ++ gap, written, rest, by rw [List.append_assoc], rfl, hlexical⟩

namespace Lexer

/-- From any place in a text on, the tokens that a lexer hands out are what the lexical grammar,
which leaves no choice, makes of the text where they begin. -/
theorem handsOut_lexical {source : Source} {offset : Nat}
    (h : Text.IsBoundary offset source.chars) :
    ∃ lexer tokens, create? source offset = some lexer ∧ lexer.HandsOut tokens ∧
      ∀ token ∈ tokens, ∃ before written rest, source.chars = before ++ (written ++ rest) ∧
        token.span = ⟨Text.size before, Text.size before + Text.size written⟩ ∧
        Lexical (Text.size before) written rest token.lexeme ∧
        ∀ otherWritten otherRest other, otherWritten ++ otherRest = written ++ rest →
          Lexical (Text.size before) otherWritten otherRest other →
          otherWritten = written ∧ otherRest = rest ∧ other = token.lexeme := by
  obtain ⟨cs, hcs⟩ := Option.isSome_iff_exists.1 h
  refine ⟨reading offset cs, Token.readAll offset cs, create?_eq_some hcs,
    handsOut_reading offset cs, fun token htoken => ?_⟩
  obtain ⟨start, hchars, rfl⟩ := Text.exists_of_drop? hcs
  obtain ⟨before, written, rest, rfl, hspan, hlexical⟩ := Token.lexical_of_mem_readAll htoken
  rw [← Text.size_append] at hspan hlexical
  exact ⟨start ++ before, written, rest, by rw [hchars, List.append_assoc], hspan, hlexical,
    fun _ _ _ htext hother => hlexical.unique hother htext⟩

/-- A text with numbers at both ends of the range, one of them beyond it, and with a name that
begins like a keyword. -/
def lexemesFile : Source :=
  ⟨"lexemes.thrift", "é i32x+0009223372036854775807 -9223372036854775809 \"λ\"/"⟩

/-- The tokens behind the first character. -/
def lexemesTokens : List Token :=
  [⟨.identifier "i32x", ⟨3, 7⟩⟩, ⟨.integer 9223372036854775807, ⟨7, 30⟩⟩,
    ⟨.integerRange, ⟨31, 51⟩⟩, ⟨.string "λ", ⟨52, 56⟩⟩, ⟨.unknownChar '/', ⟨56, 57⟩⟩,
    ⟨.finish, ⟨57, 57⟩⟩]

theorem handsOut_lexical_lexemesFile :
    Text.IsBoundary 2 lexemesFile.chars ∧
      ∃ lexer, create? lexemesFile 2 = some lexer ∧ lexer.HandsOut lexemesTokens ∧
        ∀ token ∈ lexemesTokens, ∃ before written rest,
          lexemesFile.chars = before ++ (written ++ rest) ∧
          token.span = ⟨Text.size before, Text.size before + Text.size written⟩ ∧
          Lexical (Text.size before) written rest token.lexeme ∧
          ∀ otherWritten otherRest other, otherWritten ++ otherRest = written ++ rest →
            Lexical (Text.size before) otherWritten otherRest other →
            otherWritten = written ∧ otherRest = rest ∧ other = token.lexeme := by
  have hstart : Text.IsBoundary 2 lexemesFile.chars := by decide
  obtain ⟨lexer, tokens, hcreate, hout, htokens⟩ := handsOut_lexical hstart
  have hcs : Text.drop? 2 lexemesFile.chars = some (lexemesFile.chars.drop 1) := by decide
  have hread : Token.readAll 2 (lexemesFile.chars.drop 1) = lexemesTokens := by decide +kernel
  obtain rfl : tokens = lexemesTokens := hout.unique (hread ▸ handsOut_of_create? hcreate hcs)
  exact ⟨hstart, lexer, hcreate, hout, htokens⟩

end Lexer
end Idl
