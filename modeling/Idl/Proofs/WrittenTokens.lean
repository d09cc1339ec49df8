import Idl.Proofs.Gaps
import Mathlib.Algebra.Group.Int.Defs
import Mathlib.Algebra.Group.Nat.Defs

/-!
# Ways to write lexemes

What may be written for a lexeme: the spelling of a keyword, mark or identifier, a string between
quotes, a number in decimal with or without a sign. The lexeme is read back from it.
-/
namespace Idl

/-- A decimal number. -/
def IsDecimal (digits : List Char) : Prop :=
  digits ≠ [] ∧ ∀ c ∈ digits, c.isDigit

-- the digits are gone through, and not all characters there are
instance (digits : List Char) : Decidable (IsDecimal digits) :=
  decidable_of_iff (digits ≠ [] ∧ digits.all Char.isDigit = true)
    (and_congr_right fun _ => List.all_eq_true)

theorem isDecimal_toDigits (n : Nat) : IsDecimal (Nat.toDigits 10 n) :=
  ⟨Nat.toDigits_ne_nil, fun _ => Nat.isDigit_of_mem_toDigits (by decide) (by decide)⟩

theorem notMem_toDigits {c : Char} (h : ¬ c.isDigit) (n : Nat) : c ∉ Nat.toDigits 10 n :=
  fun hmem => h ((isDecimal_toDigits n).2 c hmem)

theorem decimal_toDigits (n : Nat) : Reading.decimal (Nat.toDigits 10 n) = n :=
  Nat.ofDigitChars_ten_toDigits

theorem toList_toString (n : Nat) : (toString n).toList = Nat.toDigits 10 n := by
  rw [Nat.toString_eq_ofList_toDigits, String.toList_ofList]

theorem notMem_toString {c : Char} (h : ¬ c.isDigit) (n : Nat) : c ∉ (toString n).toList :=
  toList_toString n ▸ notMem_toDigits h n

/-- A number is read back from its text. -/
theorem decimal_toString (n : Nat) : Reading.decimal (toString n).toList = n := by
  rw [toList_toString, decimal_toDigits]

/-- The ways to write a lexeme. -/
inductive Lexeme.WrittenAs : Lexeme → List Char → Prop
  | keyword (word : Keyword) : WrittenAs (.keyword word) word.spelling.toList
  | identifier {c cs} (start : Reading.isWordStart c) (parts : ∀ d ∈ cs, Reading.isWordPart d)
      (notKeyword : Keyword.ofSpelling? (String.ofList (c :: cs)) = none) :
      WrittenAs (.identifier (String.ofList (c :: cs))) (c :: cs)
  | mark (mark : Mark) : WrittenAs (.mark mark) [mark.char]
  | string {contents} (unquoted : '"' ∉ contents) :
      WrittenAs (.string (String.ofList contents)) ('"' :: (contents ++ ['"']))
  | unsigned {digits} (decimal : IsDecimal digits) (range : Reading.decimal digits < 2 ^ 63) :
      WrittenAs (.integer (Reading.decimal digits)) digits
  | positive {digits} (decimal : IsDecimal digits) (range : Reading.decimal digits < 2 ^ 63) :
      WrittenAs (.integer (Reading.decimal digits)) ('+' :: digits)
  | negative {digits} (decimal : IsDecimal digits) (range : Reading.decimal digits ≤ 2 ^ 63) :
      WrittenAs (.integer (-Reading.decimal digits)) ('-' :: digits)

namespace Lexeme.WrittenAs

/-- Every number of 64 bits can be written without leading zeros. -/
theorem integer {value : Int} (lower : -2 ^ 63 ≤ value) (upper : value < 2 ^ 63) :
    WrittenAs (.integer value) (toString value).toList := by
  rcases Int.eq_nat_or_neg value with ⟨n, rfl | rfl⟩
  · have hwritten := unsigned (isDecimal_toDigits n) (by rw [decimal_toDigits]; omega)
    rw [decimal_toDigits] at hwritten
    change WrittenAs _ (toString n).toList
    rwa [toList_toString]
  · cases n with
    | zero => exact unsigned (isDecimal_toDigits 0) (by decide)
    | succ n =>
      have hwritten := negative (isDecimal_toDigits (n + 1)) (by rw [decimal_toDigits]; omega)
      rw [decimal_toDigits] at hwritten
      change WrittenAs _ ("-" ++ toString (n + 1)).toList
      rw [String.toList_append, toList_toString]
      exact hwritten

theorem ne_finish {lexeme : Lexeme} {written : List Char} (h : lexeme.WrittenAs written) :
    lexeme ≠ .finish := by
  rintro rfl
  cases h

end Lexeme.WrittenAs

/-! ### Reading what is written -/

namespace Reading

variable {cs rest : List Char}

/-- The text does not go on with a character of a word. -/
def Apart (rest : List Char) : Prop :=
  ∀ c ∈ rest.head?, ¬ isWordPart c

theorem takeWhile_append_of_stop {p : Char → Bool} (h : ∀ c ∈ cs, p c)
    (hrest : ∀ c ∈ rest.head?, ¬ p c) :
    (cs ++ rest).takeWhile p = cs ∧ (cs ++ rest).dropWhile p = rest := by
  rw [List.takeWhile_append_of_pos h, List.dropWhile_append_of_pos h]
  cases rest with
  | nil => simp
  | cons c rest => simp [hrest c rfl]

/-- The text up to the first occurrence of a character. -/
theorem takeWhile_append_of_notMem {stop : Char} (h : stop ∉ cs)
    (hrest : ∀ c ∈ rest.head?, c = stop) :
    (cs ++ rest).takeWhile (· ≠ stop) = cs ∧ (cs ++ rest).dropWhile (· ≠ stop) = rest := by
  apply takeWhile_append_of_stop
  · intro c hc
    exact decide_eq_true (ne_of_mem_of_not_mem hc h)
  · intro c hc
    simp [hrest c hc]

theorem isWordPart_of_isDigit {c : Char} (h : c.isDigit) : isWordPart c := by
  simp [isWordPart, Char.isAlphanum, h]

theorem toNat_of_isWordStart {c : Char} (h : isWordStart c) :
    c = '_' ∨ (65 ≤ c.toNat ∧ c.toNat ≤ 90) ∨ (97 ≤ c.toNat ∧ c.toNat ≤ 122) := by
  obtain hscore | hletter := Bool.or_eq_true_iff.1 h
  · exact .inl (eq_of_beq hscore)
  · obtain hupper | hlower := Bool.or_eq_true_iff.1 hletter
    · exact .inr (.inl (of_decide_eq_true hupper))
    · obtain ⟨hleft, hright⟩ := Bool.and_eq_true_iff.1 hlower
      exact .inr (.inr ⟨of_decide_eq_true hleft, of_decide_eq_true hright⟩)

theorem not_isDigit_of_isWordStart {c : Char} (h : isWordStart c) : ¬ c.isDigit := by
  have hdigits : '0'.toNat = 48 ∧ '9'.toNat = 57 := by decide
  rw [Char.isDigit_iff_toNat]
  obtain rfl | hletter := toNat_of_isWordStart h
  · decide
  · omega

theorem Apart.not_isDigit (hrest : Apart rest) : ∀ c ∈ rest.head?, ¬ c.isDigit :=
  fun c hc hdigit => hrest c hc (isWordPart_of_isDigit hdigit)

theorem readInteger_append {sign digits : List Char} (h : ∀ c ∈ digits, c.isDigit)
    (hrest : ∀ c ∈ rest.head?, ¬ c.isDigit) :
    readInteger sign (digits ++ rest) =
      ⟨integerLexeme (if sign = ['-'] then -decimal digits else decimal digits), sign ++ digits,
        rest⟩ := by
  obtain ⟨htake, hdrop⟩ := takeWhile_append_of_stop h hrest
  rw [readInteger, htake, hdrop]

theorem ofChars_word {c : Char} (start : isWordStart c) (parts : ∀ d ∈ cs, isWordPart d)
    (hrest : Apart rest) :
    ofChars (c :: cs ++ rest) = ⟨wordLexeme (String.ofList (c :: cs)), c :: cs, rest⟩ := by
  obtain ⟨htake, hdrop⟩ := takeWhile_append_of_stop parts hrest
  have hquote : c ≠ '"' := by rintro rfl; cases start
  have hdigit := not_isDigit_of_isWordStart start
  have hsign : ¬ ((c = '+' ∨ c = '-') ∧ (cs ++ rest).head?.any Char.isDigit) := by
    rintro ⟨rfl | rfl, -⟩ <;> cases start
  rw [List.cons_append, ofChars.eq_3 _ _ hquote, if_neg hdigit, if_neg hsign, if_pos start,
    htake, hdrop]

theorem exists_cons_spelling (word : Keyword) : ∃ c cs, word.spelling.toList = c :: cs ∧
    isWordStart c ∧ ∀ d ∈ cs, isWordPart d := by
  cases word <;> exact ⟨_, _, rfl, by decide, List.all_eq_true.1 (by decide)⟩

theorem ofChars_unsigned {digits : List Char} (h : IsDecimal digits) :
    ofChars (digits ++ rest) = readInteger [] (digits ++ rest) := by
  obtain ⟨d, digits, rfl⟩ := List.exists_cons_of_ne_nil h.1
  have hdigit := h.2 d List.mem_cons_self
  have hquote : d ≠ '"' := by rintro rfl; cases hdigit
  rw [List.cons_append, ofChars.eq_3 _ _ hquote, if_pos hdigit]

theorem ofChars_signed {sign : Char} {digits : List Char} (hsign : sign = '+' ∨ sign = '-')
    (h : IsDecimal digits) :
    ofChars (sign :: (digits ++ rest)) = readInteger [sign] (digits ++ rest) := by
  obtain ⟨d, digits, rfl⟩ := List.exists_cons_of_ne_nil h.1
  have hany : ((d :: digits) ++ rest).head?.any Char.isDigit := h.2 d List.mem_cons_self
  have hquote : sign ≠ '"' := by rintro rfl; simp at hsign
  have hdigit : ¬ sign.isDigit := by rcases hsign with rfl | rfl <;> decide
  rw [ofChars.eq_3 _ _ hquote, if_neg hdigit, if_pos ⟨hsign, hany⟩]

theorem ofChars_string {contents : List Char} (h : '"' ∉ contents) :
    ofChars ('"' :: (contents ++ '"' :: rest)) =
      ⟨.string (String.ofList contents), '"' :: (contents ++ ['"']), rest⟩ := by
  have hstop : ∀ c ∈ ('"' :: rest).head?, c = '"' := by simp
  obtain ⟨htake, hdrop⟩ := takeWhile_append_of_notMem h hstop
  rw [ofChars.eq_2, htake, hdrop]
  rfl

theorem ofChars_mark (mark : Mark) :
    ofChars (mark.char :: rest) = ⟨.mark mark, [mark.char], rest⟩ := by
  cases mark <;> rfl

/-- A lexeme is read back from what is written for it, if no word goes on behind it. -/
theorem ofChars_writtenAs {lexeme : Lexeme} {written : List Char} (h : lexeme.WrittenAs written)
    (hrest : Apart rest) : ofChars (written ++ rest) = ⟨lexeme, written, rest⟩ := by
  cases h with
  | keyword word =>
    obtain ⟨c, cs, hspelling, start, parts⟩ := exists_cons_spelling word
    rw [hspelling, ofChars_word start parts hrest, ← hspelling, String.ofList_toList, wordLexeme,
      Keyword.ofSpelling?_spelling]
  | identifier start parts notKeyword =>
    rw [ofChars_word start parts hrest, wordLexeme, notKeyword]
  | mark mark => exact ofChars_mark mark
  | string unquoted =>
    rw [List.cons_append, List.append_assoc]
    exact ofChars_string unquoted
  | unsigned decimal range =>
    rw [ofChars_unsigned decimal, readInteger_append decimal.2 hrest.not_isDigit, if_neg (by simp),
      integerLexeme, if_pos (by omega)]
    rfl
  | positive decimal range =>
    rw [List.cons_append, ofChars_signed (.inl rfl) decimal,
      readInteger_append decimal.2 hrest.not_isDigit, if_neg (by decide), integerLexeme,
      if_pos (by omega)]
    rfl
  | negative decimal range =>
    rw [List.cons_append, ofChars_signed (.inr rfl) decimal,
      readInteger_append decimal.2 hrest.not_isDigit, if_pos rfl, integerLexeme, if_pos (by omega)]
    rfl

theorem not_opens_of_isWordPart {c : Char} (h : isWordPart c) : ¬ Gap.Opens c :=
  fun hopens => hopens.not_isWordPart h

/-- What is written for a lexeme does not belong to the gap in front of it. -/
theorem exists_cons_writtenAs {lexeme : Lexeme} {written : List Char}
    (h : lexeme.WrittenAs written) : ∃ c cs, written = c :: cs ∧ ¬ Gap.Opens c := by
  cases h with
  | keyword word =>
    obtain ⟨c, cs, hspelling, start, -⟩ := exists_cons_spelling word
    exact ⟨c, cs, hspelling, not_opens_of_isWordPart (isWordPart_of_isWordStart start)⟩
  | identifier start =>
    exact ⟨_, _, rfl, not_opens_of_isWordPart (isWordPart_of_isWordStart start)⟩
  | mark mark => exact ⟨_, _, rfl, by cases mark <;> decide⟩
  | string => exact ⟨_, _, rfl, by decide⟩
  | unsigned decimal =>
    obtain ⟨c, cs, rfl⟩ := List.exists_cons_of_ne_nil decimal.1
    exact ⟨c, cs, rfl, not_opens_of_isWordPart
      (isWordPart_of_isDigit (decimal.2 c List.mem_cons_self))⟩
  | positive => exact ⟨_, _, rfl, by decide⟩
  | negative => exact ⟨_, _, rfl, by decide⟩

end Reading

end Idl
