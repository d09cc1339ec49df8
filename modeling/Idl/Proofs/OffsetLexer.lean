import Idl.Proofs.LexicalGrammar

/-!
# Reading tokens by offsets

The lexer once more, going through a text by offsets. It gives up where it would cut the text inside
a character, and where a round would not come any further in it. It never does, and reads the tokens
of the text.
-/
namespace Idl

/-- Number of bytes in front of the first place where a block comment is closed. -/
def Text.findClose? : List Char → Option Nat
  | [] => none
  | '*' :: '/' :: _ => some 0
  | c :: cs => (findClose? cs).map (c.utf8Size + ·)

/-- The number that an optional sign and digits stand for. -/
def Reading.literalValue : List Char → Int
  | '-' :: digits => -decimal digits
  | '+' :: digits => decimal digits
  | digits => decimal digits

namespace Reading

theorem literalValue_of_digits {digits : List Char} (h : ∀ c ∈ digits, c.isDigit) :
    literalValue digits = decimal digits := by
  rw [literalValue.eq_3]
  · rintro digits rfl
    exact absurd (h '-' List.mem_cons_self) (by decide)
  · rintro digits rfl
    exact absurd (h '+' List.mem_cons_self) (by decide)

theorem integerLexeme_literalValue {sign cs : List Char} {unit : Int} (signed : Sign sign unit) :
    integerLexeme (literalValue (sign ++ cs.takeWhile Char.isDigit)) =
      (readInteger sign cs).lexeme := by
  simp only [readInteger]
  congr 1
  cases signed with
  | minus => rw [List.singleton_append, literalValue.eq_1, if_pos rfl]
  | plus => rw [List.singleton_append, literalValue.eq_2, if_neg (by decide)]
  | unsigned =>
    rw [List.nil_append, if_neg (by decide),
      literalValue_of_digits fun c hc => List.mem_takeWhile_imp hc]

/-- Every integer is read back from its text. -/
theorem literalValue_toString (value : Int) : literalValue (toString value).toList = value := by
  cases value with
  | ofNat n =>
    change literalValue (toString n).toList = n
    rw [toList_toString, literalValue_of_digits (isDecimal_toDigits n).2, decimal_toDigits]
  | negSucc n =>
    have htext : (toString (Int.negSucc n)).toList = '-' :: (toString (n + 1)).toList :=
      String.toList_append
    rw [htext, literalValue.eq_1, decimal_toString]
    rfl

theorem utf8Size_of_isWordStart {c : Char} (h : isWordStart c) : c.utf8Size = 1 := by
  rw [Char.utf8Size_eq_one_iff, UInt32.le_iff_toNat_le]
  obtain rfl | hletter := toNat_of_isWordStart h
  · decide
  · change c.toNat ≤ 127
    omega

end Reading

namespace Source

variable (source : Source)

/-- What comes behind blanks. -/
inductive GapEnd where
  /-- A token, or the end of the text. -/
  | here
  /-- A comment or byte order mark, up to an offset. -/
  | goOn (offset : Nat)
  | unclosed (span : Span)

def gapEnd? (offset : Nat) : Option GapEnd :=
  (Text.drop? offset source.chars).bind fun rest =>
    match rest with
    | '/' :: '/' :: _ => (source.scanWhile? offset (· ≠ '\n')).map .goOn
    | '#' :: _ => (source.scanWhile? offset (· ≠ '\n')).map .goOn
    | '/' :: '*' :: text =>
      match Text.findClose? text with
      | some length => some (.goOn (offset + 2 + length + 2))
      | none => some (.unclosed ⟨offset, source.size⟩)
    | c :: _ => some (if c = '\uFEFF' ∧ offset = 0 then .goOn c.utf8Size else .here)
    | [] => some .here

/-- Where the token behind a gap starts, or the span of a comment that is not closed. -/
def skipGap? (offset : Nat) : Option (Except Span Nat) :=
  match source.scanWhile? offset Gap.isBlank with
  | none => none
  | some stop =>
    match source.gapEnd? stop with
    | none => none
    | some .here => some (.ok stop)
    | some (.unclosed span) => some (.error span)
    | some (.goOn next) =>
      if offset < next ∧ next ≤ source.size then skipGap? next else none
termination_by source.size - offset

def scanInteger? (start digits : Nat) : Option Token := do
  let stop ← source.scanWhile? digits Char.isDigit
  let text ← source.slice? ⟨start, stop⟩
  return ⟨Reading.integerLexeme (Reading.literalValue text.toList), ⟨start, stop⟩⟩

def scanWord? (start : Nat) : Option Token := do
  let stop ← source.scanWhile? (start + 1) Reading.isWordPart
  let word ← source.slice? ⟨start, stop⟩
  return ⟨Reading.wordLexeme word, ⟨start, stop⟩⟩

def scanString? (start : Nat) : Option Token := do
  let stop ← source.scanWhile? (start + 1) (· ≠ '"')
  if source.peek? stop = some '"' then
    let contents ← source.slice? ⟨start + 1, stop⟩
    return ⟨.string contents, ⟨start, stop + 1⟩⟩
  return ⟨.unclosedString, ⟨start, stop⟩⟩

/-- The token that starts at the offset. -/
def scanToken? (start : Nat) : Option Token :=
  match source.peek? start with
  | none => some ⟨.finish, ⟨start, start⟩⟩
  | some c =>
    if c = '"' then source.scanString? start
    else if c.isDigit then source.scanInteger? start start
    else if (c = '+' ∨ c = '-') ∧ (source.peek? (start + 1)).any Char.isDigit then
      source.scanInteger? start (start + 1)
    else if Reading.isWordStart c then source.scanWord? start
    else
      let lexeme := match Mark.ofChar? c with
        | some mark => .mark mark
        | none => .unknownChar c
      some ⟨lexeme, ⟨start, start + c.utf8Size⟩⟩

/-- The next token from the offset on. -/
def readToken? (offset : Nat) : Option Token :=
  (source.skipGap? offset).bind fun
    | .ok start => source.scanToken? start
    | .error span => some ⟨.unclosedComment, span⟩

/-- The tokens from the offset on. -/
def readTokens? (offset : Nat) : Option (List Token) :=
  match source.readToken? offset with
  | none => none
  | some token =>
    if token.lexeme = .finish then some [token]
    else if offset < token.span.stop ∧ token.span.stop ≤ source.size then
      (readTokens? token.span.stop).map (token :: ·)
    else none
termination_by source.size - offset

/-! ### Going through the text -/

variable {source} {before cs rest : List Char}

theorem scanWhile?_eq (h : source.chars = before ++ cs) (p : Char → Bool) :
    source.scanWhile? (Text.size before) p =
      some (Text.size before + Text.size (cs.takeWhile p)) := by
  rw [scanWhile?, h, Text.drop?_size]
  rfl

theorem peek?_eq (h : source.chars = before ++ cs) :
    source.peek? (Text.size before) = cs.head? := by
  rw [peek?, h, Text.drop?_size]
  rfl

theorem slice?_eq (h : source.chars = before ++ (cs ++ rest)) :
    source.slice? ⟨Text.size before, Text.size before + Text.size cs⟩ =
      some (String.ofList cs) := by
  rw [slice?, h, Text.slice?_size]
  rfl

/-- Behind a first character of one byte. -/
theorem chars_eq_of_cons {c : Char} (h : source.chars = before ++ c :: cs) (hc : c.utf8Size = 1) :
    source.chars = (before ++ [c]) ++ cs ∧ Text.size before + 1 = Text.size (before ++ [c]) :=
  ⟨by rw [h, List.append_assoc, List.singleton_append],
    by rw [Text.size_append, Text.size_cons, Text.size_nil, hc]⟩

theorem scanInteger?_eq {sign : List Char} {unit : Int} (signed : Sign sign unit)
    (h : source.chars = before ++ (sign ++ cs)) :
    source.scanInteger? (Text.size before) (Text.size before + Text.size sign) =
      some ⟨(Reading.readInteger sign cs).lexeme, ⟨Text.size before,
        Text.size before + Text.size (Reading.readInteger sign cs).written⟩⟩ := by
  have hdigits : source.scanWhile? (Text.size before + Text.size sign) Char.isDigit =
      some (Text.size before + Text.size (sign ++ cs.takeWhile Char.isDigit)) := by
    rw [← Text.size_append, scanWhile?_eq (by rw [h, List.append_assoc])]
    simp only [Text.size_append, Nat.add_assoc]
  have htext : source.slice? ⟨Text.size before,
      Text.size before + Text.size (sign ++ cs.takeWhile Char.isDigit)⟩ =
        some (String.ofList (sign ++ cs.takeWhile Char.isDigit)) := by
    refine @slice?_eq source before _ (cs.dropWhile Char.isDigit) ?_
    rw [h, List.append_assoc, List.takeWhile_append_dropWhile]
  rw [scanInteger?, hdigits]
  simp only [Option.bind_eq_bind, Option.bind_some, htext, String.toList_ofList,
    Reading.integerLexeme_literalValue signed]
  rfl

theorem scanWord?_eq {c : Char} (h : source.chars = before ++ c :: cs)
    (hc : Reading.isWordStart c) :
    source.scanWord? (Text.size before) =
      some ⟨Reading.wordLexeme (String.ofList (c :: cs.takeWhile Reading.isWordPart)),
        ⟨Text.size before,
          Text.size before + Text.size (c :: cs.takeWhile Reading.isWordPart)⟩⟩ := by
  obtain ⟨hchars, hstart⟩ := chars_eq_of_cons h (Reading.utf8Size_of_isWordStart hc)
  have hstop : source.scanWhile? (Text.size before + 1) Reading.isWordPart =
      some (Text.size before + Text.size (c :: cs.takeWhile Reading.isWordPart)) := by
    rw [hstart, scanWhile?_eq hchars]
    simp only [Text.size_append, Text.size_cons, Text.size_nil, Nat.add_zero, Nat.add_assoc]
  have hword : source.slice? ⟨Text.size before,
      Text.size before + Text.size (c :: cs.takeWhile Reading.isWordPart)⟩ =
        some (String.ofList (c :: cs.takeWhile Reading.isWordPart)) := by
    refine @slice?_eq source before _ (cs.dropWhile Reading.isWordPart) ?_
    rw [h, List.cons_append, List.takeWhile_append_dropWhile]
  rw [scanWord?, hstop]
  simp only [Option.bind_eq_bind, Option.bind_some, hword]
  rfl

theorem scanString?_eq (h : source.chars = before ++ '"' :: cs) :
    source.scanString? (Text.size before) =
      some ⟨(Reading.ofChars ('"' :: cs)).lexeme, ⟨Text.size before,
        Text.size before + Text.size (Reading.ofChars ('"' :: cs)).written⟩⟩ := by
  obtain ⟨hchars, hstart⟩ := chars_eq_of_cons h (by decide)
  have hstop := scanWhile?_eq hchars (fun c => decide (c ≠ '"'))
  have hfound := Reading.not_head?_dropWhile (fun c => decide (c ≠ '"')) cs
  have hsplit := List.takeWhile_append_dropWhile (p := fun c => decide (c ≠ '"')) (l := cs)
  rw [scanString?, Reading.ofChars, hstart, hstop]
  generalize cs.takeWhile (fun c => decide (c ≠ '"')) = contents,
    cs.dropWhile (fun c => decide (c ≠ '"')) = tail at *
  subst hsplit
  have hpeek : source.peek? (Text.size (before ++ ['"'] ++ contents)) = tail.head? :=
    peek?_eq (by simp only [hchars, List.append_assoc])
  rw [Text.size_append] at hpeek
  simp only [Option.bind_eq_bind, Option.bind_some, hpeek]
  have hquote : '"'.utf8Size = 1 := by decide
  cases tail with
  | nil =>
    simp only [List.head?_nil, List.append_nil, Text.size_cons, Text.size_append, Text.size_nil,
      hquote]
    rw [if_neg (by simp)]
    congr 3
    omega
  | cons quote rest =>
    obtain rfl : quote = '"' := by simpa using hfound quote rfl
    rw [List.head?_cons, if_pos rfl, slice?_eq hchars]
    simp only [Option.bind_some, Text.size_cons, Text.size_append, Text.size_nil, hquote]
    congr 3
    omega

/-- The token at an offset is what is read at the front of the text from there on. -/
theorem scanToken?_eq (h : source.chars = before ++ cs) :
    source.scanToken? (Text.size before) =
      some ⟨(Reading.ofChars cs).lexeme, ⟨Text.size before,
        Text.size before + Text.size (Reading.ofChars cs).written⟩⟩ := by
  rw [scanToken?, peek?_eq h]
  cases cs with
  | nil => rfl
  | cons c cs =>
    by_cases hquote : c = '"'
    · subst hquote
      exact scanString?_eq h
    have hchar : ∀ hc : c.utf8Size = 1, source.peek? (Text.size before + 1) = cs.head? := by
      intro hc
      obtain ⟨hchars, hstart⟩ := chars_eq_of_cons h hc
      rw [hstart, peek?_eq hchars]
    simp only [List.head?_cons, if_neg hquote]
    rw [Reading.ofChars.eq_3 _ _ hquote]
    by_cases hdigit : c.isDigit
    · rw [if_pos hdigit, if_pos hdigit]
      exact scanInteger?_eq .unsigned h
    rw [if_neg hdigit, if_neg hdigit]
    by_cases hsign : (c = '+' ∨ c = '-') ∧ cs.head?.any Char.isDigit
    · have hnext : (source.peek? (Text.size before + 1)).any Char.isDigit := by
        rw [hchar (by rcases hsign.1 with rfl | rfl <;> decide)]
        exact hsign.2
      rw [if_pos hsign, if_pos ⟨hsign.1, hnext⟩]
      rcases hsign.1 with rfl | rfl
      · exact scanInteger?_eq .plus h
      · exact scanInteger?_eq .minus h
    have hnext : ¬ ((c = '+' ∨ c = '-') ∧
        (source.peek? (Text.size before + 1)).any Char.isDigit) := by
      rintro ⟨hc, hdigit⟩
      rw [hchar (by rcases hc with rfl | rfl <;> decide)] at hdigit
      exact hsign ⟨hc, hdigit⟩
    rw [if_neg hsign, if_neg hnext]
    by_cases hword : Reading.isWordStart c
    · rw [if_pos hword, if_pos hword]
      exact scanWord?_eq h hword
    rw [if_neg hword, if_neg hword]
    cases Mark.ofChar? c <;> simp

end Source

/-! ### Skipping gaps -/

namespace Text

theorem findClose?_append {text : List Char} (h : ¬ ['*', '/'] <:+: text) (rest : List Char) :
    findClose? (text ++ '*' :: '/' :: rest) = some (size text) := by
  induction text with
  | nil => rfl
  | cons c text ih =>
    rw [List.cons_append, findClose?.eq_3, ih (Gap.not_infix_tail h)]
    · rfl
    · rintro tail rfl htail
      cases text with
      | nil => cases htail
      | cons d text =>
        obtain ⟨rfl, -⟩ := List.cons.inj htail
        exact h ⟨[], text, rfl⟩

theorem findClose?_eq_none {text : List Char} (h : ¬ ['*', '/'] <:+: text) :
    findClose? text = none := by
  induction text with
  | nil => rfl
  | cons c text ih =>
    rw [findClose?.eq_3, ih (Gap.not_infix_tail h)]
    · rfl
    · rintro tail rfl rfl
      exact h ⟨[], tail, rfl⟩

end Text

namespace Source

open Gap

variable {source : Source} {before cs rest : List Char}

/-- Where no blank is next. -/
theorem skipGap?_eq (h : source.chars = before ++ cs) (hhead : ∀ c ∈ cs.head?, ¬ isBlank c) :
    source.skipGap? (Text.size before) =
      match source.gapEnd? (Text.size before) with
      | none => none
      | some .here => some (.ok (Text.size before))
      | some (.unclosed span) => some (.error span)
      | some (.goOn next) =>
        if Text.size before < next ∧ next ≤ source.size then source.skipGap? next else none := by
  have hnone : cs.takeWhile isBlank = [] := by
    cases cs with
    | nil => rfl
    | cons c cs => exact List.takeWhile_cons_of_neg (hhead c rfl)
  rw [skipGap?, scanWhile?_eq h, hnone, Text.size_nil, Nat.add_zero]

theorem skipGap?_of_goOn {piece : List Char} (h : source.chars = before ++ (piece ++ rest))
    (hne : piece ≠ []) (hhead : ∀ c ∈ piece.head?, ¬ isBlank c)
    (hend : source.gapEnd? (Text.size before) = some (.goOn (Text.size (before ++ piece)))) :
    source.skipGap? (Text.size before) = source.skipGap? (Text.size (before ++ piece)) := by
  obtain ⟨c, piece, rfl⟩ := List.exists_cons_of_ne_nil hne
  have hpos := c.utf8Size_pos
  rw [skipGap?_eq h hhead, hend]
  refine if_pos ⟨?_, ?_⟩
  · simp only [Text.size_append, Text.size_cons]
    omega
  · rw [Source.size, h, ← List.append_assoc, Text.size_append (before ++ c :: piece)]
    exact Nat.le_add_right _ _

theorem skipGap?_blank {c : Char} {result : Except Span Nat} (h : source.chars = before ++ c :: cs)
    (hc : isBlank c) (hresult : source.skipGap? (Text.size (before ++ [c])) = some result) :
    source.skipGap? (Text.size before) = some result := by
  have hchars : source.chars = (before ++ [c]) ++ cs := by rw [h, List.append_assoc]; rfl
  have hstop : Text.size before + Text.size ((c :: cs).takeWhile isBlank) =
      Text.size (before ++ [c]) + Text.size (cs.takeWhile isBlank) := by
    rw [List.takeWhile_cons_of_pos hc]
    simp only [Text.size_append, Text.size_cons, Text.size_nil]
    omega
  have hpos := c.utf8Size_pos
  rw [skipGap?, scanWhile?_eq hchars] at hresult
  rw [skipGap?, scanWhile?_eq h, hstop]
  simp only at hresult ⊢
  -- both skip to the same place, and what is behind it decides
  generalize source.gapEnd? (Text.size (before ++ [c]) + Text.size (cs.takeWhile isBlank)) = found
    at hresult ⊢
  cases found with
  | none => exact hresult
  | some found =>
    cases found with
    | here => exact hresult
    | unclosed => exact hresult
    | goOn next =>
      simp only at hresult ⊢
      split at hresult
      · next hnext =>
        rw [Text.size_append, Text.size_cons] at hnext
        rwa [if_pos ⟨by omega, hnext.2⟩]
      · cases hresult

theorem gapEnd?_line {comment : List Char} (h : source.chars = before ++ (comment ++ rest))
    (hcomment : LineComment comment) (hrest : ∀ c ∈ rest.head?, c = '\n') :
    source.gapEnd? (Text.size before) = some (.goOn (Text.size (before ++ comment))) := by
  have hline : '\n' ∉ comment := by
    intro hc
    cases hcomment with
    | slashes sameLine | hash sameLine => exact sameLine (by simpa using hc)
  have hscan : (source.scanWhile? (Text.size before) (· ≠ '\n')).map GapEnd.goOn =
      some (.goOn (Text.size (before ++ comment))) := by
    rw [scanWhile?_eq h, (Reading.takeWhile_append_of_notMem hline hrest).1, Text.size_append]
    rfl
  rw [gapEnd?, h, Text.drop?_size]
  cases hcomment <;> exact hscan

theorem skipGap?_lineComment {comment : List Char} (h : source.chars = before ++ (comment ++ rest))
    (hcomment : LineComment comment) (hrest : ∀ c ∈ rest.head?, c = '\n') :
    source.skipGap? (Text.size before) = source.skipGap? (Text.size (before ++ comment)) := by
  refine skipGap?_of_goOn h ?_ ?_ (gapEnd?_line h hcomment hrest)
  · cases hcomment <;> simp
  · cases hcomment <;> simp [isBlank]

theorem gapEnd?_block {text : List Char} (h : source.chars = before ++ ('/' :: '*' :: text)) :
    source.gapEnd? (Text.size before) =
      match Text.findClose? text with
      | some length => some (.goOn (Text.size before + 2 + length + 2))
      | none => some (.unclosed ⟨Text.size before, source.size⟩) := by
  rw [gapEnd?, h, Text.drop?_size]
  rfl

theorem skipGap?_piece {piece : List Char} (hpiece : Piece piece) {result : Except Span Nat}
    (h : source.chars = before ++ (piece ++ rest))
    (hresult : source.skipGap? (Text.size (before ++ piece)) = some result) :
    source.skipGap? (Text.size before) = some result := by
  cases hpiece with
  | blank hc => exact skipGap?_blank h hc hresult
  | @line comment hcomment =>
    rw [List.append_assoc, List.singleton_append] at h
    rw [← List.append_assoc] at hresult
    rw [skipGap?_lineComment h hcomment (by simp)]
    exact skipGap?_blank (by rw [h, List.append_assoc]) (by decide) hresult
  | @block text hclose =>
    have hend : source.gapEnd? (Text.size before) =
        some (.goOn (Text.size (before ++ '/' :: '*' :: (text ++ ['*', '/'])))) := by
      have hsizes : '/'.utf8Size = 1 ∧ '*'.utf8Size = 1 := by decide
      rw [List.cons_append, List.cons_append, List.append_assoc] at h
      rw [gapEnd?_block h, List.cons_append, List.cons_append, List.nil_append,
        Text.findClose?_append hclose]
      simp only [Text.size_append, Text.size_cons, Text.size_nil, hsizes]
      congr 2
      omega
    rwa [skipGap?_of_goOn h (by simp) (by simp [isBlank]) hend]

theorem skipGap?_filler {gap : List Char} (hgap : Filler gap) {result : Except Span Nat}
    (h : source.chars = before ++ (gap ++ rest))
    (hresult : source.skipGap? (Text.size (before ++ gap)) = some result) :
    source.skipGap? (Text.size before) = some result := by
  induction hgap generalizing before with
  | nil => rwa [List.append_nil] at hresult
  | cons head _ ih =>
    rw [List.append_assoc] at h
    refine skipGap?_piece head h (ih (by rw [h, List.append_assoc]) ?_)
    rwa [List.append_assoc]

theorem skipGap?_nil (h : source.chars = before) :
    source.skipGap? (Text.size before) = some (.ok (Text.size before)) := by
  have h : source.chars = before ++ [] := by rw [h, List.append_nil]
  rw [skipGap?_eq h (by simp), gapEnd?, h, Text.drop?_size]
  rfl

theorem gapEnd?_here {c : Char} (h : source.chars = before ++ c :: cs) (hhash : c ≠ '#')
    (hcomment : c = '/' → cs.head? ≠ some '/' ∧ cs.head? ≠ some '*')
    (hmark : c = '\uFEFF' → Text.size before ≠ 0) :
    source.gapEnd? (Text.size before) = some .here := by
  rw [gapEnd?, h, Text.drop?_size, Option.bind_some]
  split
  · next heq =>
    obtain ⟨rfl, rfl⟩ := List.cons.inj heq
    exact absurd rfl (hcomment rfl).1
  · next heq => exact absurd (List.cons.inj heq).1 hhash
  · next heq =>
    obtain ⟨rfl, rfl⟩ := List.cons.inj heq
    exact absurd rfl (hcomment rfl).2
  · next heq =>
    obtain ⟨rfl, rfl⟩ := List.cons.inj heq
    rw [if_neg fun hc => hmark hc.1 hc.2]
  · rfl

theorem skipGap?_front {gap : List Char} (hgap : Front (Text.size before) gap)
    {result : Except Span Nat} (h : source.chars = before ++ (gap ++ rest))
    (hresult : source.skipGap? (Text.size (before ++ gap)) = some result) :
    source.skipGap? (Text.size before) = some result := by
  cases hgap with
  | filler hgap => exact skipGap?_filler hgap h hresult
  | @marked gap start hgap =>
    have hend : source.gapEnd? (Text.size before) =
        some (.goOn (Text.size (before ++ ['\uFEFF']))) := by
      rw [gapEnd?, h, Text.drop?_size, Text.size_append, start]
      rfl
    have hchars : source.chars = before ++ ['\uFEFF'] ++ (gap ++ rest) := by
      rw [h, List.append_assoc]
      rfl
    have hpiece : source.chars = before ++ (['\uFEFF'] ++ (gap ++ rest)) := h
    rw [skipGap?_of_goOn hpiece (by simp) (by simp [isBlank]) hend]
    refine skipGap?_filler hgap hchars ?_
    rwa [List.append_assoc, List.singleton_append]

/-- A gap is skipped as it is read. -/
theorem skipGap?_spec (h : source.chars = before ++ cs) :
    source.skipGap? (Text.size before) =
      match Gap.read .between (Text.size before) cs with
      | .closed stop _ => some (.ok stop)
      | .unclosed opened stop => some (.error ⟨opened, stop⟩) := by
  obtain ⟨gap, rest, rfl, hgap, hstop, hmark⟩ := exists_front (Text.size before) cs
  have hchars : source.chars = before ++ gap ++ rest := by rw [h, List.append_assoc]
  have hsize : source.size = Text.size (before ++ gap) + Text.size rest := by
    rw [Source.size, hchars, Text.size_append]
  rw [read_front hgap, ← Text.size_append]
  rw [← Text.size_append] at hmark
  cases hstop with
  | finish => exact skipGap?_front hgap h (skipGap?_nil (by rw [hchars, List.append_nil]))
  | line hcomment =>
    rw [read_lineComment hcomment, ← Text.size_append]
    refine skipGap?_front hgap h ?_
    rw [skipGap?_lineComment (by rw [hchars, List.append_nil]) hcomment (by simp)]
    exact skipGap?_nil hchars
  | @block text hclose =>
    rw [read_unclosed hclose, ← hsize]
    refine skipGap?_front hgap h ?_
    rw [skipGap?_eq hchars (by simp [isBlank]), gapEnd?_block hchars,
      Text.findClose?_eq_none hclose]
  | @other c rest hblank hhash hcomment =>
    have hclosed : c = '\uFEFF' → Text.size (before ++ gap) ≠ 0 := fun hc =>
      hmark (congrArg some hc)
    have hhead : ∀ d ∈ (c :: rest).head?, ¬ isBlank d := fun d hd => Option.some.inj hd ▸ hblank
    rw [read_other hblank hhash hcomment hclosed]
    refine skipGap?_front hgap h ?_
    rw [skipGap?_eq hchars hhead, gapEnd?_here hchars hhash hcomment hclosed]

/-! ### Reading tokens -/

theorem readToken?_eq (h : source.chars = before ++ cs) :
    source.readToken? (Text.size before) = some (Token.read (Text.size before) cs).1 := by
  rw [readToken?, skipGap?_spec h, Token.read]
  cases hread : Gap.read .between (Text.size before) cs with
  | unclosed opened stop => rfl
  | closed stop rest =>
    obtain ⟨gap, rfl, rfl⟩ := Gap.exists_of_read_closed hread
    rw [← Text.size_append]
    exact scanToken?_eq (by rw [h, List.append_assoc])

theorem readTokens?_eq (h : source.chars = before ++ cs) :
    source.readTokens? (Text.size before) = some (Token.readAll (Text.size before) cs) := by
  induction hn : cs.length using Nat.strongRecOn generalizing before cs with
  | ind n ih =>
    rw [readTokens?, readToken?_eq h]
    by_cases hfinish : (Token.read (Text.size before) cs).1.lexeme = .finish
    · rw [Token.readAll_of_finish hfinish]
      exact if_pos hfinish
    obtain ⟨gap, written, hcs, hspan, hwritten⟩ := Token.exists_of_read (Text.size before) cs
    have hchars : source.chars =
        before ++ gap ++ written ++ (Token.read (Text.size before) cs).2 := by
      simp only [List.append_assoc, ← hcs, h]
    have hstop : (Token.read (Text.size before) cs).1.span.stop =
        Text.size (before ++ gap ++ written) := by
      rw [hspan]
      simp only [Text.size_append]
    have hfurther : Text.size before < Text.size (before ++ gap ++ written) := by
      obtain ⟨c, written, rfl⟩ := List.exists_cons_of_ne_nil (hwritten hfinish)
      have hpos := c.utf8Size_pos
      simp only [Text.size_append, Text.size_cons]
      omega
    have hwithin : Text.size (before ++ gap ++ written) ≤ source.size := by
      rw [Source.size, hchars, Text.size_append (before ++ gap ++ written)]
      exact Nat.le_add_right _ _
    rw [Token.readAll_of_ne_finish hfinish]
    simp only [if_neg hfinish, hstop]
    rw [if_pos ⟨hfurther, hwithin⟩, ih _ (hn ▸ Token.read_length hfinish) hchars rfl]
    rfl

/-- Going through a text by offsets comes to the end of it and reads its tokens. -/
theorem readTokens?_eq_tokens (source : Source) : source.readTokens? 0 = some source.tokens :=
  @readTokens?_eq source [] source.chars rfl

end Source
end Idl
