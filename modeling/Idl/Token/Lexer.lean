import Idl.Token

/-!
# Reading tokens

Tokens are separated by gaps: white space, line comments, block comments, and a byte order mark
at the very start. After a gap the longest token that starts there is read. A lexer holds one
current token and the text after it; the token stream always ends with exactly one `finish`.
-/
namespace Idl

/-- The gap in front of a token, read up to the token or, if a block comment is never closed, up
to the end of the text. -/
inductive Gap where
  | closed (offset : Nat) (rest : List Char)
  | unclosed (opened stop : Nat)

namespace Gap

/-- What the reader of a gap is inside of. -/
inductive Region where
  | between
  | line
  | block (opened : Nat)

def isBlank (c : Char) : Bool :=
  c == ' ' || c == '\t' || c == '\r' || c == '\n'

/-- Reads a gap at the given offset. -/
def read : Region → Nat → List Char → Gap
  | .between, offset, [] => .closed offset []
  | .between, offset, '/' :: '/' :: rest => read .line (offset + 2) rest
  | .between, offset, '/' :: '*' :: rest => read (.block offset) (offset + 2) rest
  | .between, offset, c :: rest =>
    if isBlank c then read .between (offset + 1) rest
    else if c = '#' then read .line (offset + 1) rest
    else if c = '\uFEFF' ∧ offset = 0 then read .between (offset + c.utf8Size) rest
    else .closed offset (c :: rest)
  | .line, offset, [] => .closed offset []
  | .line, offset, c :: rest =>
    read (if c = '\n' then .between else .line) (offset + c.utf8Size) rest
  | .block opened, offset, [] => .unclosed opened offset
  | .block _, offset, '*' :: '/' :: rest => read .between (offset + 2) rest
  | .block opened, offset, c :: rest => read (.block opened) (offset + c.utf8Size) rest

theorem read_closed_length {region : Region} {offset stop : Nat} {cs rest : List Char}
    (h : read region offset cs = .closed stop rest) : rest.length ≤ cs.length := by
  fun_induction read region offset cs <;> grind

end Gap

/-- A lexeme, the characters it was written with and those after it. -/
structure Reading where
  lexeme : Lexeme
  written : List Char
  rest : List Char

namespace Reading

def isWordStart (c : Char) : Bool :=
  c == '_' || c.isAlpha

def isWordPart (c : Char) : Bool :=
  c == '_' || c.isAlphanum

/-- The number that a run of decimal digits stands for. -/
def decimal (digits : List Char) : Nat :=
  digits.foldl (fun n c => 10 * n + (c.toNat - '0'.toNat)) 0

/-- Literals are signed 64-bit numbers; one outside that range is a fault. -/
def integerLexeme (value : Int) : Lexeme :=
  if -0x8000000000000000 ≤ value ∧ value < 0x8000000000000000 then .integer value
  else .integerRange

/-- A run of word characters is a keyword if it is spelled like one. -/
def wordLexeme (word : String) : Lexeme :=
  match Keyword.ofSpelling? word with
  | some keyword => .keyword keyword
  | none => .identifier word

/-- Reads the digits after an optional sign. -/
def readInteger (sign : List Char) (cs : List Char) : Reading :=
  let digits := cs.takeWhile Char.isDigit
  let magnitude : Int := decimal digits
  { lexeme := integerLexeme (if sign = ['-'] then -magnitude else magnitude)
    written := sign ++ digits
    rest := cs.dropWhile Char.isDigit }

/-- Reads the longest lexeme at the front of a text that starts with no gap. -/
def ofChars : List Char → Reading
  | [] => ⟨.finish, [], []⟩
  | '"' :: cs =>
    let contents := cs.takeWhile (· ≠ '"')
    match cs.dropWhile (· ≠ '"') with
    | [] => ⟨.unclosedString, '"' :: cs, []⟩
    | quote :: rest => ⟨.string (String.ofList contents), '"' :: contents ++ [quote], rest⟩
  | c :: cs =>
    if c.isDigit then readInteger [] (c :: cs)
    else if (c = '+' ∨ c = '-') ∧ cs.head?.any Char.isDigit then readInteger [c] cs
    else if isWordStart c then
      let word := c :: cs.takeWhile isWordPart
      ⟨wordLexeme (String.ofList word), word, cs.dropWhile isWordPart⟩
    else match Mark.ofChar? c with
      | some mark => ⟨.mark mark, [c], cs⟩
      | none => ⟨.unknownChar c, [c], cs⟩

/-- Reading splits the text and skips nothing. -/
theorem written_append_rest (cs : List Char) : (ofChars cs).written ++ (ofChars cs).rest = cs := by
  fun_cases ofChars cs with
  | case1 => rfl
  | case2 => simp
  | case3 cs contents quote rest h =>
    have := List.takeWhile_append_dropWhile (p := fun c => decide (c ≠ '"')) (l := cs)
    rw [h] at this
    simpa [contents] using this
  | case4 c cs _ h => simp [readInteger, List.takeWhile_append_dropWhile]
  | case5 c cs _ h h' => simp [readInteger, List.takeWhile_append_dropWhile]
  | case6 c cs _ h h' h'' word => simp [word, List.takeWhile_append_dropWhile]
  | case7 => rfl
  | case8 => rfl

theorem written_ne_nil {cs : List Char} (h : cs ≠ []) : (ofChars cs).written ≠ [] := by
  fun_cases ofChars cs with
  | case1 => exact absurd rfl h
  | case2 => simp
  | case3 => simp
  | case4 c cs _ hd => simp [readInteger, hd]
  | case5 => simp [readInteger]
  | case6 => simp
  | case7 => simp
  | case8 => simp

theorem rest_length_lt {cs : List Char} (h : cs ≠ []) : (ofChars cs).rest.length < cs.length := by
  have hw := List.length_pos_iff.2 (written_ne_nil h)
  have := congrArg List.length (written_append_rest cs)
  simp only [List.length_append] at this
  omega

end Reading

namespace Token

/-- Reads the gap and the token at the front of a text that starts at the given offset; the
second part is the text after the token. -/
def read (offset : Nat) (cs : List Char) : Token × List Char :=
  match Gap.read .between offset cs with
  | .unclosed opened stop => (⟨.unclosedComment, ⟨opened, stop⟩⟩, [])
  | .closed start rest =>
    let reading := Reading.ofChars rest
    (⟨reading.lexeme, ⟨start, start + Text.size reading.written⟩⟩, reading.rest)

theorem read_length {offset : Nat} {cs : List Char}
    (h : (read offset cs).1.lexeme ≠ .finish) : (read offset cs).2.length < cs.length := by
  unfold read at h ⊢
  split at h
  next opened stop hg =>
    cases cs with
    | nil => simp [Gap.read] at hg
    | cons c cs => simp
  next start rest hg =>
    have hle := Gap.read_closed_length hg
    have hne : rest ≠ [] := by
      rintro rfl
      exact h rfl
    exact Nat.lt_of_lt_of_le (Reading.rest_length_lt hne) hle

/-- All tokens of a text that starts at the given offset, ending with `finish`. -/
def readAll (offset : Nat) (cs : List Char) : List Token :=
  let token := (read offset cs).1
  if token.lexeme = .finish then [token]
  else token :: readAll token.span.stop (read offset cs).2
termination_by cs.length
decreasing_by exact read_length (by assumption)

theorem readAll_of_finish {offset : Nat} {cs : List Char}
    (h : (read offset cs).1.lexeme = .finish) : readAll offset cs = [(read offset cs).1] := by
  rw [readAll]
  exact if_pos h

theorem readAll_of_ne_finish {offset : Nat} {cs : List Char}
    (h : (read offset cs).1.lexeme ≠ .finish) :
    readAll offset cs =
      (read offset cs).1 :: readAll (read offset cs).1.span.stop (read offset cs).2 := by
  rw [readAll]
  exact if_neg h

theorem readAll_ne_nil (offset : Nat) (cs : List Char) : readAll offset cs ≠ [] := by
  by_cases h : (read offset cs).1.lexeme = .finish
  · simp [readAll_of_finish h]
  · simp [readAll_of_ne_finish h]

/-- The last token is `finish`. -/
theorem getLast?_readAll (offset : Nat) (cs : List Char) :
    (readAll offset cs).getLast?.map Token.lexeme = some .finish := by
  induction offset, cs using readAll.induct with
  | case1 offset cs token h =>
    have hfinish : (read offset cs).1.lexeme = .finish := h
    simp [readAll_of_finish hfinish, hfinish]
  | case2 offset cs token h ih =>
    obtain ⟨last, hlast, hfinish⟩ := Option.map_eq_some_iff.1 ih
    rw [readAll_of_ne_finish h, List.getLast?_cons, hlast]
    simp [hfinish]

end Token

/-- One token under consideration and the text after it. -/
structure Lexer where
  current : Token
  rest : List Char
  /-- End of the token before the current one. -/
  previousEnd : Nat
  /-- Set once the stream of tokens has handed out `finish`. -/
  finished : Bool

namespace Lexer

/-- A lexer on its first token, if the offset to start at lies on a character boundary. -/
def create? (source : Source) (offset : Nat) : Option Lexer :=
  (Text.drop? offset source.chars).map fun cs =>
    let (token, rest) := Token.read offset cs
    ⟨token, rest, offset, false⟩

/-- Makes the next token current; there is none after `finish`. -/
def advance? (lexer : Lexer) : Option Lexer :=
  if lexer.current.lexeme = .finish then none
  else
    let (token, rest) := Token.read lexer.current.span.stop lexer.rest
    some { lexer with current := token, rest, previousEnd := lexer.current.span.stop }

/-- Hands out the current token and moves on; after `finish` it hands out nothing. -/
def next (lexer : Lexer) : Option Token × Lexer :=
  if lexer.finished then (none, lexer)
  else (some lexer.current, lexer.advance?.getD { lexer with finished := true })

end Lexer

/-- The tokens of a source file. -/
def Source.tokens (source : Source) : List Token :=
  Token.readAll 0 source.chars

end Idl
