import Idl.Source

/-!
# Tokens of the schema language

A lexeme is what a stretch of text means to the parser; a token is a lexeme with the span it was
read from. Token kinds forget the payload and are what diagnostics name.
-/
namespace Idl

inductive Keyword where
  | bool | const | double | enum | exception | extending | falsehood | i32 | i64 | inclusion
  | list | map | naming | oneway | optional | required | service | string | struct | throws
  | truth | typedef | void
deriving DecidableEq, Repr

namespace Keyword

def spelling : Keyword → String
  | bool => "bool"
  | const => "const"
  | double => "double"
  | enum => "enum"
  | exception => "exception"
  | extending => "extends"
  | falsehood => "false"
  | i32 => "i32"
  | i64 => "i64"
  | inclusion => "include"
  | list => "list"
  | map => "map"
  | naming => "namespace"
  | oneway => "oneway"
  | optional => "optional"
  | required => "required"
  | service => "service"
  | string => "string"
  | struct => "struct"
  | throws => "throws"
  | truth => "true"
  | typedef => "typedef"
  | void => "void"

def all : List Keyword :=
  [bool, const, double, enum, exception, extending, falsehood, i32, i64, inclusion, list, map,
    naming, oneway, optional, required, service, string, struct, throws, truth, typedef, void]

theorem mem_all (k : Keyword) : k ∈ all := by
  cases k <;> decide

/-- The keyword with the given spelling. -/
def ofSpelling? (text : String) : Option Keyword :=
  all.find? (·.spelling == text)

@[simp] theorem ofSpelling?_spelling (k : Keyword) : ofSpelling? k.spelling = some k := by
  cases k <;> decide

theorem spelling_of_ofSpelling? {text : String} {k : Keyword} (h : ofSpelling? text = some k) :
    k.spelling = text := by
  simpa using List.find?_some h

end Keyword

/-- Punctuation of one character. -/
inductive Mark where
  | openBrace | closeBrace | openBracket | closeBracket | openParen | closeParen
  | less | greater | equals | colon | semicolon | comma | dot | star
deriving DecidableEq, Repr

namespace Mark

def char : Mark → Char
  | openBrace => '{'
  | closeBrace => '}'
  | openBracket => '['
  | closeBracket => ']'
  | openParen => '('
  | closeParen => ')'
  | less => '<'
  | greater => '>'
  | equals => '='
  | colon => ':'
  | semicolon => ';'
  | comma => ','
  | dot => '.'
  | star => '*'

def all : List Mark :=
  [openBrace, closeBrace, openBracket, closeBracket, openParen, closeParen, less, greater,
    equals, colon, semicolon, comma, dot, star]

theorem mem_all (m : Mark) : m ∈ all := by
  cases m <;> decide

def ofChar? (c : Char) : Option Mark :=
  all.find? (·.char == c)

@[simp] theorem ofChar?_char (m : Mark) : ofChar? m.char = some m := by
  cases m <;> decide

theorem char_of_ofChar? {c : Char} {m : Mark} (h : ofChar? c = some m) : m.char = c := by
  simpa using List.find?_some h

end Mark

/-- Why a stretch of text is no token. -/
inductive LexicalFault where
  | unclosedString | unclosedComment | integerRange | unknownChar
deriving DecidableEq, Repr

inductive TokenKind where
  | keyword (word : Keyword)
  | integer
  | string
  | identifier
  | mark (mark : Mark)
  | fault (fault : LexicalFault)
  | start
  | finish
deriving DecidableEq, Repr

namespace TokenKind

def isKeyword : TokenKind → Bool
  | keyword _ => true
  | _ => false

def isFault : TokenKind → Bool
  | fault _ => true
  | _ => false

/-- The spelling that diagnostics use. -/
def text : TokenKind → String
  | keyword word => word.spelling
  | integer => "<integer>"
  | string => "<string>"
  | identifier => "<identifier>"
  | mark m => String.singleton m.char
  | fault _ => "<error>"
  | start => "<start of input>"
  | finish => "<end of input>"

end TokenKind

inductive Lexeme where
  | keyword (word : Keyword)
  | integer (value : Int)
  | string (contents : String)
  | identifier (name : String)
  | mark (mark : Mark)
  | unclosedString
  | unclosedComment
  | integerRange
  | unknownChar (char : Char)
  | finish
deriving DecidableEq, Repr

namespace Lexeme

def kind : Lexeme → TokenKind
  | keyword word => .keyword word
  | integer _ => .integer
  | string _ => .string
  | identifier _ => .identifier
  | mark m => .mark m
  | unclosedString => .fault .unclosedString
  | unclosedComment => .fault .unclosedComment
  | integerRange => .fault .integerRange
  | unknownChar _ => .fault .unknownChar
  | finish => .finish

/-- The value of an integer literal. -/
def integer? : Lexeme → Option Int
  | integer value => some value
  | _ => none

/-- The name of an identifier or the contents of a string literal. -/
def text? : Lexeme → Option String
  | string contents => some contents
  | identifier name => some name
  | _ => none

/-- The kind, followed by the payload if there is one. -/
def description (lexeme : Lexeme) : String :=
  match lexeme with
  | integer value => lexeme.kind.text ++ " " ++ toString value
  | string contents => lexeme.kind.text ++ " " ++ contents
  | identifier name => lexeme.kind.text ++ " " ++ name
  | _ => lexeme.kind.text

end Lexeme

structure Token where
  lexeme : Lexeme
  span : Span
deriving DecidableEq, Repr

def Token.kind (token : Token) : TokenKind :=
  token.lexeme.kind

end Idl
