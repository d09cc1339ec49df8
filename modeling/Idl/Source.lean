import Idl.Text

/-!
# Source files

A schema file is its text together with the path under which problems in it are reported. Spans
are half-open ranges of byte offsets into that text.
-/
namespace Idl

structure Span where
  start : Nat
  stop : Nat
deriving DecidableEq, Repr

structure Source where
  path : String
  text : String
deriving DecidableEq, Repr

namespace Source

def chars (source : Source) : List Char :=
  source.text.toList

/-- Length of the text in bytes. -/
def size (source : Source) : Nat :=
  Text.size source.chars

/-- The text between two offsets; it has none if an offset is off a character boundary or past
the end, or if the two are out of order. -/
def slice? (source : Source) (span : Span) : Option String :=
  (Text.slice? span.start span.stop source.chars).map String.ofList

def rest? (source : Source) (offset : Nat) : Option String :=
  (Text.drop? offset source.chars).map String.ofList

/-- The character that starts at the offset. -/
def peek? (source : Source) (offset : Nat) : Option Char :=
  (Text.drop? offset source.chars).bind List.head?

/-- The offset of the first character from `offset` on that fails the test. -/
def scanWhile? (source : Source) (offset : Nat) (p : Char → Bool) : Option Nat :=
  (Text.drop? offset source.chars).map fun cs => offset + Text.size (cs.takeWhile p)

/-- The line and column of an offset; offsets past the end count as the end. -/
def lineColumn (source : Source) (offset : Nat) : Text.LineColumn :=
  Text.placeAt offset source.chars

/-- Like `lineColumn`, but an offset inside a character has none. -/
def lineColumn? (source : Source) (offset : Nat) : Option Text.LineColumn :=
  if Text.IsBoundary (min offset source.size) source.chars then some (source.lineColumn offset)
  else none

end Source
end Idl
