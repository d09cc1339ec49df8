/-!
# Indented text

Text under construction that puts a margin in front of every line, empty ones too. It is written
in pieces, which may hold no line, a part of one or several, and the margin may change between
lines.
-/
namespace Idl

structure IndentedText where
  text : String
  margin : Nat
  atLineStart : Bool
deriving DecidableEq, Repr

namespace IndentedText

def empty : IndentedText :=
  ⟨"", 0, true⟩

/-- Writes characters of one line, of which only the last may be a newline. -/
def writeLine (out : IndentedText) (line : List Char) : IndentedText :=
  let lead := if out.atLineStart then List.replicate out.margin ' ' else []
  { out with
    text := out.text ++ String.ofList (lead ++ line)
    atLineStart := line.getLast? = some '\n' }

/-- Writes a piece line by line. Each line takes the newline that ends it along. -/
def write (out : IndentedText) (piece : String) : IndentedText :=
  (piece.toList.splitBy fun c _ => c ≠ '\n').foldl writeLine out

/-- Widens the margin while `f` writes. -/
def nested (out : IndentedText) (f : IndentedText → IndentedText) : IndentedText :=
  { f { out with margin := out.margin + 2 } with margin := out.margin }

end IndentedText
end Idl
