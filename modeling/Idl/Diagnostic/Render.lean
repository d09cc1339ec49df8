import Idl.Diagnostic
import Idl.Text.Indented

/-!
# Diagnostics as text

One line per diagnostic, with its notes indented below it. Colour paints the location in front of
the message and changes nothing else.
-/
namespace Idl

/-- The escape sequence that starts painting: red for errors, cyan for notes, both bold. -/
def Severity.paint : Severity → String
  | error => "\x1b[38;5;1;1m"
  | note => "\x1b[38;5;6;1m"

/-- The escape sequence that ends painting. -/
def resetPaint : String :=
  "\x1b[0m"

namespace Diagnostic

/-- The file and place in front of the message. -/
def heading (diagnostic : Diagnostic) : String :=
  diagnostic.file ++ " (line " ++ toString diagnostic.location.line ++
    ", col " ++ toString diagnostic.location.column ++ "):"

/-- The diagnostic without its notes, in the pieces in which it is written. A heading that is
painted is put together first. -/
def pieces (colour : Bool) (diagnostic : Diagnostic) : List String :=
  if colour then
    [diagnostic.severity.paint, diagnostic.heading, resetPaint, " ", diagnostic.message.text, "\n"]
  else
    [diagnostic.file, " (line ", toString diagnostic.location.line, ", col ",
      toString diagnostic.location.column, "): ", diagnostic.message.text, "\n"]

mutual

def write (colour : Bool) (out : IndentedText) : Diagnostic → IndentedText
  | ⟨severity, file, span, location, message, also⟩ =>
    let out := (pieces colour ⟨severity, file, span, location, message, also⟩).foldl
      IndentedText.write out
    out.nested fun inner => writeAll colour inner also

def writeAll (colour : Bool) (out : IndentedText) : List Diagnostic → IndentedText
  | [] => out
  | diagnostic :: diagnostics => writeAll colour (write colour out diagnostic) diagnostics

end

def renderAll (colour : Bool) (diagnostics : List Diagnostic) : String :=
  (writeAll colour .empty diagnostics).text

end Diagnostic
end Idl
