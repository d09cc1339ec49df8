import Idl.Syntax.Node

/-!
# Tree dumps

The text form of a syntax tree: one line per node with its label and span, the parts of a node
indented below it.
-/
namespace Idl

def margin (depth : Nat) : String :=
  String.ofList (List.replicate depth ' ')

/-- A span as lines and columns, then as byte offsets. -/
def Source.spanText (source : Source) (span : Span) : String :=
  let place := fun offset =>
    let lineColumn := source.lineColumn offset
    toString lineColumn.line ++ ":" ++ toString lineColumn.column
  place span.start ++ "-" ++ place span.stop ++
    " (" ++ toString span.start ++ "-" ++ toString span.stop ++ ")"

namespace Node

mutual

/-- The lines of a node, of which the first is already indented. -/
def dump (source : Source) (depth : Nat) : Node → String
  | leaf label span text =>
    label.text ++ " @ " ++ source.spanText span ++ " = " ++ text ++ "\n"
  | branch label span parts =>
    label.text ++ " @ " ++ source.spanText span ++ " \x7b\n" ++
      dumpParts source (depth + 2) parts ++ margin depth ++ "\x7d\n"

def dumpParts (source : Source) (depth : Nat) : List Part → String
  | [] => ""
  | .word name text :: parts =>
    margin depth ++ name ++ ": " ++ text ++ "\n" ++ dumpParts source depth parts
  | .one name node :: parts =>
    margin depth ++ name ++ ": " ++ dump source depth node ++ dumpParts source depth parts
  | .absent name :: parts =>
    margin depth ++ name ++ ": <none>\n" ++ dumpParts source depth parts
  | .many name nodes :: parts =>
    margin depth ++ name ++ ": [\n" ++ dumpAll source (depth + 2) nodes ++
      margin depth ++ "]\n" ++ dumpParts source depth parts

def dumpAll (source : Source) (depth : Nat) : List Node → String
  | [] => ""
  | node :: nodes => margin depth ++ dump source depth node ++ dumpAll source depth nodes

end

end Node

def Document.dump (source : Source) (document : Document) : String :=
  document.toNode.dump source 0

end Idl
