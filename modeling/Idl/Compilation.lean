import Idl.Analysis
import Idl.Program.Load

/-!
# Compilation

Loads a program and analyses it.
-/
namespace Idl

structure Compilation where
  /-- There is none if a file has a syntax error or an include that leads nowhere. -/
  program : Option Program
  analysis : Analysis
  diagnostics : List Diagnostic
deriving Repr

namespace Compilation

def succeeded (compilation : Compilation) : Bool :=
  compilation.program.isSome && compilation.analysis.succeeded

/-- Number of errors at top level. -/
def errorCount (compilation : Compilation) : Nat :=
  Diagnostic.errorCount compilation.diagnostics

end Compilation

/-- Compiles the file at `path` with everything it includes. -/
def compile (loader : Loader) (includePaths : List String) (path : String) :
    Except ReadFailure Compilation :=
  match loadProgram loader includePaths path with
  | .error failure => .error failure
  | .ok (none, diagnostics) => .ok ⟨none, .empty, diagnostics⟩
  | .ok (some program, diagnostics) =>
    let (analysis, found) := program.analyze
    .ok ⟨some program, analysis, diagnostics ++ found⟩

end Idl
