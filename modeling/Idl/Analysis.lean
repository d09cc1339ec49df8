import Idl.Check
import Idl.Cycles
import Idl.Diagnostic

/-!
# Analysis

The phases that a loaded program goes through. Every phase looks at all trees, dependencies
first, and may use the tables that the phases before it made for all trees. A phase that reports
an error is the last one.
-/
namespace Idl

inductive Phase where
  | enterSymbols | bindNames | checkTypes | checkCycles | checkUnused
deriving DecidableEq, Repr

namespace Phase

/-- All phases in the order in which they run. -/
def all : List Phase :=
  [enterSymbols, bindNames, checkTypes, checkCycles, checkUnused]

def text : Phase → String
  | enterSymbols => "enter symbols"
  | bindNames => "bind names"
  | checkTypes => "type check"
  | checkCycles => "cyclic check"
  | checkUnused => "check unused"

end Phase

/-- What the phases have found out about the trees of a program. -/
structure Analysis where
  symbols : Table Symbols
  bindings : Table Bindings
  values : Table Values
  /-- The last phase that reported no error. -/
  completed : Option Phase
deriving Repr

namespace Analysis

def empty : Analysis :=
  ⟨[], [], [], none⟩

def succeeded (analysis : Analysis) : Bool :=
  analysis.completed = some .checkUnused

theorem succeeded_iff (analysis : Analysis) :
    analysis.succeeded = true ↔ analysis.completed = some .checkUnused :=
  decide_eq_true_iff

def resolver (analysis : Analysis) (program : Program) : Resolver :=
  ⟨program, analysis.symbols, analysis.bindings⟩

end Analysis

/-- Reports the includes of a file that no name goes through. -/
def checkUnused (tree : SourceTree) (bindings : Bindings) : Reporting Unit :=
  tree.includes.forM fun edge => do
    unless edge.name ∈ bindings.used do
      Reporting.error edge.directive.path.span (.unusedInclude edge.directive.path.text)

/-- The diagnostics of reports about a tree of a program. -/
def Program.diagnose (program : Program) (number : Nat) (reports : List Report) :
    List Diagnostic :=
  match program.trees[number]? with
  | some tree => tree.source.diagnose reports
  | none => []

/-- Does something with each of the listed trees of a program. -/
def Program.forTrees {α : Type} (program : Program) (numbers : List Nat)
    (f : Nat → SourceTree → Reporting α) : Table α × List Diagnostic :=
  let results := numbers.filterMap fun number =>
    program.trees[number]?.map fun tree => (number, f number tree)
  (results.map fun (number, result) => (number, result.value),
    results.flatMap fun (number, result) => program.diagnose number result.reports)

namespace Phase

/-- Runs a phase over all trees of a program. Its tables replace those of an earlier run. -/
def run (phase : Phase) (program : Program) (analysis : Analysis) :
    Analysis × List Diagnostic :=
  let trees := program.flatten
  let resolver := analysis.resolver program
  match phase with
  | enterSymbols =>
    let (symbols, diagnostics) := program.forTrees trees fun _ tree =>
      Idl.enterSymbols tree.document
    ({ analysis with symbols }, diagnostics)
  | bindNames =>
    let (bindings, diagnostics) := program.forTrees trees (Idl.bindNames analysis.symbols)
    ({ analysis with bindings }, diagnostics)
  | checkTypes =>
    let (values, diagnostics) := program.forTrees trees fun number tree =>
      resolver.checkTypes number tree.document
    ({ analysis with values }, diagnostics)
  | checkCycles =>
    let (_, diagnostics) := program.forTrees trees fun number tree =>
      resolver.checkCycles number tree.document
    (analysis, diagnostics)
  | checkUnused =>
    let (_, diagnostics) := program.forTrees trees fun number tree =>
      Idl.checkUnused tree ((analysis.bindings.lookup number).getD .empty)
    (analysis, diagnostics)

end Phase

/-- Runs phases one after the other up to the first that reports an error. -/
def Program.runPhases (program : Program) (analysis : Analysis) :
    List Phase → Analysis × List Diagnostic
  | [] => (analysis, [])
  | phase :: phases =>
    let (analysis, found) := phase.run program analysis
    if Diagnostic.errorCount found = 0 then
      let (final, later) := program.runPhases { analysis with completed := some phase } phases
      (final, found ++ later)
    else (analysis, found)

/-- Analyses a program. -/
def Program.analyze (program : Program) : Analysis × List Diagnostic :=
  program.runPhases .empty Phase.all

end Idl
