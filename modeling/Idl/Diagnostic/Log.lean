import Idl.Diagnostic

/-!
# The log of a compilation

All diagnostics of a run in the order they were made, and the file being visited. Only one file
is visited at a time, and the log only grows.
-/
namespace Idl

structure DiagnosticLog where
  current : Option String
  diagnostics : List Diagnostic
deriving Repr

namespace DiagnosticLog

def empty : DiagnosticLog :=
  ⟨none, []⟩

/-- Why a visit was broken off. -/
inductive Fault where
  /-- A file was entered while another one was active. -/
  | fileActive (entered active : String)
  /-- A report starts inside a character. -/
  | insideCharacter
deriving DecidableEq, Repr

def Fault.message? : Fault → Option String
  | fileActive entered active =>
    some ("entered " ++ entered ++ " while " ++ active ++ " is still active")
  | insideCharacter => none

/-- Number of errors at top level. -/
def errorCount (log : DiagnosticLog) : Nat :=
  Diagnostic.errorCount log.diagnostics

def enter (log : DiagnosticLog) (source : Source) : Except Fault DiagnosticLog :=
  match log.current with
  | some active => .error (.fileActive source.path active)
  | none => .ok { log with current := some source.path }

/-- Adds reports about the file; the flag tells whether all of them could be located. -/
def record (log : DiagnosticLog) (source : Source) (reports : List Report) :
    DiagnosticLog × Bool :=
  let (diagnostics, complete) := Report.locateAll source reports
  ({ log with diagnostics := log.diagnostics ++ diagnostics }, complete)

def leave (log : DiagnosticLog) : DiagnosticLog :=
  { log with current := none }

/-- Enters a file, makes reports about it and leaves it, unless it is to stay active. A fault in
a report ends the visit and leaves the file. -/
def visit (log : DiagnosticLog) (source : Source) (reports : List Report) (stay : Bool) :
    DiagnosticLog × Option Fault :=
  match log.enter source with
  | .error fault => (log, some fault)
  | .ok entered =>
    match entered.record source reports with
    | (recorded, false) => (recorded.leave, some .insideCharacter)
    | (recorded, true) => (if stay then recorded else recorded.leave, none)

end DiagnosticLog
end Idl
