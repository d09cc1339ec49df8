import Idl.Report

/-!
# Diagnostics

A diagnostic is a report together with the file it is about and the line and column where it
starts. A report that starts inside a character has no line and column, so it becomes no
diagnostic, and nothing after it does.
-/
namespace Idl

structure Diagnostic where
  severity : Severity
  file : String
  span : Span
  location : Text.LineColumn
  message : Message
  also : List Diagnostic
deriving Repr

namespace Diagnostic

mutual

/-- Spelled out as for reports. -/
def decEq : (c d : Diagnostic) → Decidable (c = d)
  | ⟨a, file, span, location, message, notes⟩, ⟨b, file', span', location', message', notes'⟩ =>
    have := decEqs notes notes'
    decidable_of_iff (a = b ∧ file = file' ∧ span = span' ∧ location = location' ∧
      message = message' ∧ notes = notes') (by simp)

def decEqs : (cs ds : List Diagnostic) → Decidable (cs = ds)
  | [], [] => .isTrue rfl
  | [], _ :: _ | _ :: _, [] => .isFalse nofun
  | c :: cs, d :: ds =>
    have := decEq c d
    have := decEqs cs ds
    decidable_of_iff (c = d ∧ cs = ds) (by simp)

end

instance : DecidableEq Diagnostic :=
  decEq

end Diagnostic

/-- Number of errors at top level. -/
def Diagnostic.errorCount (diagnostics : List Diagnostic) : Nat :=
  diagnostics.countP (·.severity = .error)

namespace Report

mutual

/-- Locates a report and its notes in a file. The flag tells whether every note was located;
after the first that is not, the rest are dropped. -/
def locate? (source : Source) : Report → Option (Diagnostic × Bool)
  | ⟨severity, span, message, also⟩ =>
    match source.lineColumn? span.start with
    | none => none
    | some location =>
      let (notes, complete) := locateAll source also
      some (⟨severity, source.path, span, location, message, notes⟩, complete)

/-- Locates reports up to the first that cannot be located completely. -/
def locateAll (source : Source) : List Report → List Diagnostic × Bool
  | [] => ([], true)
  | report :: reports =>
    match locate? source report with
    | none => ([], false)
    | some (diagnostic, false) => ([diagnostic], false)
    | some (diagnostic, true) =>
      let (diagnostics, complete) := locateAll source reports
      (diagnostic :: diagnostics, complete)

end

end Report

/-- The diagnostics of reports about a file. -/
def Source.diagnose (source : Source) (reports : List Report) : List Diagnostic :=
  (Report.locateAll source reports).1

end Idl
