import Idl.Message

/-!
# Reports

A report is a message about a span of the file being looked at, with further reports that
explain it.
-/
namespace Idl

inductive Severity where
  | error | note
deriving DecidableEq, Repr

structure Report where
  severity : Severity
  span : Span
  message : Message
  also : List Report
deriving Repr

namespace Report

def error (span : Span) (message : Message) : Report :=
  ⟨.error, span, message, []⟩

def note (span : Span) (message : Message) : Report :=
  ⟨.note, span, message, []⟩

mutual

/-- Deriving does not reach into the notes, so the comparison is spelled out. -/
def decEq : (r s : Report) → Decidable (r = s)
  | ⟨a, span, message, notes⟩, ⟨b, span', message', notes'⟩ =>
    have := decEqs notes notes'
    decidable_of_iff (a = b ∧ span = span' ∧ message = message' ∧ notes = notes') (by simp)

def decEqs : (rs ss : List Report) → Decidable (rs = ss)
  | [], [] => .isTrue rfl
  | [], _ :: _ | _ :: _, [] => .isFalse nofun
  | r :: rs, s :: ss =>
    have := decEq r s
    have := decEqs rs ss
    decidable_of_iff (r = s ∧ rs = ss) (by simp)

end

instance : DecidableEq Report :=
  decEq

end Report
end Idl
