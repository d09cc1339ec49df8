import Idl.Report

/-!
# Computations that make reports

A result together with the reports made on the way to it. Reports come in the order in which the
steps are taken, and no step sees or removes the reports of another.
-/
namespace Idl

structure Reporting (α : Type) where
  value : α
  reports : List Report

namespace Reporting

instance : Monad Reporting where
  pure value := ⟨value, []⟩
  bind step next :=
    let rest := next step.value
    ⟨rest.value, step.reports ++ rest.reports⟩

@[simp] theorem value_pure {α : Type} (a : α) : (pure a : Reporting α).value = a := rfl

@[simp] theorem reports_pure {α : Type} (a : α) : (pure a : Reporting α).reports = [] := rfl

@[simp] theorem value_bind {α β : Type} (x : Reporting α) (f : α → Reporting β) :
    (x >>= f).value = (f x.value).value := rfl

@[simp] theorem reports_bind {α β : Type} (x : Reporting α) (f : α → Reporting β) :
    (x >>= f).reports = x.reports ++ (f x.value).reports := rfl

instance : LawfulMonad Reporting :=
  LawfulMonad.mk' Reporting
    (fun x => by cases x; simp [Functor.map])
    (fun a f => by simp [bind, pure])
    (fun x f g => by simp [bind, List.append_assoc])

/-- Makes one report. -/
def report (report : Report) : Reporting Unit :=
  ⟨(), [report]⟩

/-- Reports an error. -/
def error (span : Span) (message : Message) : Reporting Unit :=
  report (.error span message)

@[simp] theorem reports_error (span : Span) (message : Message) :
    (error span message).reports = [.error span message] := rfl

end Reporting
end Idl
