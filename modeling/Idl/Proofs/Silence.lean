import Idl.Reporting
import Mathlib.Tactic

/-!
# Computations that report nothing

A fold or a loop of reporting steps reports the concatenation of what its steps report, so it is
silent exactly if every step is. What a fold computes does not depend on the reports at all.
-/
namespace Idl.Reporting

/-- The computation makes no report. -/
def Silent {α : Type} (x : Reporting α) : Prop :=
  x.reports = []

theorem silent_pure {α : Type} (a : α) : (pure a : Reporting α).Silent := rfl

theorem silent_bind_iff {α β : Type} (x : Reporting α) (f : α → Reporting β) :
    (x >>= f).Silent ↔ x.Silent ∧ (f x.value).Silent := by
  simp [Silent]

theorem Silent.first {α β : Type} {x : Reporting α} {f : α → Reporting β}
    (h : (x >>= f).Silent) : x.Silent :=
  ((silent_bind_iff x f).1 h).1

theorem Silent.rest {α β : Type} {x : Reporting α} {f : α → Reporting β}
    (h : (x >>= f).Silent) : (f x.value).Silent :=
  ((silent_bind_iff x f).1 h).2

theorem not_silent_error (span : Span) (message : Message) : ¬ (error span message).Silent := by
  simp [Silent]

@[simp] theorem value_map {α β : Type} (f : α → β) (x : Reporting α) :
    (f <$> x).value = f x.value := rfl

@[simp] theorem reports_map {α β : Type} (f : α → β) (x : Reporting α) :
    (f <$> x).reports = x.reports := by
  change x.reports ++ [] = _
  simp

theorem value_foldlM {α β : Type} (f : β → α → Reporting β) (items : List α) (b : β) :
    (items.foldlM f b).value = items.foldl (fun b a => (f b a).value) b := by
  induction items generalizing b with
  | nil => rfl
  | cons item items ih => simp [List.foldlM_cons, ih]

/-- A fold is silent exactly if every step is, each taken from the state before it. -/
theorem silent_foldlM_iff {α β : Type} (f : β → α → Reporting β) (items : List α) (b : β) :
    (items.foldlM f b).Silent ↔
      ∀ before item after, items = before ++ item :: after →
        (f (before.foldl (fun b a => (f b a).value) b) item).Silent := by
  induction items generalizing b with
  | nil => simp [silent_pure]
  | cons head items ih =>
    rw [List.foldlM_cons, silent_bind_iff, ih]
    constructor
    · rintro ⟨hhead, htail⟩ before item after h
      cases before with
      | nil =>
        obtain ⟨rfl, rfl⟩ := List.cons.inj h
        exact hhead
      | cons first before =>
        obtain ⟨rfl, hitems⟩ := List.cons.inj h
        exact htail before item after hitems
    · intro h
      refine ⟨h [] head items rfl, fun before item after hitems => ?_⟩
      exact h (head :: before) item after (by rw [hitems]; rfl)

/-- Whatever the states are, a silent fold takes a silent step at every item. -/
theorem silent_step_of_foldlM {α β : Type} {f : β → α → Reporting β} {items : List α} {b : β}
    (h : (items.foldlM f b).Silent) {item : α} (hitem : item ∈ items) :
    ∃ state, (f state item).Silent := by
  obtain ⟨before, after, hitems⟩ := List.append_of_mem hitem
  exact ⟨_, (silent_foldlM_iff f items b).1 h before item after hitems⟩

theorem silent_forM_iff {α : Type} (f : α → Reporting Unit) (items : List α) :
    (items.forM f).Silent ↔ ∀ item ∈ items, (f item).Silent := by
  induction items with
  | nil => simp [silent_pure]
  | cons head items ih =>
    change (f head >>= fun _ => items.forM f).Silent ↔ _
    rw [silent_bind_iff, ih]
    simp

/-- What holds of every report of every step holds of every report of a fold. -/
theorem forall_reports_foldlM {α β : Type} {f : β → α → Reporting β} {items : List α} {b : β}
    {p : Report → Prop} (h : ∀ b, ∀ item ∈ items, ∀ report ∈ (f b item).reports, p report) :
    ∀ report ∈ (items.foldlM f b).reports, p report := by
  induction items generalizing b with
  | nil => simp
  | cons head items ih =>
    intro report hreport
    rw [List.foldlM_cons, reports_bind, List.mem_append] at hreport
    rcases hreport with hhead | htail
    · exact h b head (by simp) report hhead
    · exact ih (fun b item hitem => h b item (by simp [hitem])) report htail

theorem forall_reports_forM {α : Type} {f : α → Reporting Unit} {items : List α}
    {p : Report → Prop} (h : ∀ item ∈ items, ∀ report ∈ (f item).reports, p report) :
    ∀ report ∈ (items.forM f).reports, p report := by
  induction items with
  | nil => simp
  | cons head items ih =>
    intro report hreport
    change report ∈ (f head >>= fun _ => items.forM f).reports at hreport
    rw [reports_bind, List.mem_append] at hreport
    rcases hreport with hhead | htail
    · exact h head (by simp) report hhead
    · exact ih (fun item hitem => h item (by simp [hitem])) report htail

end Idl.Reporting
