import Idl.Diagnostic.Log
import Idl.Proofs.CharacterBoundaries
import Idl.Proofs.PlacedReports
import Idl.Proofs.Severity

/-!
# Visits to files

What the log of a compilation holds after any number of visits to files, some of which go wrong. A
visit only adds diagnostics, it adds those of the reports made before the first one that cannot be
placed, and it leaves its file unless it was to stay there.
-/
namespace Idl

/-! ### Reports in the order in which they are made -/

mutual

/-- The report and those under it, each by itself, with the number of reports that it lies under.
A report is made before those under it. -/
def Report.outline (depth : Nat) : Report → List (Nat × Report)
  | ⟨severity, span, message, also⟩ =>
    (depth, ⟨severity, span, message, []⟩) :: Report.outlineAll (depth + 1) also

def Report.outlineAll (depth : Nat) : List Report → List (Nat × Report)
  | [] => []
  | report :: reports => report.outline depth ++ Report.outlineAll depth reports

end

mutual

/-- The diagnostic and those under it, each by itself, with the number of diagnostics that it lies
under. -/
def Diagnostic.outline (depth : Nat) : Diagnostic → List (Nat × Diagnostic)
  | ⟨severity, file, span, location, message, also⟩ =>
    (depth, ⟨severity, file, span, location, message, []⟩) :: Diagnostic.outlineAll (depth + 1) also

def Diagnostic.outlineAll (depth : Nat) : List Diagnostic → List (Nat × Diagnostic)
  | [] => []
  | diagnostic :: diagnostics =>
    diagnostic.outline depth ++ Diagnostic.outlineAll depth diagnostics

end

namespace Diagnostic

mutual

theorem le_of_mem_outline {depth : Nat} {entry : Nat × Diagnostic} :
    ∀ diagnostic : Diagnostic, entry ∈ diagnostic.outline depth → depth ≤ entry.1
  | ⟨severity, file, span, location, message, also⟩, h => by
    rw [outline] at h
    rcases List.mem_cons.1 h with rfl | h
    · exact le_rfl
    · exact (Nat.le_succ depth).trans (le_of_mem_outlineAll also h)

theorem le_of_mem_outlineAll {depth : Nat} {entry : Nat × Diagnostic} :
    ∀ diagnostics : List Diagnostic, entry ∈ outlineAll depth diagnostics → depth ≤ entry.1
  | [], h => by
    rw [outlineAll] at h
    exact absurd h List.not_mem_nil
  | diagnostic :: diagnostics, h => by
    rw [outlineAll] at h
    rcases List.mem_append.1 h with h | h
    · exact le_of_mem_outline diagnostic h
    · exact le_of_mem_outlineAll diagnostics h

end

theorem outlineAll_cons (depth : Nat) (diagnostic : Diagnostic) (diagnostics : List Diagnostic) :
    outlineAll depth (diagnostic :: diagnostics) =
      (depth, { diagnostic with also := [] }) ::
        (outlineAll (depth + 1) diagnostic.also ++ outlineAll depth diagnostics) := by
  obtain ⟨severity, file, span, location, message, also⟩ := diagnostic
  rw [outlineAll, outline, List.cons_append]

/-- What lies under the first diagnostic ends where the depth comes back to that of the first. -/
theorem takeWhile_outlineAll (depth : Nat) (also diagnostics : List Diagnostic) :
    (outlineAll (depth + 1) also ++ outlineAll depth diagnostics).takeWhile
      (fun entry => depth < entry.1) = outlineAll (depth + 1) also := by
  have hunder : ∀ entry ∈ outlineAll (depth + 1) also, decide (depth < entry.1) = true :=
    fun entry hentry => decide_eq_true (le_of_mem_outlineAll also hentry)
  rw [List.takeWhile_append_of_pos hunder]
  cases diagnostics with
  | nil => rw [outlineAll, List.takeWhile_nil, List.append_nil]
  | cons diagnostic diagnostics => simp [outlineAll_cons]

/-- The outline tells which diagnostic lies under which. -/
theorem outlineAll_injective {depth : Nat} {diagnostics others : List Diagnostic}
    (h : outlineAll depth diagnostics = outlineAll depth others) : diagnostics = others := by
  induction hn : (outlineAll depth diagnostics).length using Nat.strongRecOn
    generalizing depth diagnostics others with
  | ind n ih =>
    cases diagnostics with
    | nil =>
      cases others with
      | nil => rfl
      | cons other others =>
        rw [outlineAll_cons, outlineAll] at h
        cases h
    | cons diagnostic diagnostics =>
      cases others with
      | nil =>
        rw [outlineAll_cons, outlineAll] at h
        cases h
      | cons other others =>
        rw [outlineAll_cons, outlineAll_cons] at h
        obtain ⟨hhead, htail⟩ := List.cons.inj h
        -- the notes of the first diagnostic end where the depth comes back
        have halso := congrArg (List.takeWhile fun entry => depth < entry.1) htail
        rw [takeWhile_outlineAll, takeWhile_outlineAll] at halso
        rw [halso] at htail
        have hrest := List.append_cancel_left htail
        rw [outlineAll_cons, List.length_cons, List.length_append] at hn
        have hnotes := ih _ (by omega) halso rfl
        rw [ih _ (by omega) hrest rfl]
        obtain ⟨severity, file, span, location, message, also⟩ := diagnostic
        obtain ⟨severity', file', span', location', message', also'⟩ := other
        simp only [Prod.mk.injEq, true_and, Diagnostic.mk.injEq] at hhead hnotes
        obtain ⟨rfl, rfl, rfl, rfl, rfl, -⟩ := hhead
        subst hnotes
        rfl

end Diagnostic

/-- What comes after the first element that fails is not reached. -/
theorem takeWhile_append_of_all_eq_false {α : Type} {p : α → Bool} {first : List α}
    (second : List α) (h : first.all p = false) :
    (first ++ second).takeWhile p = first.takeWhile p := by
  induction first with
  | nil => cases h
  | cons x first ih =>
    rw [List.cons_append, List.takeWhile_cons, List.takeWhile_cons]
    split
    · next hx =>
      rw [List.all_cons, hx, Bool.true_and] at h
      rw [ih h]
    · rfl

namespace Source

/-- The report begins at a place that has a line and column. -/
def Fits (source : Source) (entry : Nat × Report) : Prop :=
  ¬ Text.Splits entry.2.span.start source.chars

instance (source : Source) : DecidablePred source.Fits :=
  fun _ => inferInstanceAs (Decidable (¬ _))

/-- The report by itself, with its place. -/
def placeEntry (source : Source) (entry : Nat × Report) : Nat × Diagnostic :=
  (entry.1, source.place entry.2)

mutual

/-- A report is recorded with what is made under it before the first that does not fit. -/
theorem locate?_outline (source : Source) (depth : Nat) : ∀ report : Report,
    ((report.locate? source).elim [] fun located => located.1.outline depth) =
        ((report.outline depth).takeWhile (source.Fits ·)).map source.placeEntry ∧
      ((report.locate? source).elim false fun located => located.2) =
        (report.outline depth).all (source.Fits ·)
  | ⟨severity, span, message, also⟩ => by
    obtain ⟨hnotes, hcomplete⟩ := locateAll_outline source (depth + 1) also
    rw [Report.locate?, Report.outline, lineColumn?_eq_ite]
    by_cases hsplits : Text.Splits span.start source.chars
    · simp [hsplits, Fits]
    · have hfits : source.Fits (depth, ⟨severity, span, message, []⟩) := hsplits
      simp only [if_neg hsplits, Option.elim_some, Diagnostic.outline, hnotes, hcomplete]
      simp [hfits, placeEntry, place, placeAll]

theorem locateAll_outline (source : Source) (depth : Nat) : ∀ reports : List Report,
    Diagnostic.outlineAll depth (Report.locateAll source reports).1 =
        ((Report.outlineAll depth reports).takeWhile (source.Fits ·)).map source.placeEntry ∧
      (Report.locateAll source reports).2 = (Report.outlineAll depth reports).all (source.Fits ·)
  | [] => by simp [Report.locateAll, Report.outlineAll, Diagnostic.outlineAll]
  | report :: reports => by
    obtain ⟨hfirst, hall⟩ := locate?_outline source depth report
    obtain ⟨hrest, hcomplete⟩ := locateAll_outline source depth reports
    rw [Report.locateAll, Report.outlineAll, List.all_append]
    cases hlocate : report.locate? source with
    | none =>
      rw [hlocate] at hfirst hall
      rw [takeWhile_append_of_all_eq_false _ hall.symm, ← hfirst, ← hall]
      exact ⟨by rw [Diagnostic.outlineAll]; rfl, rfl⟩
    | some located =>
      obtain ⟨diagnostic, complete⟩ := located
      rw [hlocate] at hfirst hall
      cases complete with
      | false =>
        rw [takeWhile_append_of_all_eq_false _ hall.symm, ← hfirst, ← hall]
        exact ⟨by simp [Diagnostic.outlineAll], rfl⟩
      | true =>
        have hfits := List.all_eq_true.1 hall.symm
        rw [List.takeWhile_append_of_pos hfits, List.map_append, ← hrest, ← hcomplete, ← hall,
          ← List.takeWhile_eq_self_iff.2 hfits, ← hfirst]
        exact ⟨by simp [Diagnostic.outlineAll], rfl⟩

end

end Source

/-! ### Visits one after the other -/

/-- A visit to a file: the reports that are made about it, with all that lies under them, and
whether the file is to stay active. At top level only errors can be made. -/
structure FileVisit where
  source : Source
  reports : List Report
  isError : ∀ report ∈ reports, report.IsError
  stays : Bool

namespace FileVisit

/-- Every report, at any depth, begins at a place that has a line and column. -/
def isComplete (visit : FileVisit) : Bool :=
  (Report.outlineAll 0 visit.reports).all (visit.source.Fits ·)

/-- The file stays active after the visit, if it could be entered. -/
def keeps (visit : FileVisit) : Bool :=
  visit.stays && visit.isComplete

/-- What the visit records, in the order in which it is made. -/
def recorded (visit : FileVisit) : List (Nat × Diagnostic) :=
  ((Report.outlineAll 0 visit.reports).takeWhile (visit.source.Fits ·)).map
    visit.source.placeEntry

end FileVisit

namespace DiagnosticLog

/-- The log after a visit, and why the visit was broken off, if it was. -/
def take (log : DiagnosticLog) (visit : FileVisit) : DiagnosticLog × Option Fault :=
  log.visit visit.source visit.reports visit.stays

/-- The log after a sequence of visits. -/
def ofVisits (visits : List FileVisit) : DiagnosticLog :=
  visits.foldl (fun log visit => (log.take visit).1) empty

theorem ofVisits_concat (visits : List FileVisit) (visit : FileVisit) :
    ofVisits (visits ++ [visit]) = ((ofVisits visits).take visit).1 := by
  rw [ofVisits, List.foldl_append, List.foldl_cons, List.foldl_nil, ofVisits]

theorem take_of_active {log : DiagnosticLog} {active : String} (h : log.current = some active)
    (visit : FileVisit) : log.take visit = (log, some (.fileActive visit.source.path active)) := by
  simp only [take, DiagnosticLog.visit, enter, h]

theorem take_of_inactive {log : DiagnosticLog} (h : log.current = none) (visit : FileVisit) :
    log.take visit =
      (⟨if visit.keeps then some visit.source.path else none,
          log.diagnostics ++ visit.source.diagnose visit.reports⟩,
        if visit.isComplete then none else some .insideCharacter) := by
  have hflag := (visit.source.locateAll_outline 0 visit.reports).2
  rw [← FileVisit.isComplete] at hflag
  simp only [take, DiagnosticLog.visit, enter, h, record, Source.diagnose, FileVisit.keeps, ← hflag]
  obtain ⟨diagnostics, complete⟩ := Report.locateAll visit.source visit.reports
  cases complete
  · simp [leave]
  · cases visit.stays <;> simp [leave]

/-- Only a visit that keeps its file changes which one is active. -/
theorem current_take (log : DiagnosticLog) (visit : FileVisit) :
    (log.take visit).1.current =
      log.current.or (if visit.keeps then some visit.source.path else none) := by
  cases h : log.current with
  | some active => rw [take_of_active h, h, Option.some_or]
  | none => rw [take_of_inactive h, Option.none_or]

theorem current_ofVisits (visits : List FileVisit) :
    (ofVisits visits).current = (visits.find? (·.keeps)).map (·.source.path) := by
  induction visits using List.reverseRecOn with
  | nil => rfl
  | append_singleton visits visit ih =>
    rw [ofVisits_concat, current_take, ih, List.find?_append, List.find?_singleton]
    cases visits.find? (·.keeps) with
    | some first => rfl
    | none => cases visit.keeps <;> rfl

theorem onlyErrors_take {log : DiagnosticLog} (h : OnlyErrors log.diagnostics) (visit : FileVisit) :
    OnlyErrors (log.take visit).1.diagnostics := by
  cases hcurrent : log.current with
  | some active => rwa [take_of_active hcurrent]
  | none =>
    rw [take_of_inactive hcurrent]
    exact h.append (onlyErrors_locateAll visit.source visit.isError)

theorem onlyErrors_ofVisits (visits : List FileVisit) :
    OnlyErrors (ofVisits visits).diagnostics := by
  induction visits using List.reverseRecOn with
  | nil => exact fun _ hdiagnostic => absurd hdiagnostic List.not_mem_nil
  | append_singleton visits visit ih =>
    rw [ofVisits_concat]
    exact onlyErrors_take ih visit

/-- A visit adds diagnostics to the log and leaves its file, whatever goes wrong in it. If a file
is still active, it adds nothing. Else it adds exactly what is reported before the first report,
at any depth, that begins inside a character, and a report that does breaks it off. Only a visit
that was not broken off can keep its file active, and the first that does remains active. -/
theorem visit_grows (earlier : List FileVisit) (visit : FileVisit) :
    let log := ofVisits earlier
    let next := ofVisits (earlier ++ [visit])
    next = (log.take visit).1 ∧
      next.errorCount = next.diagnostics.length ∧
      next.current = ((earlier ++ [visit]).find? (·.keeps)).map (·.source.path) ∧
      ∃ added, next.diagnostics = log.diagnostics ++ added ∧
        match log.current with
        | some active =>
          (log.take visit).2 = some (.fileActive visit.source.path active) ∧ next = log
        | none =>
          (log.take visit).2 = (if visit.isComplete then none else some .insideCharacter) ∧
            (¬ visit.isComplete → next.current = none) ∧
            ∀ forest, Diagnostic.outlineAll 0 forest = visit.recorded ↔ forest = added := by
  intro log next
  have hnext : next = (log.take visit).1 := ofVisits_concat earlier visit
  refine ⟨hnext, (onlyErrors_ofVisits _).errorCount_eq, current_ofVisits _, ?_⟩
  cases hcurrent : log.current with
  | some active =>
    rw [hnext, take_of_active hcurrent]
    exact ⟨[], (List.append_nil _).symm, rfl, rfl⟩
  | none =>
    have hrecorded : Diagnostic.outlineAll 0 (visit.source.diagnose visit.reports) =
        visit.recorded :=
      (visit.source.locateAll_outline 0 visit.reports).1
    rw [hnext, take_of_inactive hcurrent]
    refine ⟨visit.source.diagnose visit.reports, rfl, rfl, fun hbroken => ?_, fun forest => ?_⟩
    · simp [FileVisit.keeps, hbroken]
    · rw [← hrecorded]
      exact ⟨Diagnostic.outlineAll_injective, fun h => by rw [h]⟩

end DiagnosticLog
end Idl
