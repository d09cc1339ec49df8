import Idl.Proofs.Located
import Idl.Proofs.ReportSpans

/-!
# Reports become diagnostics

Reports that lie between characters of a file all become diagnostics, with all their notes, at the
line and column where they begin.
-/
namespace Idl

theorem Report.mem_spansAll {span : Span} {reports : List Report} :
    span ∈ spansAll reports ↔ ∃ report ∈ reports, span ∈ report.spans := by
  induction reports with
  | nil => simp [spansAll]
  | cons report reports ih => simp [spansAll, ih]

namespace Source

mutual

/-- A report about the file, with its place. -/
def place (source : Source) : Report → Diagnostic
  | ⟨severity, span, message, also⟩ =>
    ⟨severity, source.path, span, source.lineColumn span.start, message, source.placeAll also⟩

def placeAll (source : Source) : List Report → List Diagnostic
  | [] => []
  | report :: reports => source.place report :: source.placeAll reports

end

theorem placeAll_eq_map (source : Source) (reports : List Report) :
    source.placeAll reports = reports.map source.place := by
  induction reports with
  | nil => rw [placeAll, List.map_nil]
  | cons report reports ih => rw [placeAll, List.map_cons, ih]

theorem span_place (source : Source) (report : Report) :
    (source.place report).span = report.span := by
  obtain ⟨severity, span, message, also⟩ := report
  rw [place]

mutual

theorem locate?_eq_place {source : Source} :
    ∀ report : Report, (∀ span ∈ report.spans, source.Locates span) →
      report.locate? source = some (source.place report, true)
  | ⟨severity, span, message, also⟩, h => by
    rw [Report.spans, List.forall_mem_cons] at h
    rw [Report.locate?, h.1.lineColumn?, place]
    simp only [locateAll_eq_placeAll also h.2]

theorem locateAll_eq_placeAll {source : Source} :
    ∀ reports : List Report, (∀ span ∈ Report.spansAll reports, source.Locates span) →
      Report.locateAll source reports = (source.placeAll reports, true)
  | [], _ => by rw [Report.locateAll, placeAll]
  | report :: reports, h => by
    rw [Report.spansAll, List.forall_mem_append] at h
    rw [Report.locateAll, locate?_eq_place report h.1, placeAll]
    simp only [locateAll_eq_placeAll reports h.2]

end

theorem diagnose_eq_map {source : Source} {reports : List Report}
    (h : ∀ report ∈ reports, ∀ span ∈ report.spans, source.Locates span) :
    source.diagnose reports = reports.map source.place := by
  have hall : ∀ span ∈ Report.spansAll reports, source.Locates span := by
    intro span hspan
    obtain ⟨report, hreport, hspan⟩ := Report.mem_spansAll.1 hspan
    exact h report hreport span hspan
  rw [diagnose, locateAll_eq_placeAll reports hall, placeAll_eq_map]

/-- Nothing that a step reports about nodes of a file is lost. -/
theorem diagnose_of_within {source : Source} {parsed : ParsedDocument}
    (hparsed : source.parse = .ok parsed) {α : Type} {x : Reporting α}
    (h : x.Within (Node.Marks parsed.document.toNode.inner)) :
    source.diagnose x.reports = x.reports.map source.place :=
  diagnose_eq_map fun report hreport span hspan =>
    locates_of_marks hparsed (h report hreport span hspan)

end Source

end Idl
