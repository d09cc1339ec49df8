import Idl.Diagnostic
import Idl.Proofs.NodeSpellings
import Idl.Proofs.Parsing

/-!
# Reports have places

A node of a syntax tree begins where a token does and ends where the same or a later token does,
which is between two characters of the file. So a report about it has a line and a column and
becomes a diagnostic.
-/
namespace Idl

theorem Text.le_size_of_isBoundary {n : Nat} {cs : List Char} (h : IsBoundary n cs) :
    n ≤ size cs := by
  induction cs generalizing n with
  | nil => cases n <;> simp_all [IsBoundary, drop?]
  | cons c cs ih =>
    cases n with
    | zero => exact Nat.zero_le _
    | succ n =>
      rw [IsBoundary, drop?] at h
      split at h
      · have := ih h
        rw [size_cons]
        omega
      · cases h

namespace Source

/-- The span runs from a place between two characters of the file to another one. -/
structure Locates (source : Source) (span : Span) : Prop where
  start : Text.IsBoundary span.start source.chars
  stop : Text.IsBoundary span.stop source.chars
  ordered : span.start ≤ span.stop

theorem Locates.stop_le {source : Source} {span : Span} (h : source.Locates span) :
    span.stop ≤ source.size :=
  Text.le_size_of_isBoundary h.stop

theorem Locates.lineColumn? {source : Source} {span : Span} (h : source.Locates span) :
    source.lineColumn? span.start = some (source.lineColumn span.start) := by
  have hboundary : Text.IsBoundary (min span.start source.size) source.chars := by
    rw [Nat.min_eq_left (h.ordered.trans h.stop_le)]
    exact h.start
  exact if_pos hboundary

theorem diagnose_ne_nil {source : Source} {report : Report} (h : source.Locates report.span)
    (reports : List Report) : source.diagnose (report :: reports) ≠ [] := by
  obtain ⟨severity, span, message, also⟩ := report
  have hlocation : source.lineColumn? span.start = some (source.lineColumn span.start) :=
    h.lineColumn?
  rw [diagnose, Report.locateAll, Report.locate?, hlocation]
  obtain ⟨notes, complete⟩ := Report.locateAll source also
  cases complete <;> simp

/-- Nothing is reported about a file only if there are no reports. -/
theorem diagnose_eq_nil_iff {source : Source} {reports : List Report}
    (h : ∀ report ∈ reports, source.Locates report.span) :
    source.diagnose reports = [] ↔ reports = [] := by
  cases reports with
  | nil => simp [diagnose, Report.locateAll]
  | cons report reports =>
    simp [diagnose_ne_nil (h report List.mem_cons_self) reports]

theorem locates_of_mem_tokens {source : Source} {token : Token} (h : token ∈ source.tokens) :
    source.Locates token.span := by
  obtain ⟨hstart, hstop⟩ := isBoundary_of_mem_tokens h
  refine ⟨hstart, hstop, ?_⟩
  obtain ⟨before, written, after, -, hspan⟩ := Token.exists_of_mem_readAll h
  rw [hspan]
  exact Nat.le_add_right _ _

/-- A span from the start of a token to the stop of the same or a later one. -/
theorem locates_of_tokens {source : Source} {first last : Token} {span : Span}
    (hfirst : first ∈ source.tokens) (hlast : last ∈ source.tokens)
    (hstart : first.span.start = span.start) (hstop : last.span.stop = span.stop)
    (horder : first = last ∨ [first, last].Sublist source.tokens) : source.Locates span := by
  have hfirst := locates_of_mem_tokens hfirst
  have hlast := locates_of_mem_tokens hlast
  refine ⟨hstart ▸ hfirst.start, hstop ▸ hlast.stop, ?_⟩
  rw [← hstart, ← hstop]
  rcases horder with rfl | horder
  · exact hfirst.ordered
  · have hpair := (Token.pairwise_readAll 0 source.chars).sublist horder
    have hnext := (List.rel_of_pairwise_cons hpair List.mem_cons_self).2
    exact (hfirst.ordered.trans hnext).trans hlast.ordered

/-- Every node of a tree other than the document lies between characters of the file. -/
theorem locates_of_marks {source : Source} {parsed : ParsedDocument}
    (hparsed : source.parse = .ok parsed) {span : Span}
    (h : Node.Marks parsed.document.toNode.inner span) : source.Locates span := by
  have hspec := source.parse_spec
  rw [hparsed] at hspec
  obtain ⟨node, hnode, rfl⟩ := h
  obtain ⟨part, hpart⟩ := parsed.document.spells node hnode
  obtain ⟨piece, hpiece, hsublist⟩ := hpart _ hspec.1
  have hsublist := hsublist.trans (List.dropLast_sublist source.tokens)
  obtain ⟨first, hfirst, last, hlast, hstart, hstop, horder⟩ := Spelling.exists_ends hpiece
  exact locates_of_tokens (hsublist.subset hfirst) (hsublist.subset hlast) hstart hstop
    (horder.imp_right fun horder => horder.trans hsublist)

end Source

/-- The path in an include directive begins between two characters. -/
theorem Source.locates_include {source : Source} {parsed : ParsedDocument}
    (hparsed : source.parse = .ok parsed) {directive : IncludeDirective}
    (h : directive ∈ parsed.document.includes) : source.Locates directive.path.span :=
  locates_of_marks hparsed (Document.contains_path h).marks

theorem Source.locates_failure {source : Source} {failure : ParseFailure}
    (h : source.parse = .error failure) : source.diagnose failure.reports ≠ [] := by
  obtain ⟨token, htoken, message, rfl⟩ := exists_token_of_parse_error h
  exact diagnose_ne_nil (locates_of_mem_tokens htoken) []

end Idl
