import Idl.Proofs.NodeSpans
import Idl.Proofs.ReportSpans

/-!
# Reports in one region of a file

Nodes beside one another share no place of the file, so the reports that begin in one of them are
those about this node, and they begin in a part of it exactly if they do so among the reports about
the node alone. What is reported about a map as a whole begins at its brace and in none of its
parts.
-/
namespace Idl
open Node

namespace Span

/-- The span begins inside the outer one. -/
def StartsIn (span outer : Span) : Prop :=
  outer.start ≤ span.start ∧ span.start < outer.stop

instance (span outer : Span) : Decidable (span.StartsIn outer) :=
  inferInstanceAs (Decidable (_ ∧ _))

variable {span inner outer next : Span}

theorem Within.refl (span : Span) : span.Within span :=
  ⟨le_rfl, le_rfl⟩

theorem Within.trans (h : span.Within inner) (h' : inner.Within outer) : span.Within outer :=
  ⟨h'.1.trans h.1, h.2.trans h'.2⟩

theorem Within.startsIn (h : span.Within outer) (hnonempty : span.start < span.stop) :
    span.StartsIn outer :=
  ⟨h.1, hnonempty.trans_le h.2⟩

theorem StartsIn.mono (h : span.StartsIn inner) (hinner : inner.Within outer) :
    span.StartsIn outer :=
  ⟨hinner.1.trans h.1, h.2.trans_le hinner.2⟩

theorem Before.not_startsIn (h : outer.Before next) (hspan : span.StartsIn outer) :
    ¬ span.StartsIn next :=
  fun hnext => Nat.not_lt.2 (h.trans hnext.1) hspan.2

/-- One of the spans lies behind the other. -/
def Apart (span other : Span) : Prop :=
  span.Before other ∨ other.Before span

theorem Before.not_startsIn_first (h : outer.Before next) (hspan : span.StartsIn next) :
    ¬ span.StartsIn outer :=
  fun houter => h.not_startsIn houter hspan

/-- What begins beside a span begins in no part of it. -/
theorem Apart.not_startsIn {part : Span} (h : outer.Apart next) (hspan : span.StartsIn outer)
    (hpart : part.Within next) : ¬ span.StartsIn part :=
  fun hin => h.elim (fun h => h.not_startsIn hspan (hin.mono hpart))
    fun h => h.not_startsIn_first hspan (hin.mono hpart)

instance : Std.Symm Apart :=
  ⟨fun _ _ => Or.symm⟩

/-- Two things in a list of things one behind the other are the same or lie apart. -/
theorem eq_or_apart {α : Type} {span : α → Span} {items : List α}
    (h : (items.map span).Pairwise Before) {item other : α} (hitem : item ∈ items)
    (hother : other ∈ items) : item = other ∨ (span item).Apart (span other) := by
  have hspans : (items.map span).Pairwise Apart := h.imp Or.inl
  by_cases heq : item = other
  · exact .inl heq
  · exact .inr ((List.pairwise_map.1 hspans).forall hitem hother heq)

end Span

/-- The reports that begin in a span. -/
def reportsIn (outer : Span) (reports : List Report) : List Report :=
  reports.filter fun report => report.span.StartsIn outer

variable {outer part : Span} {reports : List Report}

theorem mem_reportsIn {report : Report} :
    report ∈ reportsIn outer reports ↔ report ∈ reports ∧ report.span.StartsIn outer := by
  simp [reportsIn]

theorem reportsIn_append (reports others : List Report) :
    reportsIn outer (reports ++ others) = reportsIn outer reports ++ reportsIn outer others :=
  List.filter_append _ _

theorem reportsIn_eq_self (h : ∀ report ∈ reports, report.span.StartsIn outer) :
    reportsIn outer reports = reports :=
  List.filter_eq_self.2 fun report hreport => decide_eq_true (h report hreport)

theorem reportsIn_eq_nil (h : ∀ report ∈ reports, ¬ report.span.StartsIn outer) :
    reportsIn outer reports = [] :=
  List.filter_eq_nil_iff.2 fun report hreport => by simpa using h report hreport

/-- Among reports about things that lie one behind the other, those in a part of one thing are
about that thing. -/
theorem reportsIn_flatMap {things : List (Span × List Report)}
    (hbehind : (things.map Prod.fst).Pairwise Span.Before)
    (hstarts : ∀ thing ∈ things, ∀ report ∈ thing.2, report.span.StartsIn thing.1)
    {thing : Span × List Report} (hthing : thing ∈ things) (hpart : part.Within thing.1) :
    reportsIn part (things.flatMap Prod.snd) = reportsIn part thing.2 := by
  obtain ⟨before, after, rfl⟩ := List.append_of_mem hthing
  rw [List.pairwise_map] at hbehind
  obtain ⟨-, hafter, hbefore⟩ := List.pairwise_append.1 hbehind
  have hfirst : reportsIn part (before.flatMap Prod.snd) = [] := by
    refine reportsIn_eq_nil fun report hreport => ?_
    obtain ⟨other, hother, hreport⟩ := List.mem_flatMap.1 hreport
    have hapart : other.1.Apart thing.1 := .inl (hbefore other hother thing List.mem_cons_self)
    exact hapart.not_startsIn
      (hstarts other (List.mem_append_left _ hother) report hreport) hpart
  have hlast : reportsIn part (after.flatMap Prod.snd) = [] := by
    refine reportsIn_eq_nil fun report hreport => ?_
    obtain ⟨other, hother, hreport⟩ := List.mem_flatMap.1 hreport
    have hapart : other.1.Apart thing.1 := .inr ((List.pairwise_cons.1 hafter).1 other hother)
    exact hapart.not_startsIn
      (hstarts other (List.mem_append_right _ (List.mem_cons_of_mem _ hother)) report hreport) hpart
  rw [List.flatMap_append, List.flatMap_cons, reportsIn_append, reportsIn_append, hfirst, hlast,
    List.nil_append, List.append_nil]

/-! ### Nodes and reports -/

section

variable {source : Source} {parsed : ParsedDocument} (h : source.parse = .ok parsed)

include h

/-- Reports at nodes in a node lie inside it and begin there. -/
theorem Reporting.Within.inside {α : Type} {x : Reporting α} {node : Node}
    (hnode : node ∈ parsed.document.toNode.inner) (hx : x.Within (Marks node.nodes)) :
    ∀ report ∈ x.reports, report.span.Within node.span ∧ report.span.StartsIn node.span := by
  intro report hreport
  obtain ⟨other, hother, hspan⟩ := hx report hreport _ report.span_mem_spans
  obtain ⟨hwithin, hnonempty⟩ := Source.within_of_mem_nodes h hnode hother
  rw [hspan] at hwithin hnonempty
  exact ⟨hwithin, hwithin.startsIn hnonempty⟩

end

namespace Node

theorem exists_brace_of_spelled {node : Node} (hlabel : node.label = .map)
    {language : Language Token} (h : node.Spelled language) : ∃ entries span,
      node = (Expr.map entries span).toNode ∧ language = (Expr.map entries span).spellings := by
  cases h with
  | expr expr =>
    cases expr with
    | map entries span => exact ⟨entries, span, rfl, rfl⟩
    | _ => rw [Expr.toNode] at hlabel; cases hlabel
  | type type => cases type <;> cases hlabel
  | declaration declaration => cases declaration <;> cases hlabel
  | header header => cases header <;> cases hlabel
  | _ => cases hlabel

/-- The parts of a map begin behind its brace. -/
theorem Derived.start_lt_of_map {node : Node} {tokens : List Token}
    (hordered : Token.Ordered tokens) (h : node.Derived tokens) (hlabel : node.label = .map) :
    ∀ child ∈ node.children, node.span.start < child.span.start := by
  obtain ⟨rule, spelled, -⟩ := h
  obtain ⟨entries, span, rfl, rfl⟩ := exists_brace_of_spelled hlabel rule
  rw [Expr.spellings] at spelled
  obtain ⟨⟨_, ⟨_, ⟨brace, rfl⟩, middle, hmiddle, rfl⟩, closing, -, rfl⟩, hstart, -⟩ := spelled
  have hchildren : (Expr.map entries span).toNode.children =
      (Expr.toParts entries).flatMap Part.nodes := by
    rw [Expr.toNode]
    rfl
  intro child hchild
  rw [hchildren] at hchild
  obtain ⟨run, hrun, hderived⟩ :=
    (Expr.derives_entries entries middle hmiddle).exists_child child hchild
  obtain ⟨first, hfirst, -, -, hfirstStart, -⟩ := hderived.covers.exists_ends
  have hbrace : brace.start = span.start := Option.some.inj hstart
  have hnonempty : brace.start < brace.stop :=
    hordered.nonempty ⟨.mark .openBrace, brace⟩ (by simp)
  have hnext : brace.stop ≤ first.span.start :=
    (List.pairwise_cons.1 (List.pairwise_append.1 hordered.behind).1).1 first (hrun.subset hfirst)
  rw [Expr.span_toNode, Expr.span]
  omega

end Node

/-! ### Expressions -/

/-- The keys and values of some entries, in turns. -/
def Expr.entryParts (entries : List (Expr × Expr)) : List Expr :=
  entries.flatMap fun (key, value) => [key, value]

theorem Expr.children_list (elements : List Expr) (span : Span) :
    (Expr.list elements span).toNode.children = elements.map Expr.toNode := by
  rw [Expr.toNode, Expr.toNodes_eq]
  simp [Node.children]

theorem Expr.children_map (entries : List (Expr × Expr)) (span : Span) :
    (Expr.map entries span).toNode.children = (Expr.entryParts entries).map Expr.toNode := by
  rw [Expr.toNode]
  change (Expr.toParts entries).flatMap Part.nodes = _
  induction entries with
  | nil => rw [Expr.toParts]; rfl
  | cons entry entries ih =>
    obtain ⟨key, value⟩ := entry
    rw [Expr.toParts, List.flatMap_cons, List.flatMap_cons, ih]
    rfl

section

variable {source : Source} {parsed : ParsedDocument} (h : source.parse = .ok parsed)

include h

/-- The elements of a list, and the keys and values of a map, lie one behind the other. -/
theorem Expr.pairwise_of_children {node : Node} (hnode : node ∈ parsed.document.toNode.inner)
    {parts : List Expr} (hchildren : node.children = parts.map Expr.toNode) :
    (parts.map Expr.span).Pairwise Span.Before := by
  have hbehind := ((Source.spansExactly_of_parse h).1 node hnode).behind
  rw [hchildren, List.pairwise_map] at hbehind
  exact List.pairwise_map.2 (hbehind.imp fun hbefore => by
    rwa [Expr.span_toNode, Expr.span_toNode] at hbefore)

theorem Expr.start_lt_of_mem_entryParts {entries : List (Expr × Expr)} {span : Span}
    (hnode : (Expr.map entries span).toNode ∈ parsed.document.toNode.inner) :
    ∀ part ∈ Expr.entryParts entries, span.start < part.span.start := by
  intro part hpart
  obtain ⟨run, hrun, hderived⟩ := Source.exists_run_of_parse h _ hnode
  have hlabel : (Expr.map entries span).toNode.label = .map := by
    rw [Expr.toNode]
    rfl
  have hlt := hderived.start_lt_of_map (source.ordered_tokens.sublist hrun.sublist) hlabel
    part.toNode (by rw [Expr.children_map]; exact List.mem_map_of_mem hpart)
  rwa [Expr.span_toNode, Expr.span_toNode] at hlt

end

end Idl
