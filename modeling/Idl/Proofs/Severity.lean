import Idl.Proofs.Reports

/-!
# Every report is an error

Notes stand only under other reports. So the reports of every phase are errors at top level, and
the number of errors is the number of diagnostics.
-/
namespace Idl

open Reporting

def Report.IsError (report : Report) : Prop :=
  report.severity = .error

theorem coversFaults_isError : CoversFaults Report.IsError :=
  fun _ _ _ => rfl

theorem coversOthers_isError : CoversOthers Report.IsError :=
  fun _ _ _ => rfl

/-! ### Symbols and bindings -/

theorem Scope.all_declare (scope : Scope) (symbol : Symbol) :
    (scope.declare symbol).All Report.IsError := by
  unfold Scope.declare
  split
  · refine All.bind (all_report ?_) fun _ => all_pure _
    rfl
  · exact all_pure _

theorem Scope.all_ofNames (kind : String) (names : List Identifier) :
    (Scope.ofNames kind names).All Report.IsError :=
  all_foldlM (fun scope _ _ => Scope.all_declare scope _) []

theorem EnumProgress.all_enter (progress : EnumProgress) (entry : EnumEntry) (index : Nat) :
    (progress.enter entry index).All Report.IsError := by
  have hdeclare : ∀ values next, (do
      let scope ← progress.scope.declare ⟨entry.name, "enum entry", index⟩
      return (⟨scope, values, next⟩ : EnumProgress)).All Report.IsError :=
    fun values next => (progress.scope.all_declare _).bind fun _ => all_pure _
  exact (hdeclare _ _).ite (All.bind (all_error rfl) fun _ => hdeclare _ _)

theorem all_enterMembers (declaration : Declaration) :
    (enterMembers declaration).All Report.IsError := by
  cases declaration with
  | constant decl => exact all_pure _
  | typedef decl => exact all_pure _
  | enum decl =>
    exact (all_foldlM (fun progress _ _ => progress.all_enter _ _) _).bind fun _ => all_pure _
  | struct decl => exact (Scope.all_ofNames _ _).bind fun _ => all_pure _
  | service decl =>
    refine (all_foldlM (fun scope _ _ => ?_) _).bind fun _ => all_pure _
    exact (Scope.all_declare scope _).bind fun _ =>
      (Scope.all_ofNames _ _).bind fun _ => all_pure _

theorem all_enterSymbols (document : Document) :
    (enterSymbols document).All Report.IsError :=
  all_foldlM (fun symbols _ _ => (symbols.names.all_declare _).bind fun _ =>
    (all_enterMembers _).bind fun _ => all_pure _) _

theorem all_bindNames (symbols : Table Symbols) (number : Nat) (tree : SourceTree) :
    (bindNames symbols number tree).All Report.IsError := by
  refine all_foldlM (fun bindings name _ => ?_) _
  unfold bindName
  split
  · exact all_pure _
  · exact all_pure _
  · exact All.bind (all_error rfl) fun _ => all_pure _
  · exact All.bind (all_error rfl) fun _ => all_pure _
  · exact All.bind (all_error rfl) fun _ => all_pure _

/-! ### Checks -/

namespace Resolver

variable (resolver : Resolver) (here : Nat)

theorem all_checkMethod (method : Method) :
    (resolver.checkMethod here method).All Report.IsError := by
  rw [all_checkMethod_iff]
  have haffirm := resolver.all_affirmType here coversFaults_isError
  exact ⟨haffirm _, resolver.all_checkVoid here coversFaults_isError _ _,
    fun _ => all_checkOneway coversOthers_isError _,
    fun _ _ => resolver.all_checkValueType here coversFaults_isError _,
    all_checkOrdering coversOthers_isError _ _,
    fun _ _ => ⟨haffirm _, fun _ => resolver.all_checkException here coversFaults_isError _⟩,
    all_checkOrdering coversOthers_isError _ _⟩

theorem all_checkDeclaration (index : Nat) (values : Values) (declaration : Declaration) :
    (resolver.checkDeclaration here index values declaration).All Report.IsError := by
  cases declaration with
  | enum decl => exact all_pure _
  | typedef decl =>
    exact (resolver.all_checkTypedef here coversFaults_isError index decl).bind fun _ => all_pure _
  | constant decl =>
    refine All.bind ?_ fun _ => all_pure _
    exact (resolver.all_checkConstant_iff here coversOthers_isError decl).2
      (resolver.all_checkValueType here coversFaults_isError _)
  | struct decl =>
    refine All.bind ?_ fun _ => all_pure _
    exact (resolver.all_checkStruct_iff here coversOthers_isError decl).2
      fun _ _ => resolver.all_checkValueType here coversFaults_isError _
  | service decl =>
    refine All.bind ?_ fun _ => all_pure _
    exact (resolver.all_checkService_iff here decl).2
      ⟨fun _ _ => resolver.all_checkParent here coversFaults_isError _,
        fun _ _ => resolver.all_checkMethod here _⟩

theorem all_checkTypes (document : Document) :
    (resolver.checkTypes here document).All Report.IsError :=
  (resolver.all_checkTypes_iff here document).2 fun index declaration _ =>
    resolver.all_checkDeclaration here index .empty declaration

theorem all_checkCycles (document : Document) :
    (resolver.checkCycles here document).All Report.IsError := by
  refine (all_forM_iff _ _).2 fun ⟨declaration, index⟩ _ => ?_
  cases declaration with
  | struct decl =>
    simp only [checkStructCycle]
    split
    · exact all_error rfl
    · exact all_pure _
  | service decl =>
    simp only [checkServiceCycle]
    split
    · exact All.ite (all_error rfl) (all_pure _)
    · exact all_pure _
  | _ => exact all_pure _

end Resolver

theorem all_checkUnused (tree : SourceTree) (bindings : Bindings) :
    (checkUnused tree bindings).All Report.IsError :=
  (all_forM_iff _ _).2 fun _ _ => (all_pure _).ite (all_error rfl)

/-! ### Diagnostics -/

theorem Report.severity_locate? {source : Source} {report : Report} {diagnostic : Diagnostic}
    {complete : Bool} (h : report.locate? source = some (diagnostic, complete)) :
    diagnostic.severity = report.severity := by
  obtain ⟨severity, span, message, also⟩ := report
  rw [locate?] at h
  split at h
  · cases h
  · obtain ⟨rfl, -⟩ := Prod.mk.inj (Option.some.inj h)
    rfl

theorem Report.message_locate? {source : Source} {report : Report} {diagnostic : Diagnostic}
    {complete : Bool} (h : report.locate? source = some (diagnostic, complete)) :
    diagnostic.message = report.message := by
  obtain ⟨severity, span, message, also⟩ := report
  rw [locate?] at h
  split at h
  · cases h
  · obtain ⟨rfl, -⟩ := Prod.mk.inj (Option.some.inj h)
    rfl

/-- Every diagnostic comes from a report. -/
theorem Source.exists_report_of_mem_diagnose {source : Source} {reports : List Report}
    {diagnostic : Diagnostic} (h : diagnostic ∈ source.diagnose reports) :
    ∃ report ∈ reports, diagnostic.severity = report.severity ∧
      diagnostic.message = report.message := by
  rw [diagnose] at h
  induction reports with
  | nil =>
    rw [Report.locateAll] at h
    exact absurd h List.not_mem_nil
  | cons report reports ih =>
    rw [Report.locateAll] at h
    split at h
    · exact absurd h List.not_mem_nil
    · next hlocate =>
      obtain rfl := List.mem_singleton.1 h
      exact ⟨report, List.mem_cons_self, Report.severity_locate? hlocate,
        Report.message_locate? hlocate⟩
    · next hlocate =>
      rcases List.mem_cons.1 h with rfl | h
      · exact ⟨report, List.mem_cons_self, Report.severity_locate? hlocate,
          Report.message_locate? hlocate⟩
      · obtain ⟨other, hother, hsame⟩ := ih h
        exact ⟨other, List.mem_cons_of_mem _ hother, hsame⟩

/-- Diagnostics at top level. -/
def OnlyErrors (diagnostics : List Diagnostic) : Prop :=
  ∀ diagnostic ∈ diagnostics, diagnostic.severity = .error

theorem OnlyErrors.append {first second : List Diagnostic} (hfirst : OnlyErrors first)
    (hsecond : OnlyErrors second) : OnlyErrors (first ++ second) := by
  intro diagnostic hdiagnostic
  rcases List.mem_append.1 hdiagnostic with hmem | hmem
  · exact hfirst diagnostic hmem
  · exact hsecond diagnostic hmem

theorem OnlyErrors.errorCount_eq {diagnostics : List Diagnostic} (h : OnlyErrors diagnostics) :
    Diagnostic.errorCount diagnostics = diagnostics.length :=
  List.countP_eq_length.2 fun diagnostic hdiagnostic => decide_eq_true (h diagnostic hdiagnostic)

theorem onlyErrors_locateAll (source : Source) {reports : List Report}
    (h : ∀ report ∈ reports, report.IsError) :
    OnlyErrors (Report.locateAll source reports).1 := by
  intro diagnostic hdiagnostic
  obtain ⟨report, hreport, hseverity, -⟩ := Source.exists_report_of_mem_diagnose hdiagnostic
  exact hseverity.trans (h report hreport)

theorem Reporting.All.onlyErrors {α : Type} {x : Reporting α} (h : x.All Report.IsError)
    (source : Source) : OnlyErrors (source.diagnose x.reports) :=
  onlyErrors_locateAll source h

theorem Program.onlyErrors_forTrees {α : Type} (program : Program) (numbers : List Nat)
    {f : Nat → SourceTree → Reporting α} (h : ∀ number tree, (f number tree).All Report.IsError) :
    OnlyErrors (program.forTrees numbers f).2 := by
  intro diagnostic hdiagnostic
  obtain ⟨⟨number, result⟩, hresult, hmem⟩ := List.mem_flatMap.1 hdiagnostic
  obtain ⟨other, -, hother⟩ := List.mem_filterMap.1 hresult
  obtain ⟨tree, htree, heq⟩ := Option.map_eq_some_iff.1 hother
  obtain ⟨rfl, rfl⟩ := Prod.mk.inj heq
  simp only [Program.diagnose, htree] at hmem
  exact (h other tree).onlyErrors tree.source diagnostic hmem

/-- Whatever the phases before it found, a phase reports nothing but errors. -/
theorem Phase.onlyErrors_run (phase : Phase) (program : Program) (analysis : Analysis) :
    OnlyErrors (phase.run program analysis).2 := by
  cases phase with
  | enterSymbols => exact program.onlyErrors_forTrees _ fun _ tree => all_enterSymbols tree.document
  | bindNames => exact program.onlyErrors_forTrees _ (all_bindNames analysis.symbols)
  | checkTypes =>
    exact program.onlyErrors_forTrees _ fun number tree =>
      (analysis.resolver program).all_checkTypes number tree.document
  | checkCycles =>
    exact program.onlyErrors_forTrees _ fun number tree =>
      (analysis.resolver program).all_checkCycles number tree.document
  | checkUnused => exact program.onlyErrors_forTrees _ fun _ tree => all_checkUnused tree _

/-- A phase without errors has no diagnostics. -/
theorem Phase.errorCount_run_eq_zero_iff (phase : Phase) (program : Program)
    (analysis : Analysis) :
    Diagnostic.errorCount (phase.run program analysis).2 = 0 ↔
      (phase.run program analysis).2 = [] := by
  rw [(phase.onlyErrors_run program analysis).errorCount_eq, List.length_eq_zero_iff]

end Idl
