import Idl.Proofs.EnumNumbers
import Idl.Proofs.NodeSpans
import Idl.Proofs.ReportSpans
import Idl.Proofs.Reports

/-!
# What entering a file reports

Each scope of a file keeps the first declaration of a name and reports every later one, and each
enum reports the entries whose numbers do not fit into 32 bits. Scopes lie in one another and are
filled in turns, but the reports of a file are those of its scopes and of its enums and no others.
-/
namespace Idl

/-! ### One scope -/

namespace Scope

/-- The reports about the items of a scope that have the name of an item before them: each is at the
item, with the kind of the first item of that name and a note there. -/
def redeclarations (items : List Symbol) : List Report :=
  items.zipIdx.filterMap fun (item, place) =>
    ((items.take place).find? (·.name.text == item.name.text)).map fun first =>
      ⟨.error, item.name.span, .redeclared item.name.text first.kind,
        [⟨.note, first.name.span, .firstDeclared, []⟩]⟩

theorem reports_declare (scope : Scope) (symbol : Symbol) :
    (scope.declare symbol).reports =
      ((scope.find? symbol.name.text).map (redeclaration symbol)).toList := by
  unfold declare
  cases scope.find? symbol.name.text <;> rfl

theorem redeclarations_concat (items : List Symbol) (item : Symbol) :
    redeclarations (items ++ [item]) = redeclarations items ++
      ((items.find? (·.name.text == item.name.text)).map (redeclaration item)).toList := by
  have hbefore : ∀ other ∈ items.zipIdx,
      (((items ++ [item]).take other.2).find? (·.name.text == other.1.name.text)).map
          (redeclaration other.1) =
        ((items.take other.2).find? (·.name.text == other.1.name.text)).map
          (redeclaration other.1) := by
    intro other hother
    obtain ⟨hlt, -⟩ := List.getElem?_eq_some_iff.1 (List.mem_zipIdx_iff_getElem?.1 hother)
    rw [List.take_append_of_le_length hlt.le]
  rw [redeclarations, List.zipIdx_append, List.filterMap_append, redeclarations]
  congr 1
  · exact List.filterMap_congr hbefore
  · simp only [List.zipIdx_singleton, Nat.zero_add, List.take_left, List.filterMap_cons,
      List.filterMap_nil]
    cases items.find? (·.name.text == item.name.text) <;> rfl

/-- Declaring the items of a scope reports exactly its redeclarations: looking a name up among the
items that were kept finds the first item of that name among all. -/
theorem reports_foldlM_declare (items : List Symbol) :
    (items.foldlM declare []).reports = redeclarations items := by
  induction items using List.reverseRecOn with
  | nil => rfl
  | append_singleton items item ih =>
    -- Items that were refused are not in the scope, but the first of each name is.
    have hkept : (items.foldlM declare []).value.find? item.name.text =
        items.find? (·.name.text == item.name.text) := by
      rw [Reporting.value_foldlM]
      exact (find?_declareAll [] items item.name.text).trans rfl
    rw [List.foldlM_append, Reporting.reports_bind, ih, redeclarations_concat]
    change _ ++ ((Scope.declare _ item).reports ++ []) = _
    rw [List.append_nil, reports_declare, hkept]

theorem redeclarations_eq_nil_iff (items : List Symbol) :
    redeclarations items = [] ↔ (items.map (·.name.text)).Nodup := by
  have hsilent := silent_declareAll_iff [] items
  rw [Reporting.Silent, reports_foldlM_declare] at hsilent
  exact hsilent.trans (and_iff_left fun _ _ => rfl)

theorem reports_ofNames {α : Type} (name : α → Identifier) (kind : String) (items : List α) :
    (ofNames kind (items.map name)).reports =
      redeclarations (placed name (fun _ => kind) 0 items) := by
  rw [ofNames_eq_placed, reports_foldlM_declare, placed, placed, List.zipIdx_map, List.map_map]
  rfl

/-- A fold that declares one name at each step, and reports something else besides, reports what
declaring the names alone does and the rest. -/
theorem perm_reports_foldlM {α β : Type} {f : β → α → Reporting β} {view : β → Scope}
    {symbol : α → Symbol} {besides : α → List Report}
    (hvalue : ∀ b item, view (f b item).value = ((view b).declare (symbol item)).value)
    (hreports : ∀ b item, (f b item).reports.Perm
      (((view b).declare (symbol item)).reports ++ besides item)) (items : List α) (b : β) :
    (items.foldlM f b).reports.Perm
      (((items.map symbol).foldlM declare (view b)).reports ++ items.flatMap besides) := by
  induction items generalizing b with
  | nil => exact .refl _
  | cons item items ih =>
    have hrest := ih (f b item).value
    rw [hvalue] at hrest
    simp only [List.map_cons, List.foldlM_cons, Reporting.reports_bind, List.flatMap_cons]
    refine ((hreports b item).append hrest).trans ?_
    rw [List.append_assoc, List.append_assoc]
    exact (List.perm_append_comm_assoc _ _ _).append_left _

end Scope

/-! ### The scopes of a file -/

/-- The scopes inside a declaration. Arguments and exceptions of a method share one. -/
def Declaration.scopes : Declaration → List (List Symbol)
  | constant _ => []
  | typedef _ => []
  | enum d => [Scope.placed (·.name) (fun _ => "enum entry") 0 d.entries]
  | struct d => [Scope.placed (·.name) (fun _ => "field") 0 d.fields]
  | service d =>
    Scope.placed (·.name) (fun _ => "method") 0 d.methods ::
      d.methods.map fun method =>
        Scope.placed (·.name) (fun _ => "argument") 0 (method.arguments ++ method.throws)

/-- All scopes of a file: that of its declarations, of whatever kind, and those inside them. -/
def Document.scopes (document : Document) : List (List Symbol) :=
  Scope.placed (·.name) (·.kind) 0 document.declarations ::
    document.declarations.flatMap Declaration.scopes

namespace EnumProgress

theorem reports_enter (progress : EnumProgress) (entry : EnumEntry) (index : Nat) :
    (progress.enter entry index).reports =
      (entry.misfit? ((entry.value.map (·.value)).getD progress.next)).toList ++
        (progress.scope.declare ⟨entry.name, "enum entry", index⟩).reports := by
  unfold enter EnumEntry.misfit?
  split <;> simp_all

/-- The reports of entering some entries are those about their numbers and those about their
names, in turns. -/
theorem perm_reports_foldlM_enter (progress : EnumProgress) (start : Nat)
    (entries : List EnumEntry) :
    ((entries.zipIdx start).foldlM
        (fun progress (entry, index) => EnumProgress.enter progress entry index)
        progress).reports.Perm
      ((numberEntries progress.next entries).filterMap
          (fun numbered : EnumEntry × Int => numbered.1.misfit? numbered.2) ++
        ((Scope.placed EnumEntry.name (fun _ => "enum entry") start entries).foldlM Scope.declare
          progress.scope).reports) := by
  induction entries generalizing progress start with
  | nil => exact .refl _
  | cons entry entries ih =>
    have hrest := ih (progress.enter entry start).value (start + 1)
    simp only [value_enter] at hrest
    rw [List.zipIdx_cons, List.foldlM_cons, Reporting.reports_bind, Scope.placed_cons,
      List.foldlM_cons, Reporting.reports_bind, numberEntries, List.filterMap_eq_flatMap_toList,
      List.flatMap_cons, ← List.filterMap_eq_flatMap_toList, reports_enter]
    simp only [value_enter]
    refine (hrest.append_left _).trans ?_
    rw [List.append_assoc, List.append_assoc]
    exact (List.perm_append_comm_assoc _ _ _).append_left _

end EnumProgress

/-! ### A file -/

theorem perm_reports_enterEnum (decl : EnumDecl) :
    (enterEnum decl).reports.Perm
      (decl.misfits ++ (Declaration.enum decl).scopes.flatMap Scope.redeclarations) := by
  have hentries := EnumProgress.perm_reports_foldlM_enter ⟨[], [], 0⟩ 0 decl.entries
  rw [Scope.reports_foldlM_declare] at hentries
  rw [enterEnum, Reporting.reports_bind, Reporting.reports_pure, List.append_nil,
    Declaration.scopes, List.flatMap_singleton, EnumDecl.misfits_eq_filterMap_numbered]
  exact hentries

theorem perm_reports_enterService (decl : ServiceDecl) :
    (enterService decl).reports.Perm
      ((Declaration.service decl).scopes.flatMap Scope.redeclarations) := by
  let arguments := fun method : Method =>
    Scope.placed Argument.name (fun _ => "argument") 0 (method.arguments ++ method.throws)
  have hmethods := @Scope.perm_reports_foldlM (Method × Nat) Scope
    (fun scope item => do
      let scope ← Scope.declare scope ⟨item.1.name, "method", item.2⟩
      let _ ← Scope.ofNames "argument" ((item.1.arguments ++ item.1.throws).map (·.name))
      return scope)
    id (fun item => ⟨item.1.name, "method", item.2⟩)
    (fun item => Scope.redeclarations (arguments item.1)) (fun _ _ => rfl)
    (fun scope item => by
      rw [Reporting.reports_bind, Reporting.reports_bind, Reporting.reports_pure, List.append_nil,
        Scope.reports_ofNames]
      exact .refl _)
    decl.methods.zipIdx []
  have hinner : (decl.methods.zipIdx.flatMap fun item => Scope.redeclarations (arguments item.1)) =
      (decl.methods.map arguments).flatMap Scope.redeclarations := by
    rw [List.flatMap_map]
    exact Reporting.flatMap_fst_zipIdx (fun method => Scope.redeclarations (arguments method))
      decl.methods
  rw [enterService, Reporting.reports_bind, Reporting.reports_pure, List.append_nil,
    Declaration.scopes, List.flatMap_cons, ← Scope.reports_foldlM_declare]
  rw [hinner] at hmethods
  exact hmethods

theorem perm_reports_enterMembers (declaration : Declaration) :
    (enterMembers declaration).reports.Perm
      (declaration.misfits ++ declaration.scopes.flatMap Scope.redeclarations) := by
  cases declaration with
  | constant decl => exact .refl _
  | typedef decl => exact .refl _
  | enum decl => exact perm_reports_enterEnum decl
  | struct decl =>
    have hfields : (enterStruct decl).reports =
        Scope.redeclarations (Scope.placed Field.name (fun _ => "field") 0 decl.fields) := by
      rw [enterStruct, Reporting.reports_bind, Reporting.reports_pure, List.append_nil,
        Scope.reports_ofNames]
    rw [enterMembers, hfields]
    simp [Declaration.misfits, Declaration.scopes]
  | service decl => exact perm_reports_enterService decl

/-- The reports of entering a file are those about the numbers of its enums and those about the
names in its scopes. -/
theorem perm_reports_enterSymbols (document : Document) :
    (enterSymbols document).reports.Perm
      (document.declarations.flatMap Declaration.misfits ++
        document.scopes.flatMap Scope.redeclarations) := by
  have hdeclarations := @Scope.perm_reports_foldlM (Declaration × Nat) Symbols
    (fun symbols item => Symbols.enter symbols item.1 item.2)
    (·.names) (fun item => ⟨item.1.name, item.1.kind, item.2⟩)
    (fun item => (enterMembers item.1).reports) (fun _ _ => rfl)
    (fun symbols item => by
      simp only [Symbols.enter, Reporting.reports_bind, Reporting.reports_pure, List.append_nil]
      exact .refl _)
    document.declarations.zipIdx ⟨[], []⟩
  rw [Reporting.flatMap_fst_zipIdx fun declaration => (enterMembers declaration).reports]
    at hdeclarations
  have hmembers : (document.declarations.flatMap fun declaration =>
      (enterMembers declaration).reports).Perm
      (document.declarations.flatMap Declaration.misfits ++
        (document.declarations.flatMap Declaration.scopes).flatMap Scope.redeclarations) := by
    rw [List.flatMap_assoc]
    refine List.Perm.trans ?_ (List.flatMap_append_perm _ _ _).symm
    exact List.Perm.flatMap_left _ fun declaration _ => perm_reports_enterMembers declaration
  rw [Document.scopes, List.flatMap_cons, ← Scope.reports_foldlM_declare]
  refine hdeclarations.trans ((hmembers.append_left _).trans ?_)
  exact List.perm_append_comm_assoc _ _ _

/-! ### The two kinds of reports -/

/-- The report says that a number does not fit. -/
def Report.isMisfit (report : Report) : Bool :=
  report.message matches .i32Range _

/-- The report says that a name was declared before. -/
def Report.isRedeclaration (report : Report) : Bool :=
  report.message matches .redeclared _ _

theorem message_of_mem_misfits (document : Document) :
    ∀ report ∈ document.declarations.flatMap Declaration.misfits,
      ∃ number, report.message = .i32Range number := by
  intro report hreport
  obtain ⟨declaration, -, hreport⟩ := List.mem_flatMap.1 hreport
  obtain ⟨decl, -, place, entry, -, hreport⟩ := mem_misfits_iff.1 hreport
  obtain ⟨-, rfl⟩ := (EnumEntry.misfit?_eq_some_iff _ _ _).1 hreport
  exact ⟨_, rfl⟩

theorem message_of_mem_redeclarations (scopes : List (List Symbol)) :
    ∀ report ∈ scopes.flatMap Scope.redeclarations,
      ∃ name kind, report.message = .redeclared name kind := by
  intro report hreport
  obtain ⟨scope, -, hreport⟩ := List.mem_flatMap.1 hreport
  obtain ⟨⟨item, place⟩, -, hreport⟩ := List.mem_filterMap.1 hreport
  obtain ⟨first, -, rfl⟩ := Option.map_eq_some_iff.1 hreport
  exact ⟨_, _, rfl⟩

theorem perm_filter_of_perm_append {p : Report → Bool} {all wanted others : List Report}
    (h : all.Perm (wanted ++ others)) (hwanted : ∀ report ∈ wanted, p report)
    (hothers : ∀ report ∈ others, ¬ p report) : (all.filter p).Perm wanted := by
  have hperm := h.filter p
  rwa [List.filter_append, List.filter_eq_self.2 hwanted, List.filter_eq_nil_iff.2 hothers,
    List.append_nil] at hperm

theorem filter_isMisfit_enterSymbols (document : Document) :
    ((enterSymbols document).reports.filter Report.isMisfit).Perm
      (document.declarations.flatMap Declaration.misfits) := by
  refine perm_filter_of_perm_append (perm_reports_enterSymbols document)
    (fun report hreport => ?_) (fun report hreport => ?_)
  · obtain ⟨number, hmessage⟩ := message_of_mem_misfits document report hreport
    simp [Report.isMisfit, hmessage]
  · obtain ⟨name, kind, hmessage⟩ := message_of_mem_redeclarations _ report hreport
    simp [Report.isMisfit, hmessage]

theorem filter_isRedeclaration_enterSymbols (document : Document) :
    ((enterSymbols document).reports.filter Report.isRedeclaration).Perm
      (document.scopes.flatMap Scope.redeclarations) := by
  refine perm_filter_of_perm_append
    ((perm_reports_enterSymbols document).trans List.perm_append_comm)
    (fun report hreport => ?_) (fun report hreport => ?_)
  · obtain ⟨name, kind, hmessage⟩ := message_of_mem_redeclarations _ report hreport
    simp [Report.isRedeclaration, hmessage]
  · obtain ⟨number, hmessage⟩ := message_of_mem_misfits document report hreport
    simp [Report.isRedeclaration, hmessage]

/-- Numbering of enums. Each enum of a file keeps, place by place, the number of its entry if it
fits into 32 bits, whether the name of the entry is new or not. Every other number is reported
once, at its literal or else at the name, and counting goes on from it all the same. -/
theorem enterSymbols_numbers (document : Document) :
    (∀ index decl, document.declarations[index]? = some (.enum decl) →
      (∃ entries, (enterSymbols document).value.enum? index = some (entries,
        decl.entries.zipIdx.map fun (entry, place) => representable (decl.number place entry))) ∧
      ∀ place entry, decl.entries[place]? = some entry →
        decl.count (place + 1) = min (decl.number place entry + 1) 0x7FFFFFFFFFFFFFFF) ∧
    ((enterSymbols document).reports.filter Report.isMisfit).Perm
      (document.declarations.flatMap Declaration.misfits) := by
  refine ⟨fun index decl hdecl => ⟨?_, fun place entry => EnumDecl.count_succ⟩,
    filter_isMisfit_enterSymbols document⟩
  obtain ⟨entries, henum, -⟩ := enum?_enterSymbols hdecl
  exact ⟨entries, henum⟩

/-- The file `enum E { A = 9223372036854775807 A B = -2 C }`. -/
def climbingEnum : Document where
  namespaces := []
  includes := []
  declarations := [.enum ⟨⟨"E", ⟨5, 6⟩⟩,
    [⟨⟨"A", ⟨9, 10⟩⟩, some ⟨9223372036854775807, ⟨13, 32⟩⟩, ⟨9, 32⟩⟩,
      ⟨⟨"A", ⟨33, 34⟩⟩, none, ⟨33, 34⟩⟩,
      ⟨⟨"B", ⟨35, 36⟩⟩, some ⟨-2, ⟨39, 41⟩⟩, ⟨35, 41⟩⟩,
      ⟨⟨"C", ⟨42, 43⟩⟩, none, ⟨42, 43⟩⟩], ⟨0, 45⟩⟩]
  span := ⟨0, 45⟩

/-- Counting stays at the largest number of 64 bits and is in range again behind a literal. -/
theorem numbers_climbingEnum :
    (∃ entries, (enterSymbols climbingEnum).value.enum? 0 =
      some (entries, [none, none, some (-2), some (-1)])) ∧
    ((enterSymbols climbingEnum).reports.filter Report.isMisfit).Perm
      [.error ⟨13, 32⟩ (.i32Range 9223372036854775807),
        .error ⟨33, 34⟩ (.i32Range 9223372036854775807)] := by
  obtain ⟨hkept, hreports⟩ := enterSymbols_numbers climbingEnum
  obtain ⟨⟨entries, henum⟩, -⟩ := hkept 0 _ rfl
  exact ⟨⟨entries, henum⟩, hreports⟩

end Idl
