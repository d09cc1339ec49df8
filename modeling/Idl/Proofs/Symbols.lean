import Idl.Proofs.Scopes

/-!
# What entering symbols gives

Looking up a name gives its first declaration. The members of a declaration are those that the
declaration alone would give, and a file is entered silently only if each declaration is.
-/
namespace Idl

/-- Entries with the numbers they stand for; an entry without a literal gets `next`. -/
def numberEntries : Int → List EnumEntry → List (EnumEntry × Int)
  | _, [] => []
  | next, entry :: entries =>
    let value := (entry.value.map (·.value)).getD next
    (entry, value) :: numberEntries (nextEnumValue value) entries

/-- The entries of an enum, numbered from zero. -/
def EnumDecl.numbered (decl : EnumDecl) : List (EnumEntry × Int) :=
  numberEntries 0 decl.entries

theorem map_fst_numberEntries (next : Int) (entries : List EnumEntry) :
    (numberEntries next entries).map Prod.fst = entries := by
  induction entries generalizing next with
  | nil => rfl
  | cons entry entries ih => simp [numberEntries, ih]

@[simp] theorem EnumDecl.map_fst_numbered (decl : EnumDecl) :
    decl.numbered.map Prod.fst = decl.entries :=
  map_fst_numberEntries 0 decl.entries

/-- Numbers out of range are not kept. -/
def representable (value : Int) : Option Int :=
  if FitsI32 value then some value else none

theorem representable_eq_some_iff (value number : Int) :
    representable value = some number ↔ FitsI32 value ∧ value = number := by
  unfold representable
  split <;> simp_all

namespace EnumProgress

theorem value_enter (progress : EnumProgress) (entry : EnumEntry) (index : Nat) :
    (progress.enter entry index).value =
      ⟨(progress.scope.declare ⟨entry.name, "enum entry", index⟩).value,
        progress.values ++ [representable ((entry.value.map (·.value)).getD progress.next)],
        nextEnumValue ((entry.value.map (·.value)).getD progress.next)⟩ := by
  by_cases h : FitsI32 ((entry.value.map (·.value)).getD progress.next) <;>
    simp [enter, representable, h]

theorem silent_enter_iff (progress : EnumProgress) (entry : EnumEntry) (index : Nat) :
    (progress.enter entry index).Silent ↔
      FitsI32 ((entry.value.map (·.value)).getD progress.next) ∧
        (progress.scope.declare ⟨entry.name, "enum entry", index⟩).Silent := by
  by_cases h : FitsI32 ((entry.value.map (·.value)).getD progress.next)
  · simp [enter, Reporting.Silent, h]
  · simp [enter, Reporting.Silent, h]

/-- The scope of a fold over entries is that of their names, and the values are their numbers as
far as they are representable. -/
theorem value_foldlM_enter (progress : EnumProgress) (start : Nat) (entries : List EnumEntry) :
    ((entries.zipIdx start).foldlM
        (fun progress (entry, index) => EnumProgress.enter progress entry index)
        progress).value.scope =
        progress.scope.declareAll
          (Scope.placed (·.name) (fun _ => "enum entry") start entries) ∧
      ((entries.zipIdx start).foldlM
        (fun progress (entry, index) => EnumProgress.enter progress entry index)
        progress).value.values =
        progress.values ++
          (numberEntries progress.next entries).map fun numbered => representable numbered.2 := by
  induction entries generalizing progress start with
  | nil => simp [Scope.declareAll, numberEntries]
  | cons entry entries ih =>
    rw [List.zipIdx_cons, List.foldlM_cons, Reporting.value_bind]
    obtain ⟨hscope, hvalues⟩ := ih (progress.enter entry start).value (start + 1)
    rw [hscope, hvalues, value_enter]
    constructor
    · rfl
    · simp [numberEntries]

theorem silent_foldlM_enter_iff (progress : EnumProgress) (start : Nat)
    (entries : List EnumEntry) :
    ((entries.zipIdx start).foldlM
        (fun progress (entry, index) => EnumProgress.enter progress entry index) progress).Silent ↔
      (∀ numbered ∈ numberEntries progress.next entries, FitsI32 numbered.2) ∧
        ((Scope.placed (·.name) (fun _ => "enum entry") start entries).foldlM Scope.declare
          progress.scope).Silent := by
  induction entries generalizing progress start with
  | nil => simp [numberEntries, Reporting.silent_pure]
  | cons entry entries ih =>
    rw [List.zipIdx_cons, List.foldlM_cons, Reporting.silent_bind_iff, ih, silent_enter_iff,
      value_enter, Scope.placed_cons, List.foldlM_cons, Reporting.silent_bind_iff]
    simp only [numberEntries, List.forall_mem_cons]
    tauto

end EnumProgress

/-- An enum entered silently gives each entry, under its own name, the number it stands for. -/
theorem enterEnum_of_silent (decl : EnumDecl) (h : (enterEnum decl).Silent) :
    ∃ entries values, (enterEnum decl).value = .enum entries values ∧
      ∀ name, ((entries.lookup name).map fun index => values[index]?.join) =
        (decl.numbered.find? (·.1.name.text == name)).map fun numbered => some numbered.2 := by
  have hsilent := (EnumProgress.silent_foldlM_enter_iff ⟨[], [], 0⟩ 0 decl.entries).1
    h.first
  obtain ⟨hscope, hvalues⟩ := EnumProgress.value_foldlM_enter ⟨[], [], 0⟩ 0 decl.entries
  refine ⟨_, _, rfl, fun name => ?_⟩
  rw [hscope, hvalues, Scope.lookup_declareAll_placed]
  have hplace : (decl.entries.findIdx? fun entry => entry.name.text == name) =
      decl.numbered.findIdx? fun numbered => numbered.1.name.text == name := by
    rw [← decl.map_fst_numbered, List.findIdx?_map]
    rfl
  rw [hplace, List.find?_eq_bind_findIdx?_getElem?]
  cases hindex : decl.numbered.findIdx? fun numbered => numbered.1.name.text == name with
  | none => rfl
  | some index =>
    obtain ⟨hlt, -, -⟩ := List.findIdx?_eq_some_iff_getElem.1 hindex
    have hfits := hsilent.1 decl.numbered[index] (List.getElem_mem hlt)
    change some (List.map _ decl.numbered)[index]?.join = _
    simp [hlt, (representable_eq_some_iff _ _).2 ⟨hfits, rfl⟩]

theorem enterEnum_nodup (decl : EnumDecl) (h : (enterEnum decl).Silent) :
    (decl.numbered.map fun numbered => numbered.1.name.text).Nodup := by
  have hsilent := (EnumProgress.silent_foldlM_enter_iff ⟨[], [], 0⟩ 0 decl.entries).1
    h.first
  have hnodup := ((Scope.silent_declareAll_iff _ _).1 hsilent.2).1
  rw [Scope.map_text_placed, ← decl.map_fst_numbered, List.map_map] at hnodup
  exact hnodup

theorem lookup_enterStruct (decl : StructDecl) :
    ∃ fields, (enterStruct decl).value = .struct fields ∧
      ∀ name, fields.lookup name = decl.fields.findIdx? (·.name.text == name) := by
  refine ⟨_, rfl, fun name => ?_⟩
  rw [Scope.lookup_ofNames, List.findIdx?_map]
  rfl

theorem silent_enterStruct_iff (decl : StructDecl) :
    (enterStruct decl).Silent ↔ (decl.fields.map (·.name.text)).Nodup := by
  unfold enterStruct
  rw [Reporting.silent_bind_iff, Scope.silent_ofNames_iff, List.map_map]
  simp [Reporting.silent_pure, Function.comp_def]

/-- Adds a declaration to the symbols of the declarations before it. -/
def Symbols.enter (symbols : Symbols) (declaration : Declaration) (index : Nat) :
    Reporting Symbols := do
  let names ← symbols.names.declare ⟨declaration.name, declaration.kind, index⟩
  let members ← enterMembers declaration
  return ⟨names, symbols.members ++ [members]⟩

theorem value_foldlM_symbols_enter (symbols : Symbols) (start : Nat)
    (declarations : List Declaration) :
    ((declarations.zipIdx start).foldlM
        (fun symbols (declaration, index) => Symbols.enter symbols declaration index)
        symbols).value =
      ⟨symbols.names.declareAll (Scope.placed (·.name) (·.kind) start declarations),
        symbols.members ++
          declarations.map fun declaration => (enterMembers declaration).value⟩ := by
  induction declarations generalizing symbols start with
  | nil => simp [Scope.declareAll]
  | cons declaration declarations ih =>
    rw [List.zipIdx_cons, List.foldlM_cons, Reporting.value_bind, ih]
    simp [Symbols.enter, Scope.declareAll]

theorem enterSymbols_value (document : Document) :
    (enterSymbols document).value =
      ⟨Scope.declareAll [] (Scope.placed (·.name) (·.kind) 0 document.declarations),
        document.declarations.map fun declaration => (enterMembers declaration).value⟩ :=
  value_foldlM_symbols_enter ⟨[], []⟩ 0 document.declarations

/-- A top-level name stands for the first declaration of it. -/
theorem lookup_enterSymbols (document : Document) (name : String) :
    (enterSymbols document).value.lookup name =
      document.declarations.findIdx? (·.name.text == name) := by
  rw [enterSymbols_value, Symbols.lookup, Scope.lookup_declareAll_placed]

theorem members_enterSymbols (document : Document) (index : Nat) :
    (enterSymbols document).value.members[index]? =
      document.declarations[index]?.map fun declaration => (enterMembers declaration).value := by
  rw [enterSymbols_value, List.getElem?_map]

theorem silent_enterMembers (document : Document) (h : (enterSymbols document).Silent)
    {declaration : Declaration} (hmem : declaration ∈ document.declarations) :
    (enterMembers declaration).Silent := by
  obtain ⟨index, hlt, rfl⟩ := List.getElem_of_mem hmem
  have hitem : (document.declarations[index], index) ∈ document.declarations.zipIdx := by
    simp [List.mem_zipIdx_iff_getElem?, hlt]
  obtain ⟨symbols, hstep⟩ := Reporting.silent_step_of_foldlM h hitem
  exact hstep.rest.first

end Idl
