import Idl.Symbols
import Idl.Proofs.Silence

/-!
# Scopes

Declaring names one after the other gives each name its first declaration, and is silent exactly
if no name is declared twice.
-/
namespace Idl.Scope

variable {α : Type}

theorem find?_declare (scope : Scope) (symbol : Symbol) (name : String) :
    (scope.declare symbol).value.find? name =
      (scope.find? name).or (if symbol.name.text = name then some symbol else none) := by
  unfold declare
  cases hfirst : scope.find? symbol.name.text with
  | none =>
    simp only [Scope.find?, Reporting.value_pure, List.find?_append, List.find?_singleton,
      beq_iff_eq]
  | some first =>
    by_cases h : symbol.name.text = name
    · subst h
      simp [hfirst]
    · simp [h]

theorem silent_declare_iff (scope : Scope) (symbol : Symbol) :
    (scope.declare symbol).Silent ↔ scope.find? symbol.name.text = none := by
  unfold declare
  cases hfirst : scope.find? symbol.name.text with
  | none => simp [Reporting.silent_pure]
  | some first => simp [Reporting.Silent, Reporting.report]

/-- Declares symbols in order. -/
def declareAll (scope : Scope) (symbols : List Symbol) : Scope :=
  symbols.foldl (fun scope symbol => (scope.declare symbol).value) scope

theorem find?_declareAll (scope : Scope) (symbols : List Symbol) (name : String) :
    (scope.declareAll symbols).find? name =
      (scope.find? name).or (symbols.find? (·.name.text == name)) := by
  induction symbols generalizing scope with
  | nil => simp [declareAll]
  | cons symbol symbols ih =>
    change (Scope.declareAll (scope.declare symbol).value symbols).find? name = _
    rw [ih, find?_declare, Option.or_assoc, List.find?_cons]
    by_cases h : symbol.name.text = name
    · simp [h]
    · simp [h, beq_false_of_ne h]

theorem silent_declareAll_iff (scope : Scope) (symbols : List Symbol) :
    (symbols.foldlM declare scope).Silent ↔
      (symbols.map (·.name.text)).Nodup ∧
        ∀ symbol ∈ symbols, scope.find? symbol.name.text = none := by
  induction symbols generalizing scope with
  | nil => simp [Reporting.silent_pure]
  | cons symbol symbols ih =>
    rw [List.foldlM_cons, Reporting.silent_bind_iff, ih, silent_declare_iff]
    simp only [List.map_cons, List.nodup_cons, List.mem_map, not_exists, not_and,
      List.forall_mem_cons, find?_declare, Option.or_eq_none_iff, ite_eq_right_iff, reduceCtorEq,
      imp_false]
    constructor
    · rintro ⟨hfirst, hnodup, hrest⟩
      exact ⟨⟨fun other hother h => (hrest other hother).2 h.symm, hnodup⟩, hfirst,
        fun other hother => (hrest other hother).1⟩
    · rintro ⟨⟨hnew, hnodup⟩, hfirst, hrest⟩
      exact ⟨hfirst, hnodup, fun other hother =>
        ⟨hrest other hother, fun h => hnew other hother h.symm⟩⟩

/-- Symbols for the items of a list, each with its place in the list counted from `start`. -/
def placed (name : α → Identifier) (kind : α → String) (start : Nat) (items : List α) :
    List Symbol :=
  (items.zipIdx start).map fun (item, index) => ⟨name item, kind item, index⟩

@[simp] theorem placed_nil (name : α → Identifier) (kind : α → String) (start : Nat) :
    placed name kind start [] = [] := rfl

@[simp] theorem placed_cons (name : α → Identifier) (kind : α → String) (start : Nat) (item : α)
    (items : List α) :
    placed name kind start (item :: items) =
      ⟨name item, kind item, start⟩ :: placed name kind (start + 1) items := rfl

theorem map_text_placed (name : α → Identifier) (kind : α → String) (start : Nat)
    (items : List α) :
    (placed name kind start items).map (·.name.text) = items.map fun item => (name item).text := by
  induction items generalizing start with
  | nil => rfl
  | cons item items ih => simp [ih]

theorem find?_placed (name : α → Identifier) (kind : α → String) (start : Nat) (items : List α)
    (text : String) :
    ((placed name kind start items).find? (·.name.text == text)).map (·.index) =
      (items.findIdx? fun item => (name item).text == text).map (· + start) := by
  induction items generalizing start with
  | nil => rfl
  | cons item items ih =>
    rw [placed_cons, List.find?_cons, List.findIdx?_cons]
    by_cases h : (name item).text = text
    · simp [h]
    · simp [beq_false_of_ne h, ih, Function.comp_def, Nat.add_comm, Nat.add_left_comm]

/-- In a scope made of the items of a list, a name stands for the first item that has it. -/
theorem lookup_declareAll_placed (name : α → Identifier) (kind : α → String) (items : List α)
    (text : String) :
    (declareAll [] (placed name kind 0 items)).lookup text =
      items.findIdx? fun item => (name item).text == text := by
  rw [Scope.lookup, find?_declareAll]
  simpa [Scope.find?] using find?_placed name kind 0 items text

theorem foldlM_zipIdx_eq_placed (name : α → Identifier) (kind : α → String) (scope : Scope)
    (start : Nat) (items : List α) :
    (items.zipIdx start).foldlM
        (fun scope (item, index) => Scope.declare scope ⟨name item, kind item, index⟩) scope =
      (placed name kind start items).foldlM declare scope := by
  induction items generalizing start scope with
  | nil => rfl
  | cons item items ih =>
    rw [List.zipIdx_cons, placed_cons, List.foldlM_cons, List.foldlM_cons]
    exact congrArg _ (funext fun next => ih next (start + 1))

theorem ofNames_eq_placed (kind : String) (names : List Identifier) :
    ofNames kind names = (placed id (fun _ => kind) 0 names).foldlM declare [] :=
  foldlM_zipIdx_eq_placed id (fun _ => kind) [] 0 names

theorem lookup_ofNames (kind : String) (names : List Identifier) (text : String) :
    (ofNames kind names).value.lookup text = names.findIdx? (·.text == text) := by
  rw [ofNames_eq_placed, Reporting.value_foldlM]
  exact lookup_declareAll_placed id (fun _ => kind) names text

theorem silent_ofNames_iff (kind : String) (names : List Identifier) :
    (ofNames kind names).Silent ↔ (names.map (·.text)).Nodup := by
  rw [ofNames_eq_placed, silent_declareAll_iff, map_text_placed]
  simp [Scope.find?]

end Idl.Scope
