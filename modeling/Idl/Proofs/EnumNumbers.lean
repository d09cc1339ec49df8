import Idl.Proofs.Tables

/-!
# Numbers of enum entries

An entry of an enum stands for its literal, or counts on from the last entry before it that has one.
Counting never falls back behind a number that does not fit into 32 bits: such numbers are reported
and not kept, and the entries behind are counted from them all the same.
-/
namespace Idl

namespace EnumDecl

variable (decl : EnumDecl)

/-- The last entry before a place that has a literal: its place and the value of the literal. -/
def lastLiteral? (place : Nat) : Option (Nat × Int) :=
  (decl.entries.zipIdx.take place).reverse.findSome? fun (entry, earlier) =>
    entry.value.map fun literal => (earlier, literal.value)

/-- What counting comes to at a place: one for each step from the last literal before it, or else
from the first entry, as far as 64 bits go. -/
def count (place : Nat) : Int :=
  match decl.lastLiteral? place with
  | some (earlier, value) => min (value + (place - earlier)) 0x7FFFFFFFFFFFFFFF
  | none => min place 0x7FFFFFFFFFFFFFFF

/-- The number that an entry at a place stands for. -/
def number (place : Nat) (entry : EnumEntry) : Int :=
  match entry.value with
  | some literal => literal.value
  | none => decl.count place

variable {decl}

theorem lastLiteral?_succ {place : Nat} {entry : EnumEntry}
    (h : decl.entries[place]? = some entry) :
    decl.lastLiteral? (place + 1) =
      (entry.value.map fun literal => (place, literal.value)).or (decl.lastLiteral? place) := by
  have hget : decl.entries.zipIdx[place]? = some (entry, place) := by
    rw [List.getElem?_zipIdx, h]
    simp
  rw [lastLiteral?, List.take_add_one, hget]
  simp only [Option.toList, List.reverse_append, List.reverse_singleton, List.singleton_append,
    List.findSome?_cons]
  cases entry.value <;> rfl

/-- Counting goes on from the number of the entry before, whether that was counted or written. -/
theorem count_succ {place : Nat} {entry : EnumEntry} (h : decl.entries[place]? = some entry) :
    decl.count (place + 1) = nextEnumValue (decl.number place entry) := by
  rw [count, lastLiteral?_succ h, number]
  cases entry.value with
  | some literal =>
    simp only [Option.map_some, Option.some_or, nextEnumValue]
    omega
  | none =>
    simp only [Option.map_none, Option.none_or, nextEnumValue, count]
    cases decl.lastLiteral? place with
    | none => simp only; omega
    | some last => simp only; omega

theorem numberEntries_eq {before entries : List EnumEntry}
    (h : decl.entries = before ++ entries) :
    numberEntries (decl.count before.length) entries =
      (entries.zipIdx before.length).map fun (entry, place) =>
        (entry, decl.number place entry) := by
  induction entries generalizing before with
  | nil => rfl
  | cons entry entries ih =>
    have hentry : decl.entries[before.length]? = some entry := by simp [h]
    have hrest := @ih (before ++ [entry]) (by simp [h])
    have hvalue : (entry.value.map (·.value)).getD (decl.count before.length) =
        decl.number before.length entry := by
      rw [number]
      cases entry.value <;> rfl
    rw [List.length_append, List.length_singleton, count_succ hentry] at hrest
    rw [numberEntries, hvalue, hrest, List.zipIdx_cons, List.map_cons]

/-- Numbering the entries one after the other gives each the number that it stands for. -/
theorem numbered_eq (decl : EnumDecl) :
    decl.numbered =
      decl.entries.zipIdx.map fun (entry, place) => (entry, decl.number place entry) :=
  numberEntries_eq (List.nil_append _).symm

end EnumDecl

/-! ### Numbers that do not fit -/

/-- The report about an entry whose number does not fit: at its literal, or else at its name. -/
def EnumEntry.misfit? (entry : EnumEntry) (number : Int) : Option Report :=
  if FitsI32 number then none
  else some (.error ((entry.value.map (·.span)).getD entry.name.span) (.i32Range number))

/-- The reports about the numbers of an enum, in the order of its entries. -/
def EnumDecl.misfits (decl : EnumDecl) : List Report :=
  decl.entries.zipIdx.filterMap fun (entry, place) => entry.misfit? (decl.number place entry)

def Declaration.misfits : Declaration → List Report
  | enum d => d.misfits
  | constant _ => []
  | typedef _ => []
  | struct _ => []
  | service _ => []

theorem EnumEntry.misfit?_eq_some_iff (entry : EnumEntry) (number : Int) (report : Report) :
    entry.misfit? number = some report ↔ ¬ FitsI32 number ∧
      report = .error ((entry.value.map (·.span)).getD entry.name.span) (.i32Range number) := by
  unfold misfit?
  split <;> simp_all [eq_comm]

theorem EnumDecl.misfits_eq_filterMap_numbered (decl : EnumDecl) :
    decl.misfits = decl.numbered.filterMap fun numbered => numbered.1.misfit? numbered.2 := by
  rw [numbered_eq, List.filterMap_map]
  rfl

theorem mem_misfits_iff {declaration : Declaration} {report : Report} :
    report ∈ declaration.misfits ↔ ∃ decl, declaration = .enum decl ∧
      ∃ (place : Nat) (entry : EnumEntry), decl.entries[place]? = some entry ∧
        entry.misfit? (decl.number place entry) = some report := by
  cases declaration with
  | enum decl =>
    simp only [Declaration.misfits, EnumDecl.misfits, List.mem_filterMap, Declaration.enum.injEq,
      exists_eq_left']
    constructor
    · rintro ⟨⟨entry, place⟩, hitem, hreport⟩
      exact ⟨place, entry, List.mem_zipIdx_iff_getElem?.1 hitem, hreport⟩
    · rintro ⟨place, entry, hentry, hreport⟩
      exact ⟨(entry, place), List.mem_zipIdx_iff_getElem?.2 hentry, hreport⟩
  | _ => simp [Declaration.misfits]

theorem misfits_eq_nil_iff (declarations : List Declaration) :
    declarations.flatMap Declaration.misfits = [] ↔ ∀ decl, .enum decl ∈ declarations →
      ∀ place entry, decl.entries[place]? = some entry → FitsI32 (decl.number place entry) := by
  simp only [List.eq_nil_iff_forall_not_mem, List.mem_flatMap, mem_misfits_iff,
    EnumEntry.misfit?_eq_some_iff, not_exists, not_and]
  constructor
  · intro h decl hdecl place entry hentry
    by_contra hfits
    exact h _ _ hdecl decl rfl place entry hentry hfits rfl
  · rintro h report _ hdecl decl rfl place entry hentry hfits -
    exact hfits (h decl hdecl place entry hentry)

/-! ### What is kept -/

/-- The entries of an enum are numbered one after the other. -/
theorem value_enterEnum (decl : EnumDecl) :
    ∃ entries, (enterEnum decl).value = .enum entries
        (decl.entries.zipIdx.map fun (entry, place) => representable (decl.number place entry)) ∧
      ∀ name, entries.lookup name = decl.entries.findIdx? (·.name.text == name) := by
  obtain ⟨hscope, hvalues⟩ := EnumProgress.value_foldlM_enter ⟨[], [], 0⟩ 0 decl.entries
  have hnumbers : (numberEntries 0 decl.entries).map (fun numbered => representable numbered.2) =
      decl.entries.zipIdx.map fun (entry, place) => representable (decl.number place entry) := by
    change decl.numbered.map _ = _
    rw [EnumDecl.numbered_eq, List.map_map]
    rfl
  rw [List.nil_append, hnumbers] at hvalues
  rw [enterEnum, Reporting.value_bind, hvalues, hscope]
  exact ⟨_, rfl, Scope.lookup_declareAll_placed _ _ _⟩

/-- What is kept of the entries of an enum: the first entry of each name, and all numbers that
fit. -/
theorem enum?_enterSymbols {document : Document} {index : Nat} {decl : EnumDecl}
    (h : document.declarations[index]? = some (.enum decl)) :
    ∃ entries, (enterSymbols document).value.enum? index = some (entries,
        decl.entries.zipIdx.map fun (entry, place) => representable (decl.number place entry)) ∧
      ∀ name, entries.lookup name = decl.entries.findIdx? (·.name.text == name) := by
  obtain ⟨entries, hvalue, hlookup⟩ := value_enterEnum decl
  have hmembers := members_enterSymbols document index
  rw [h] at hmembers
  exact ⟨entries, Resolver.enum?_of_getElem? (hmembers.trans (congrArg some hvalue)), hlookup⟩

end Idl
