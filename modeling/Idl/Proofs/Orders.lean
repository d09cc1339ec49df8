import Idl.Check.Ordering
import Idl.Proofs.Reports

/-!
# What is said about orders

Every item of a list is looked at once. An item without an order is reported, and so is an order
that does not fit into 32 bits; neither is compared with anything. Any other order is reported if an
earlier item has it, and also if it is not positive. What the check keeps of the items before is the
first name of each order, so that is the name a repeated order is reported with.
-/
namespace Idl

namespace OrderedName

/-- The order of an item, if it has one that fits. -/
def fitting? (entry : OrderedName) : Option IntegerLiteral :=
  entry.order.filter fun order => FitsI32 order.value

/-- The item has an order of the given value. -/
def hasOrder (value : Int) (entry : OrderedName) : Bool :=
  entry.order.any (·.value == value)

/-- The report about an item without an order, at its name. -/
def missing? (item : OrderedItem) (entry : OrderedName) : Option Report :=
  if entry.order.isNone then
    some (.error entry.name.span (.missingOrder item entry.name.text))
  else none

/-- The report about an order that does not fit. -/
def misfit? (entry : OrderedName) : Option Report :=
  (entry.order.filter fun order => ¬ FitsI32 order.value).map fun order =>
    .error order.span (.i32Range order.value)

/-- The report about an order that an item before has, with the name of the first such item. -/
def duplicate? (item : OrderedItem) (before : List OrderedName) (entry : OrderedName) :
    Option Report :=
  entry.fitting?.bind fun order =>
    (before.find? (hasOrder order.value)).map fun first =>
      .error order.span (.duplicateOrder item entry.name.text first.name.text)

/-- The report about an order that is zero or negative. -/
def nonPositive? (item : OrderedItem) (entry : OrderedName) : Option Report :=
  (entry.fitting?.filter fun order => order.value ≤ 0).map fun order =>
    .error order.span (.nonPositiveOrder item entry.name.text)

/-- All that is wrong with the order of an item behind some others. -/
def faults (item : OrderedItem) (before : List OrderedName) (entry : OrderedName) : List Report :=
  (entry.missing? item).toList ++ entry.misfit?.toList ++ (entry.duplicate? item before).toList ++
    (entry.nonPositive? item).toList

section

variable (item : OrderedItem) (before : List OrderedName) {order : IntegerLiteral}
variable (name : Identifier)

theorem faults_none :
    faults item before ⟨none, name⟩ = [.error name.span (.missingOrder item name.text)] :=
  rfl

theorem faults_of_not_fits (h : ¬ FitsI32 order.value) :
    faults item before ⟨some order, name⟩ = [.error order.span (.i32Range order.value)] := by
  simp [faults, missing?, misfit?, duplicate?, nonPositive?, fitting?, Option.filter_some, h]

/-- Whether an order is repeated and whether it is positive are asked independently. -/
theorem faults_of_fits (h : FitsI32 order.value) :
    faults item before ⟨some order, name⟩ =
      ((before.find? (hasOrder order.value)).map fun first =>
        .error order.span (.duplicateOrder item name.text first.name.text)).toList ++
      if order.value ≤ 0 then [.error order.span (.nonPositiveOrder item name.text)] else [] := by
  by_cases hpositive : order.value ≤ 0 <;>
    simp [faults, missing?, misfit?, duplicate?, nonPositive?, fitting?, Option.filter_some, h,
      hpositive]

end

/-! ### One item -/

/-- Each order that fits is kept with the name of the first item that has it. -/
def Tracks (seen : Seen) (before : List OrderedName) : Prop :=
  ∀ value, FitsI32 value →
    seen.lookup value = (before.find? (hasOrder value)).map (·.name.text)

theorem tracks_nil : Tracks [] [] :=
  fun _ _ => rfl

section

variable {item : OrderedItem} {seen : Seen} {before : List OrderedName}

theorem reports_check (h : Tracks seen before) (entry : OrderedName) :
    (check item seen entry).reports = entry.faults item before := by
  obtain ⟨order, name⟩ := entry
  cases order with
  | none => rfl
  | some order =>
    by_cases hfits : FitsI32 order.value
    · have hfirst := h order.value hfits
      rw [faults_of_fits item before name hfits]
      cases hfind : before.find? (hasOrder order.value) <;>
        by_cases hpositive : order.value ≤ 0 <;>
        simp [check, hfits, hfirst, hfind, hpositive]
    · rw [faults_of_not_fits item before name hfits]
      simp [check, hfits]

theorem value_check_of_fits (seen : Seen) {order : IntegerLiteral} (name : Identifier)
    (h : FitsI32 order.value) :
    (check item seen ⟨some order, name⟩).value =
      if (seen.lookup order.value).isSome then seen else (order.value, name.text) :: seen := by
  cases hfind : seen.lookup order.value <;> by_cases hpositive : order.value ≤ 0 <;>
    simp [check, h, hfind, hpositive]

/-- Checking an item keeps its order if that fits and is new. -/
theorem lookup_check (seen : Seen) (entry : OrderedName) {value : Int} (hvalue : FitsI32 value) :
    (check item seen entry).value.lookup value = (seen.lookup value).or
      (if entry.hasOrder value then some entry.name.text else none) := by
  obtain ⟨order, name⟩ := entry
  cases order with
  | none => simp [check, hasOrder]
  | some order =>
    by_cases hsame : order.value = value
    · subst hsame
      rw [value_check_of_fits seen name hvalue]
      cases hfind : seen.lookup order.value <;> simp [hasOrder, hfind]
    · by_cases hfits : FitsI32 order.value
      · have hne : (value == order.value) = false := beq_false_of_ne (Ne.symm hsame)
        rw [value_check_of_fits seen name hfits]
        split <;> simp [hasOrder, List.lookup_cons, hne, hsame]
      · simp [check, hasOrder, hfits, hsame]

theorem tracks_check (h : Tracks seen before) (entry : OrderedName) :
    Tracks (check item seen entry).value (before ++ [entry]) := by
  intro value hfits
  rw [lookup_check seen entry hfits, h value hfits, List.find?_append, List.find?_singleton,
    Option.map_or]
  split <;> rfl

end

/-! ### Lists in order -/

/-- The item has an order that can stand in a list. -/
def IsPositive (entry : OrderedName) : Prop :=
  ∃ order, entry.order = some order ∧ 1 ≤ order.value ∧ order.value ≤ 0x7FFFFFFF

theorem find?_hasOrder_eq_none_iff (before : List OrderedName) (value : Int) :
    before.find? (hasOrder value) = none ↔
      ∀ first ∈ before, ∀ order, first.order = some order → order.value ≠ value := by
  simp [List.find?_eq_none, hasOrder, Option.any_eq_true]

/-- Two items have different orders, if they have orders at all. -/
def Differ (first entry : OrderedName) : Prop :=
  ∀ earlier, first.order = some earlier → ∀ order, entry.order = some order →
    earlier.value ≠ order.value

theorem faults_eq_nil_iff (item : OrderedItem) (before : List OrderedName) (entry : OrderedName) :
    entry.faults item before = [] ↔
      entry.IsPositive ∧ ∀ first ∈ before, first.Differ entry := by
  obtain ⟨order, name⟩ := entry
  cases order with
  | none => simp [faults_none, IsPositive]
  | some order =>
    by_cases hfits : FitsI32 order.value
    · rw [faults_of_fits item before name hfits, List.append_eq_nil_iff, Option.toList_eq_nil_iff,
        Option.map_eq_none_iff, find?_hasOrder_eq_none_iff, and_comm]
      unfold FitsI32 at hfits
      have hpositive : ¬ order.value ≤ 0 ↔ 1 ≤ order.value ∧ order.value ≤ 0x7FFFFFFF := by omega
      simp [IsPositive, Differ, ← hpositive]
    · have hrange : ¬ (1 ≤ order.value ∧ order.value ≤ 0x7FFFFFFF) := by
        unfold FitsI32 at hfits
        omega
      simp [faults_of_not_fits item before name hfits, IsPositive, hrange]

end OrderedName

open OrderedName

section

variable (item : OrderedItem) (entries : List OrderedName)

/-- Every item is reported for its own order and for the orders before it. -/
theorem reports_checkOrdering :
    (checkOrdering item entries).reports =
      entries.zipIdx.flatMap fun (entry, place) => entry.faults item (entries.take place) := by
  rw [checkOrdering, Reporting.reports_bind, Reporting.reports_pure, List.append_nil]
  exact Reporting.reports_foldlM_of_tracks (@reports_check item) (@tracks_check item) tracks_nil
    entries

theorem forall_mem_take_iff_pairwise {α : Type} {r : α → α → Prop} {items : List α} :
    (∀ (place : Nat) (h : place < items.length), ∀ first ∈ items.take place,
      r first items[place]) ↔ items.Pairwise r := by
  rw [List.pairwise_iff_getElem]
  constructor
  · intro h i j hi hj hlt
    exact h j hj _ (List.mem_take_iff_getElem.2 ⟨i, by omega, rfl⟩)
  · intro h j hj first hfirst
    obtain ⟨i, hi, rfl⟩ := List.mem_take_iff_getElem.1 hfirst
    exact h i j (by omega) hj (by omega)

theorem silent_checkOrdering_iff :
    (checkOrdering item entries).Silent ↔ (∀ entry ∈ entries, entry.IsPositive) ∧
      ((entries.filterMap (·.order)).map (·.value)).Nodup := by
  rw [Reporting.Silent, reports_checkOrdering, List.flatMap_eq_nil_iff, List.forall_mem_zipIdx,
    List.Nodup, List.pairwise_map, List.pairwise_filterMap, List.forall_mem_iff_getElem]
  simp only [Nat.zero_add, faults_eq_nil_iff, forall_and]
  exact and_congr_right' forall_mem_take_iff_pairwise

/-- The reports of a list by what they are about. -/
theorem perm_reports_checkOrdering :
    (checkOrdering item entries).reports.Perm
      (entries.filterMap (·.missing? item) ++ entries.filterMap misfit? ++
        (entries.zipIdx.filterMap fun (entry, place) =>
          entry.duplicate? item (entries.take place)) ++
        entries.filterMap (·.nonPositive? item)) := by
  rw [reports_checkOrdering]
  simp only [List.filterMap_eq_flatMap_toList, ← Reporting.flatMap_fst_zipIdx _ entries]
  refine List.Perm.symm (.trans ?_ (List.flatMap_append_perm _ _ _))
  refine .append_right _ (.trans ?_ (List.flatMap_append_perm _ _ _))
  exact .append_right _ (List.flatMap_append_perm _ _ _)

/-- Orders in a list. The check of the orders of fields, arguments or exceptions is silent exactly
if every item has an order, all orders are from 1 to the largest number of 32 bits, and they are
different. In general it reports each item without an order, each order that does not fit into 32
bits, each order that fits and that an earlier item has, with the name of the first such item, and
each order that fits and is not positive: every one of these once, nothing else, and item by
item. -/
theorem checkOrdering_finds_faults :
    ((checkOrdering item entries).Silent ↔
      (∀ entry ∈ entries, ∃ order, entry.order = some order ∧ 1 ≤ order.value ∧
        order.value ≤ 0x7FFFFFFF) ∧
      ((entries.filterMap (·.order)).map (·.value)).Nodup) ∧
    (checkOrdering item entries).reports.Perm
      (entries.filterMap (·.missing? item) ++ entries.filterMap misfit? ++
        (entries.zipIdx.filterMap fun (entry, place) =>
          entry.duplicate? item (entries.take place)) ++
        entries.filterMap (·.nonPositive? item)) ∧
    (checkOrdering item entries).reports =
      entries.zipIdx.flatMap fun (entry, place) => entry.faults item (entries.take place) :=
  ⟨silent_checkOrdering_iff item entries, perm_reports_checkOrdering item entries,
    reports_checkOrdering item entries⟩

end

/-- An order can be repeated and not positive at once; one that does not fit is never repeated. -/
example :
    (checkOrdering .field
      [⟨some ⟨0, ⟨0, 1⟩⟩, ⟨"a", ⟨2, 3⟩⟩⟩, ⟨none, ⟨"b", ⟨4, 5⟩⟩⟩, ⟨some ⟨0, ⟨6, 7⟩⟩, ⟨"c", ⟨8, 9⟩⟩⟩,
        ⟨some ⟨0x80000000, ⟨10, 20⟩⟩, ⟨"d", ⟨21, 22⟩⟩⟩,
        ⟨some ⟨0x80000000, ⟨23, 33⟩⟩, ⟨"e", ⟨34, 35⟩⟩⟩]).reports =
      [.error ⟨0, 1⟩ (.nonPositiveOrder .field "a"), .error ⟨4, 5⟩ (.missingOrder .field "b"),
        .error ⟨6, 7⟩ (.duplicateOrder .field "c" "a"),
        .error ⟨6, 7⟩ (.nonPositiveOrder .field "c"),
        .error ⟨10, 20⟩ (.i32Range 0x80000000), .error ⟨23, 33⟩ (.i32Range 0x80000000)] := by
  rfl

end Idl
