import Mathlib.Tactic

/-!
# Trails

A trail goes from place to place by marked steps and lists the marks that it passes. If a mark tells
the place that it leads to, then a trail that passes a mark twice can be cut short, and it can go
round for ever. If there are finitely many marks, every place has a trail that passes no mark twice
and goes on until it cannot or until it comes back to a mark. Where there is one way to go, that
trail tells all others.
-/
namespace Idl

variable {α β : Type}

/-- Steps from one place to another, one after the other. -/
inductive Trail (step : α → β → α → Prop) : α → List β → α → Prop
  | nil {place} : Trail step place [] place
  | cons {place mark next marks last} (first : step place mark next)
      (rest : Trail step next marks last) : Trail step place (mark :: marks) last

section

variable (step : α → β → α → Prop)

/-- There are trails of every length. -/
def Endless (place : α) : Prop :=
  ∀ length, ∃ marks last, marks.length = length ∧ Trail step place marks last

/-- No step leads away from the place. -/
def IsDeadEnd (place : α) : Prop :=
  ∀ mark next, ¬ step place mark next

/-- There is one way to go from each place. -/
def Unforked : Prop :=
  ∀ ⦃place mark next mark' next'⦄, step place mark next → step place mark' next' →
    mark = mark' ∧ next = next'

/-- A mark tells the place that it leads to. -/
def Guiding : Prop :=
  ∀ ⦃place mark next place' next'⦄, step place mark next → step place' mark next' → next = next'

end

variable {step : α → β → α → Prop} {place next last last' : α} {marks marks' after : List β}
variable {mark : β}

namespace Trail

theorem append (h : Trail step place marks next) (h' : Trail step next marks' last) :
    Trail step place (marks ++ marks') last := by
  induction h with
  | nil => exact h'
  | cons first _ ih => exact .cons first (ih h')

theorem exists_of_cons (h : Trail step place (mark :: marks) last) :
    ∃ next, step place mark next ∧ Trail step next marks last := by
  cases h with
  | cons first rest => exact ⟨_, first, rest⟩

theorem exists_of_append (h : Trail step place (marks ++ marks') last) :
    ∃ next, Trail step place marks next ∧ Trail step next marks' last := by
  induction marks generalizing place with
  | nil => exact ⟨place, .nil, h⟩
  | cons mark marks ih =>
    obtain ⟨next, first, rest⟩ := h.exists_of_cons
    obtain ⟨middle, hmarks, hmarks'⟩ := ih rest
    exact ⟨middle, .cons first hmarks, hmarks'⟩

theorem concat (h : Trail step place marks next) (hstep : step next mark last) :
    Trail step place (marks ++ [mark]) last :=
  h.append (.cons hstep .nil)

theorem exists_of_concat (h : Trail step place (marks ++ [mark]) last) :
    ∃ next, Trail step place marks next ∧ step next mark last := by
  obtain ⟨next, hmarks, hmark⟩ := h.exists_of_append
  obtain ⟨last, hstep, hnil⟩ := hmark.exists_of_cons
  cases hnil
  exact ⟨next, hmarks, hstep⟩

theorem forall_mem {P : β → Prop} (h : Trail step place marks last)
    (hP : ∀ ⦃place mark next⦄, step place mark next → P mark) : ∀ mark ∈ marks, P mark := by
  induction h with
  | nil => exact fun _ hmem => absurd hmem List.not_mem_nil
  | cons first _ ih => exact List.forall_mem_cons.2 ⟨hP first, ih⟩

theorem restrict {P : β → Prop} (h : Trail step place marks last) (hP : ∀ mark ∈ marks, P mark) :
    Trail (fun place mark next => step place mark next ∧ P mark) place marks last := by
  induction h with
  | nil => exact .nil
  | cons first _ ih =>
    obtain ⟨hmark, hmarks⟩ := List.forall_mem_cons.1 hP
    exact .cons ⟨first, hmark⟩ (ih hmarks)

end Trail

theorem exists_trail_iff : (∃ marks, Trail step place marks last) ↔
    Relation.ReflTransGen (fun place next => ∃ mark, step place mark next) place last := by
  constructor
  · rintro ⟨marks, h⟩
    induction h with
    | nil => exact .refl
    | cons first _ ih => exact ih.head ⟨_, first⟩
  · intro h
    induction h with
    | refl => exact ⟨[], .nil⟩
    | tail _ hstep ih =>
      obtain ⟨marks, htrail⟩ := ih
      obtain ⟨mark, hstep⟩ := hstep
      exact ⟨marks ++ [mark], htrail.concat hstep⟩

/-! ### Steps along a relation -/

/-- A step along a relation is marked by the place that it leads to. -/
def Marked (r : α → α → Prop) (place mark next : α) : Prop :=
  r place next ∧ mark = next

theorem guiding_marked (r : α → α → Prop) : Guiding (Marked r) := by
  rintro place mark next place' next' ⟨-, rfl⟩ ⟨-, rfl⟩
  rfl

theorem transGen_iff_exists_trail {r : α → α → Prop} {place last : α} :
    Relation.TransGen r place last ↔
      ∃ marks, Trail (Marked r) place (marks ++ [last]) last := by
  have hmarked : (fun place next => ∃ mark, Marked r place mark next) = r := by
    funext place next
    simp [Marked]
  constructor
  · intro h
    obtain ⟨next, hway, hstep⟩ := Relation.TransGen.tail'_iff.1 h
    rw [← hmarked] at hway
    obtain ⟨marks, htrail⟩ := exists_trail_iff.2 hway
    exact ⟨marks, htrail.concat ⟨hstep, rfl⟩⟩
  · rintro ⟨marks, h⟩
    obtain ⟨next, htrail, hstep, -⟩ := h.exists_of_concat
    have hway := exists_trail_iff.1 ⟨marks, htrail⟩
    rw [hmarked] at hway
    exact .tail' hway hstep

/-! ### Going round -/

/-- Between two passes of a mark the trail goes round. -/
theorem Trail.exists_round (hguide : Guiding step) {between : List β}
    (h : Trail step place (marks ++ [mark] ++ (between ++ [mark]) ++ after) last) :
    ∃ next, Trail step place (marks ++ [mark]) next ∧ Trail step next (between ++ [mark]) next ∧
      Trail step next after last := by
  obtain ⟨back, hback, hafter⟩ := h.exists_of_append
  obtain ⟨next, hnext, hround⟩ := hback.exists_of_append
  obtain ⟨_, -, hstep⟩ := hnext.exists_of_concat
  obtain ⟨_, -, hstep'⟩ := hround.exists_of_concat
  obtain rfl := hguide hstep hstep'
  exact ⟨next, hnext, hround, hafter⟩

theorem exists_repetition (h : ¬ marks.Nodup) :
    ∃ before mark between after,
      marks = before ++ [mark] ++ (between ++ [mark]) ++ after := by
  induction marks with
  | nil => exact absurd List.nodup_nil h
  | cons mark marks ih =>
    by_cases hmem : mark ∈ marks
    · obtain ⟨between, after, rfl⟩ := List.append_of_mem hmem
      exact ⟨[], mark, between, after, by simp⟩
    · have hmarks : ¬ marks.Nodup := fun hnodup => h (List.nodup_cons.2 ⟨hmem, hnodup⟩)
      obtain ⟨before, repeated, between, after, rfl⟩ := ih hmarks
      exact ⟨mark :: before, repeated, between, after, rfl⟩

/-- A trail can be freed of repetitions. -/
theorem Trail.exists_nodup (hguide : Guiding step) (h : Trail step place marks last) :
    ∃ marks', Trail step place marks' last ∧ marks'.Nodup ∧ marks'.getLast? = marks.getLast? := by
  induction hlength : marks.length using Nat.strong_induction_on generalizing marks with
  | _ length ih =>
    by_cases hnodup : marks.Nodup
    · exact ⟨marks, h, hnodup, rfl⟩
    · obtain ⟨before, mark, between, after, rfl⟩ := exists_repetition hnodup
      obtain ⟨next, hnext, -, hafter⟩ := h.exists_round hguide
      obtain ⟨marks', hmarks', hnodup', hlast⟩ :=
        ih _ (by simp [← hlength]) (hnext.append hafter) rfl
      refine ⟨marks', hmarks', hnodup', hlast.trans ?_⟩
      simp only [List.getLast?_append, List.getLast?_singleton, Option.some_or]

theorem Trail.exists_nodup_concat (hguide : Guiding step)
    (h : Trail step place (marks ++ [mark]) last) :
    ∃ marks', Trail step place (marks' ++ [mark]) last ∧ (marks' ++ [mark]).Nodup := by
  obtain ⟨whole, hwhole, hnodup, hlast⟩ := h.exists_nodup hguide
  rw [List.getLast?_concat, List.getLast?_eq_some_iff] at hlast
  obtain ⟨marks', rfl⟩ := hlast
  exact ⟨marks', hwhole, hnodup⟩

theorem endless_of_unbounded
    (h : ∀ length, ∃ marks last, length ≤ marks.length ∧ Trail step place marks last) :
    Endless step place := by
  intro length
  obtain ⟨marks, last, hlength, htrail⟩ := h length
  rw [← List.take_append_drop length marks] at htrail
  obtain ⟨next, hnext, -⟩ := htrail.exists_of_append
  exact ⟨_, next, List.length_take_of_le hlength, hnext⟩

theorem endless_of_round (h : Trail step place marks place) (hmarks : marks ≠ []) :
    Endless step place := by
  refine endless_of_unbounded fun length => ?_
  induction length with
  | zero => exact ⟨[], place, Nat.zero_le _, .nil⟩
  | succ length ih =>
    obtain ⟨more, last, hlength, hmore⟩ := ih
    have hpos := List.length_pos_iff.2 hmarks
    exact ⟨marks ++ more, last, by rw [List.length_append]; omega, h.append hmore⟩

theorem Endless.of_trail (h : Endless step next) (htrail : Trail step place marks next) :
    Endless step place := by
  refine endless_of_unbounded fun length => ?_
  obtain ⟨more, last, rfl, hmore⟩ := h length
  exact ⟨marks ++ more, last, by simp, htrail.append hmore⟩

/-- A trail that passes a mark twice can go on for ever. -/
theorem endless_of_not_nodup (hguide : Guiding step) (h : Trail step place marks last)
    (hmarks : ¬ marks.Nodup) : Endless step place := by
  obtain ⟨before, mark, between, after, rfl⟩ := exists_repetition hmarks
  obtain ⟨next, hnext, hround, -⟩ := h.exists_round hguide
  exact (endless_of_round hround (by simp)).of_trail hnext

theorem endless_of_mem (hguide : Guiding step) (h : Trail step place (marks ++ [mark]) last)
    (hmem : mark ∈ marks) : Endless step place := by
  refine endless_of_not_nodup hguide h fun hnodup => ?_
  rw [← List.concat_eq_append, List.nodup_concat] at hnodup
  exact hnodup.1 hmem

/-- Where all ways end, none comes back. -/
theorem Trail.eq_nil_of_acc (hends : Acc (fun next place => ∃ mark, step place mark next) place)
    (h : Trail step place marks place) : marks = [] := by
  induction hends generalizing marks with
  | intro place _ ih =>
    cases h with
    | nil => rfl
    | cons first rest => exact absurd (ih _ ⟨_, first⟩ (rest.concat first)) (by simp)

/-! ### Finitely many marks -/

section

variable {all : List β}

/-- Marks that are unvisited stay so when another is visited. -/
theorem subset_erase [DecidableEq β] (hnew : mark ∉ marks) (h : marks ⊆ all) :
    marks ⊆ all.erase mark := by
  intro other hother
  have hne : other ≠ mark := by
    rintro rfl
    exact hnew hother
  exact (List.mem_erase_of_ne hne).2 (h hother)

theorem Trail.length_le (hall : ∀ ⦃place mark next⦄, step place mark next → mark ∈ all)
    (h : Trail step place marks last) (hnodup : marks.Nodup) : marks.length ≤ all.length :=
  (List.subperm_of_subset hnodup (h.forall_mem hall)).length_le

/-- What goes on for ever comes round. -/
theorem Endless.exists_round (hall : ∀ ⦃place mark next⦄, step place mark next → mark ∈ all)
    (hguide : Guiding step) (h : Endless step place) :
    ∃ before mark between next, Trail step place (before ++ [mark]) next ∧
      Trail step next (between ++ [mark]) next := by
  obtain ⟨marks, last, hlength, htrail⟩ := h (all.length + 1)
  have hmarks : ¬ marks.Nodup := fun hnodup => by
    have hle := htrail.length_le hall hnodup
    omega
  obtain ⟨before, mark, between, after, rfl⟩ := exists_repetition hmarks
  obtain ⟨next, hnext, hround, -⟩ := htrail.exists_round hguide
  exact ⟨before, mark, between, next, hnext, hround⟩

/-- From every place there is a trail without repetitions that ends or comes back. -/
theorem exists_trail (hall : ∀ ⦃place mark next⦄, step place mark next → mark ∈ all) (place : α) :
    ∃ marks last, Trail step place marks last ∧ marks.Nodup ∧
      (IsDeadEnd step last ∨ ∃ mark ∈ marks, ∃ next, step last mark next) := by
  by_contra hnone
  -- so every trail without repetitions can be made longer, which there are not enough marks for
  have hlong : ∀ length, ∃ marks last, Trail step place marks last ∧ marks.Nodup ∧
      marks.length = length := by
    intro length
    induction length with
    | zero => exact ⟨[], place, .nil, List.nodup_nil, rfl⟩
    | succ length ih =>
      obtain ⟨marks, last, htrail, hnodup, rfl⟩ := ih
      have hstep : ∃ mark next, step last mark next ∧ mark ∉ marks := by
        by_contra hno
        refine hnone ⟨marks, last, htrail, hnodup, or_iff_not_imp_left.2 fun hopen => ?_⟩
        simp only [IsDeadEnd, not_forall, not_not] at hopen
        obtain ⟨mark, next, hnext⟩ := hopen
        exact ⟨mark, not_not.1 fun hmem => hno ⟨mark, next, hnext, hmem⟩, next, hnext⟩
      obtain ⟨mark, next, hnext, hnew⟩ := hstep
      refine ⟨marks ++ [mark], next, htrail.concat hnext, ?_, by simp⟩
      rw [← List.concat_eq_append]
      exact hnodup.concat hnew
  obtain ⟨marks, last, htrail, hnodup, hlength⟩ := hlong (all.length + 1)
  have hle := htrail.length_le hall hnodup
  omega

end

/-! ### One way to go -/

namespace Trail

theorem last_unique (hstep : Unforked step) (h : Trail step place marks last)
    (h' : Trail step place marks last') : last = last' := by
  induction h with
  | nil =>
    cases h'
    rfl
  | cons first _ ih =>
    obtain ⟨next, first', rest'⟩ := h'.exists_of_cons
    obtain ⟨-, rfl⟩ := hstep first first'
    exact ih rest'

/-- Of two trails from one place, the shorter is the beginning of the longer. -/
theorem prefix_or_prefix (hstep : Unforked step) (h : Trail step place marks last)
    (h' : Trail step place marks' last') : marks <+: marks' ∨ marks' <+: marks := by
  induction h generalizing marks' with
  | nil => exact .inl List.nil_prefix
  | cons first _ ih =>
    cases h' with
    | nil => exact .inr List.nil_prefix
    | cons first' rest' =>
      obtain ⟨rfl, rfl⟩ := hstep first first'
      exact (ih rest').imp (List.prefix_cons_inj _).2 (List.prefix_cons_inj _).2

/-- All trails are beginnings of one that comes to a dead end. -/
theorem prefix_of_isDeadEnd (hstep : Unforked step) (h : Trail step place marks last)
    (hlast : IsDeadEnd step last) (h' : Trail step place marks' last') : marks' <+: marks := by
  rcases h.prefix_or_prefix hstep h' with ⟨rest, rfl⟩ | hprefix
  · obtain ⟨next, hnext, hrest⟩ := h'.exists_of_append
    obtain rfl := h.last_unique hstep hnext
    cases hrest with
    | nil => simp
    | cons first _ => exact absurd first (hlast _ _)
  · exact hprefix

theorem not_endless (hstep : Unforked step) (h : Trail step place marks last)
    (hlast : IsDeadEnd step last) : ¬ Endless step place := by
  intro hendless
  obtain ⟨marks', last', hlength, h'⟩ := hendless (marks.length + 1)
  have hle := (h.prefix_of_isDeadEnd hstep hlast h').length_le
  omega

end Trail
end Idl
