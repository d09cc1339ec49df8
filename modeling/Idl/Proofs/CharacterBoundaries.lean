import Idl.Proofs.Located

/-!
# Inside characters

An offset up to the end of a text either lies between two characters or inside one. Only inside a
character has an offset no line and column; past the end it has those of the end.
-/
namespace Idl

namespace Text

/-- The offset lies inside a character. -/
def Splits (n : Nat) (cs : List Char) : Prop :=
  ∃ before c after, cs = before ++ c :: after ∧ size before < n ∧ n < size before + c.utf8Size

variable {n : Nat} {c : Char} {cs : List Char}

theorem drop?_cons (h : c.utf8Size ≤ n) : drop? n (c :: cs) = drop? (n - c.utf8Size) cs := by
  have := c.utf8Size_pos
  obtain ⟨k, rfl⟩ : ∃ k, n = k + 1 := ⟨n - 1, by omega⟩
  rw [drop?, if_pos h]

theorem splits_cons_iff (h : c.utf8Size ≤ n) : Splits n (c :: cs) ↔ Splits (n - c.utf8Size) cs := by
  constructor
  · rintro ⟨before, d, after, hcs, hlt, hgt⟩
    cases before with
    | nil =>
      obtain ⟨rfl, -⟩ := List.cons.inj hcs
      simp only [size_nil] at hgt
      omega
    | cons e before =>
      obtain ⟨rfl, rfl⟩ := List.cons.inj hcs
      simp only [size_cons] at hlt hgt
      exact ⟨before, d, after, rfl, by omega, by omega⟩
  · rintro ⟨before, d, after, rfl, hlt, hgt⟩
    exact ⟨c :: before, d, after, rfl, by simp only [size_cons]; omega,
      by simp only [size_cons]; omega⟩

/-- An offset inside a character is no boundary, and every other one is, if the text reaches that
far. -/
theorem isBoundary_min_iff : IsBoundary (min n (size cs)) cs ↔ ¬ Splits n cs := by
  induction cs generalizing n with
  | nil => simp [IsBoundary, drop?, Splits]
  | cons c cs ih =>
    by_cases hzero : n = 0
    · subst hzero
      simp [IsBoundary, drop?, Splits]
    by_cases hinside : c.utf8Size ≤ n
    · have hmin : min n (size (c :: cs)) - c.utf8Size = min (n - c.utf8Size) (size cs) := by
        rw [size_cons]
        omega
      rw [splits_cons_iff hinside, ← ih, IsBoundary, drop?_cons (by rw [size_cons]; omega), hmin,
        IsBoundary]
    · have hmin : min n (size (c :: cs)) = n := by
        rw [size_cons]
        omega
      obtain ⟨k, rfl⟩ : ∃ k, n = k + 1 := ⟨n - 1, by omega⟩
      have hsplits : Splits (k + 1) (c :: cs) :=
        ⟨[], c, cs, rfl, by simp, by simp only [size_nil]; omega⟩
      rw [hmin, IsBoundary, drop?, if_neg hinside]
      simp [hsplits]

instance (n : Nat) (cs : List Char) : Decidable (Splits n cs) :=
  decidable_of_iff (¬ IsBoundary (min n (size cs)) cs)
    (by rw [isBoundary_min_iff, not_not])

end Text

theorem Source.lineColumn?_eq_ite (source : Source) (offset : Nat) :
    source.lineColumn? offset =
      if Text.Splits offset source.chars then none else some (source.lineColumn offset) := by
  have hiff := @Text.isBoundary_min_iff offset source.chars
  rw [lineColumn?, Source.size]
  split <;> split <;> tauto

end Idl
