import Idl.Proofs.CharacterBoundaries
import Idl.Proofs.LexicalGrammar
import Mathlib.Data.List.DropRight

/-!
# Lines and columns

The line of an offset is one more than the newlines before it, and its column one more than the
characters between the last of them and the offset. Only an offset inside a character has none. A
later place in a text has a later line, or the same line and a later column, so a line and a column
tell the place. The same is found by a search for the line that an offset lies in, newline by
newline, that cuts the column out of it.
-/
namespace Idl

namespace Text

/-- A line and a column come before others, the line first. -/
def LineColumn.Precedes (place other : LineColumn) : Prop :=
  place.line < other.line ∨ place.line = other.line ∧ place.column < other.column

namespace LineColumn.Precedes

variable {place other last : LineColumn}

theorem trans (h : place.Precedes other) (h' : other.Precedes last) : place.Precedes last := by
  unfold Precedes at *
  omega

theorem ne (h : place.Precedes other) : place ≠ other := by
  rintro rfl
  unfold Precedes at h
  omega

theorem next (place : LineColumn) (c : Char) : place.Precedes (place.next c) := by
  unfold Precedes LineColumn.next
  by_cases h : c = '\n' <;> simp [h]

/-- Each further character leads to a later place. -/
theorem foldl_next {cs : List Char} (h : cs ≠ []) (place : LineColumn) :
    place.Precedes (cs.foldl LineColumn.next place) := by
  induction cs generalizing place with
  | nil => contradiction
  | cons c cs ih =>
    cases cs with
    | nil => exact next place c
    | cons d cs => exact (next place c).trans (ih (by simp) (place.next c))

end LineColumn.Precedes

/-! ### Counting -/

theorem placeFrom_append (place : LineColumn) (before after : List Char) :
    placeFrom place (size before) (before ++ after) = before.foldl LineColumn.next place := by
  induction before generalizing place with
  | nil => cases after <;> rfl
  | cons c before ih =>
    obtain ⟨k, hk, hle, hrest⟩ := exists_size_cons c before
    rw [hk, List.cons_append, placeFrom, if_pos hle, hrest, ih, List.foldl_cons]

theorem placeFrom_of_size_le {n : Nat} {cs : List Char} (h : size cs ≤ n) (place : LineColumn) :
    placeFrom place n cs = cs.foldl LineColumn.next place := by
  induction cs generalizing n place with
  | nil => cases n <;> rfl
  | cons c cs ih =>
    have hpos := c.utf8Size_pos
    rw [size_cons] at h
    cases n with
    | zero => omega
    | succ n => rw [placeFrom, if_pos (by omega), ih (by omega), List.foldl_cons]

/-- The place behind some text that starts in the first line and column. -/
def placeBehind (before : List Char) : LineColumn :=
  ⟨before.count '\n' + 1, (before.rtakeWhile (· ≠ '\n')).length + 1⟩

theorem foldl_next_eq (before : List Char) :
    before.foldl LineColumn.next ⟨1, 1⟩ = placeBehind before := by
  induction before using List.reverseRecOn with
  | nil => rfl
  | append_singleton before c ih =>
    rw [List.foldl_concat, ih, LineColumn.next, placeBehind, placeBehind, List.rtakeWhile_concat]
    by_cases h : c = '\n' <;> simp [h]

theorem eq_nil_of_size {cs : List Char} (h : size cs = 0) : cs = [] := by
  cases cs with
  | nil => rfl
  | cons c cs =>
    have := c.utf8Size_pos
    rw [size_cons] at h
    omega

theorem placeAt_eq {before after : List Char} {n : Nat}
    (h : size before = min n (size (before ++ after))) :
    placeAt n (before ++ after) = placeBehind before := by
  rw [placeAt, ← foldl_next_eq]
  by_cases hn : n ≤ size (before ++ after)
  · rw [Nat.min_eq_left hn] at h
    rw [← h, placeFrom_append]
  · have hafter : after = [] := by
      apply eq_nil_of_size
      rw [size_append] at h hn
      omega
    subst hafter
    rw [List.append_nil] at hn ⊢
    exact placeFrom_of_size_le (by omega) _

/-- The text before an offset that lies inside no character. -/
theorem exists_before {n : Nat} {cs : List Char} (h : ¬ Splits n cs) :
    ∃ before after, cs = before ++ after ∧ size before = min n (size cs) := by
  have hboundary := isBoundary_min_iff.2 h
  obtain ⟨after, hdrop⟩ := Option.isSome_iff_exists.1 hboundary
  obtain ⟨before, hcs, hsize⟩ := exists_of_drop? hdrop
  exact ⟨before, after, hcs, hsize.symm⟩

/-! ### Searching -/

/-- The number and the start of the line that an offset lies in, looked for from a line on. -/
def seekLine (offset line start : Nat) (cs : List Char) : Nat × Nat :=
  match h : cs.dropWhile (· ≠ '\n') with
  | [] => (line, start)
  | _ :: rest =>
    let stop := start + size (cs.takeWhile (· ≠ '\n')) + 1
    if offset < stop then (line, start) else seekLine offset (line + 1) stop rest
termination_by cs.length
decreasing_by
  have hlength := (List.dropWhile_suffix (l := cs) (· ≠ '\n')).length_le
  rw [h] at hlength
  exact hlength

/-- The place of an offset, where it is the end of a slice from the start of its line. -/
def searchPlace? (offset : Nat) (cs : List Char) : Option LineColumn :=
  let (line, start) := seekLine offset 1 0 cs
  (slice? start (min offset (size cs)) cs).map fun column => ⟨line, column.length + 1⟩

theorem exists_of_dropWhile {cs rest : List Char} {newline : Char}
    (h : cs.dropWhile (· ≠ '\n') = newline :: rest) :
    cs = cs.takeWhile (· ≠ '\n') ++ '\n' :: rest ∧ '\n' ∉ cs.takeWhile (· ≠ '\n') := by
  have hnewline : newline = '\n' := by
    have hstop := Reading.not_head?_dropWhile (fun c => decide (c ≠ '\n')) cs
    rw [h] at hstop
    simpa using hstop newline rfl
  subst hnewline
  refine ⟨?_, fun hmem => by simpa using List.mem_takeWhile_imp hmem⟩
  rw [← h, List.takeWhile_append_dropWhile]

/-- Text that is no longer than the line it begins with lies in that line. -/
theorem newline_notMem {before after : List Char}
    (h : size before ≤ size ((before ++ after).takeWhile (· ≠ '\n'))) : '\n' ∉ before := by
  intro hmem
  obtain ⟨front, back, rfl, hfront⟩ := List.eq_append_cons_of_mem hmem
  have htake : (front ++ '\n' :: back ++ after).takeWhile (· ≠ '\n') = front := by
    rw [List.append_assoc]
    apply (Reading.takeWhile_append_of_notMem hfront _).1
    simp
  have hpos := Char.utf8Size_pos '\n'
  rw [htake, size_append, size_cons] at h
  omega

/-- The search stops at a line that starts at or before the offset, and no newline lies between. -/
theorem seekLine_spec {offset line start : Nat} {cs : List Char} (h : start ≤ offset) :
    ∃ earlier later, cs = earlier ++ later ∧
      seekLine offset line start cs = (line + earlier.count '\n', start + size earlier) ∧
      (earlier = [] ∨ ∃ init, earlier = init ++ ['\n']) ∧ start + size earlier ≤ offset ∧
      ∀ before after, later = before ++ after → start + size earlier + size before ≤ offset →
        '\n' ∉ before := by
  fun_induction seekLine offset line start cs with
  | case1 line start cs hnone =>
    refine ⟨[], cs, rfl, by simp, .inl rfl, h, ?_⟩
    rintro before after rfl - hmem
    have hall := List.dropWhile_eq_nil_iff.1 hnone '\n' (by simp [hmem])
    simp at hall
  | case2 line start cs newline rest hsome stop hlt =>
    refine ⟨[], cs, rfl, by simp, .inl rfl, h, ?_⟩
    rintro before after rfl hsize hmem
    simp only [stop, size_nil] at hlt hsize
    have hshort : size before ≤ size ((before ++ after).takeWhile (· ≠ '\n')) := by omega
    exact newline_notMem hshort hmem
  | case3 line start cs newline rest hsome stop hge ih =>
    obtain ⟨hcs, hline⟩ := exists_of_dropWhile hsome
    obtain ⟨earlier, later, rfl, hseek, hends, hle, hlater⟩ := ih (by omega)
    -- the line that is passed over has one newline, its last character
    have hcount : (cs.takeWhile (· ≠ '\n')).count '\n' = 0 := List.count_eq_zero.2 hline
    have hnewline : '\n'.utf8Size = 1 := by decide
    have hsize : start + size (cs.takeWhile (· ≠ '\n') ++ '\n' :: earlier) =
        stop + size earlier := by
      simp only [size_append, size_cons, hnewline, stop]
      omega
    refine ⟨cs.takeWhile (· ≠ '\n') ++ '\n' :: earlier, later, by simpa using hcs, ?_, ?_, ?_, ?_⟩
    · rw [hseek, hsize, List.count_append, List.count_cons_self, hcount]
      congr 1
      omega
    · rcases hends with rfl | ⟨init, rfl⟩
      · exact .inr ⟨_, rfl⟩
      · exact .inr ⟨cs.takeWhile (· ≠ '\n') ++ '\n' :: init, by simp⟩
    · omega
    · rw [hsize]
      exact hlater

theorem exists_of_take? {n : Nat} {cs before : List Char} (h : take? n cs = some before) :
    ∃ after, cs = before ++ after ∧ n = size before := by
  fun_induction take? n cs generalizing before with
  | case1 cs =>
    cases h
    exact ⟨cs, rfl, rfl⟩
  | case2 => cases h
  | case3 n c cs hsize ih =>
    obtain ⟨rest, hrest, rfl⟩ := Option.map_eq_some_iff.1 h
    obtain ⟨after, rfl, hafter⟩ := ih hrest
    exact ⟨after, rfl, by rw [size_cons]; omega⟩
  | case4 => cases h

theorem exists_append {earlier later before after : List Char}
    (h : earlier ++ later = before ++ after) (hsize : size earlier ≤ size before) :
    ∃ middle, before = earlier ++ middle ∧ later = middle ++ after := by
  rcases List.append_eq_append_iff.1 h with ⟨middle, rfl, rfl⟩ | ⟨middle, rfl, rfl⟩
  · exact ⟨middle, rfl, rfl⟩
  · have hmiddle : middle = [] := by
      apply eq_nil_of_size
      rw [size_append] at hsize
      omega
    subst hmiddle
    exact ⟨[], by simp, rfl⟩

/-- A column is counted from behind the last newline. -/
theorem placeBehind_append {earlier middle : List Char}
    (hends : earlier = [] ∨ ∃ init, earlier = init ++ ['\n']) (hline : '\n' ∉ middle) :
    placeBehind (earlier ++ middle) = ⟨1 + earlier.count '\n', middle.length + 1⟩ := by
  have hcolumn : (earlier ++ middle).rtakeWhile (· ≠ '\n') = middle := by
    have hmiddle : '\n' ∉ middle.reverse := by
      rwa [List.mem_reverse]
    have hstop : ∀ c ∈ earlier.reverse.head?, c = '\n' := by
      rcases hends with rfl | ⟨init, rfl⟩ <;> simp
    rw [List.rtakeWhile, List.reverse_append, (Reading.takeWhile_append_of_notMem hmiddle hstop).1,
      List.reverse_reverse]
  rw [placeBehind, hcolumn, List.count_append, List.count_eq_zero.2 hline]
  congr 1
  omega

theorem searchPlace?_eq (offset : Nat) (cs : List Char) :
    searchPlace? offset cs = if Splits offset cs then none else some (placeAt offset cs) := by
  obtain ⟨earlier, later, rfl, hseek, hends, hle, hline⟩ :=
    @seekLine_spec offset 1 0 cs (Nat.zero_le offset)
  rw [Nat.zero_add] at hseek hle
  have hstart : size earlier ≤ min offset (size (earlier ++ later)) := by
    rw [size_append]
    omega
  have hsearch : searchPlace? offset (earlier ++ later) =
      (take? (min offset (size (earlier ++ later)) - size earlier) later).map
        fun column => ⟨1 + earlier.count '\n', column.length + 1⟩ := by
    rw [searchPlace?, hseek]
    simp only [slice?, if_pos hstart, drop?_size]
    rfl
  rw [hsearch]
  -- the slice from the line to the offset exists unless it would cut a character
  by_cases hsplits : Splits offset (earlier ++ later)
  · rw [if_pos hsplits, Option.map_eq_none_iff, Option.eq_none_iff_forall_ne_some]
    intro middle hmiddle
    obtain ⟨after, rfl, hsize⟩ := exists_of_take? hmiddle
    have hend : min offset (size (earlier ++ (middle ++ after))) = size (earlier ++ middle) := by
      rw [size_append earlier middle]
      omega
    refine isBoundary_min_iff.1 ?_ hsplits
    rw [hend, ← List.append_assoc]
    exact isBoundary_size _ after
  · obtain ⟨before, after, hcs, hsize⟩ := exists_before hsplits
    obtain ⟨middle, rfl, rfl⟩ := exists_append hcs (by omega)
    have hmiddle : min offset (size (earlier ++ (middle ++ after))) - size earlier =
        size middle := by
      rw [← hsize, size_append]
      omega
    have hnewline : '\n' ∉ middle := by
      apply hline middle after rfl
      rw [size_append] at hsize
      omega
    rw [if_neg hsplits, hmiddle, take?_size, Option.map_some, hcs, placeAt_eq (hcs ▸ hsize),
      placeBehind_append hends hnewline]

/-! ### Order -/

theorem placeAt_precedes {n m : Nat} {cs : List Char} (hn : IsBoundary n cs) (hm : IsBoundary m cs)
    (h : n < m) : (placeAt n cs).Precedes (placeAt m cs) := by
  obtain ⟨after, hafter⟩ := Option.isSome_iff_exists.1 hn
  obtain ⟨before, rfl, rfl⟩ := exists_of_drop? hafter
  obtain ⟨after', hafter'⟩ := Option.isSome_iff_exists.1 hm
  obtain ⟨before', hcs, rfl⟩ := exists_of_drop? hafter'
  obtain ⟨middle, rfl, rfl⟩ := exists_append hcs h.le
  have hmiddle : middle ≠ [] := by
    rintro rfl
    simp at h
  rw [placeAt, placeAt, placeFrom_append, ← List.append_assoc, placeFrom_append, List.foldl_append]
  exact .foldl_next hmiddle _

end Text

namespace Source

theorem lineColumn?_of_isBoundary {source : Source} {offset : Nat}
    (h : Text.IsBoundary offset source.chars) :
    source.lineColumn? offset = some (source.lineColumn offset) := by
  have hmin : min offset (Text.size source.chars) = offset :=
    Nat.min_eq_left (Text.le_size_of_isBoundary h)
  have hsplits : ¬ Text.Splits offset source.chars := by
    rwa [← Text.isBoundary_min_iff, hmin]
  rw [lineColumn?_eq_ite, if_neg hsplits]

/-- Lines and columns are counts. Exactly the offsets inside a character have none. The line of
another is one more than the number of newlines before it, or before the end if it is past that, and
the column one more than the number of characters behind the last of them; the search for the line
finds the same. Between characters they grow with the offset, the line first, so no two offsets have
the same. -/
theorem lineColumn?_counts (source : Source) :
    (∀ offset, source.lineColumn? offset = none ↔ Text.Splits offset source.chars) ∧
      (∀ offset, ¬ Text.Splits offset source.chars → ∃ before after,
        source.chars = before ++ after ∧ Text.size before = min offset source.size ∧
          source.lineColumn? offset =
            some ⟨before.count '\n' + 1, (before.rtakeWhile (· ≠ '\n')).length + 1⟩) ∧
      (∀ offset, source.lineColumn? offset = Text.searchPlace? offset source.chars) ∧
      (∀ offset later, Text.IsBoundary offset source.chars → Text.IsBoundary later source.chars →
        offset < later → ∃ place next, source.lineColumn? offset = some place ∧
          source.lineColumn? later = some next ∧ place.Precedes next) ∧
      ∀ offset other, Text.IsBoundary offset source.chars → Text.IsBoundary other source.chars →
        source.lineColumn? offset = source.lineColumn? other → offset = other := by
  have hprecedes : ∀ {offset later}, Text.IsBoundary offset source.chars →
      Text.IsBoundary later source.chars → offset < later →
      (source.lineColumn offset).Precedes (source.lineColumn later) := Text.placeAt_precedes
  refine ⟨?_, ?_, ?_, ?_, ?_⟩
  · intro offset
    rw [lineColumn?_eq_ite]
    split <;> simp_all
  · intro offset h
    obtain ⟨before, after, hchars, hsize⟩ := Text.exists_before h
    refine ⟨before, after, hchars, hsize, ?_⟩
    rw [lineColumn?_eq_ite, if_neg h, lineColumn, hchars, Text.placeAt_eq (hchars ▸ hsize)]
    rfl
  · intro offset
    rw [lineColumn?_eq_ite, Text.searchPlace?_eq]
    rfl
  · intro offset later hoffset hlater h
    exact ⟨_, _, lineColumn?_of_isBoundary hoffset, lineColumn?_of_isBoundary hlater,
      hprecedes hoffset hlater h⟩
  · intro offset other hoffset hother h
    rw [lineColumn?_of_isBoundary hoffset, lineColumn?_of_isBoundary hother] at h
    have hplace := Option.some.inj h
    rcases Nat.lt_trichotomy offset other with hlt | rfl | hlt
    · exact absurd hplace (hprecedes hoffset hother hlt).ne
    · rfl
    · exact absurd hplace.symm (hprecedes hother hoffset hlt).ne

/-- A character of two bytes, an empty line and a newline at the end. -/
def wideFile : Source :=
  ⟨"wide.thrift", "é\n\nab\n"⟩

theorem lineColumn?_wideFile :
    wideFile.lineColumn? 1 = none ∧
      (∃ before after, wideFile.chars = before ++ after ∧ Text.size before = min 100 7 ∧
        wideFile.lineColumn? 100 =
          some ⟨before.count '\n' + 1, (before.rtakeWhile (· ≠ '\n')).length + 1⟩) ∧
      (∃ place next, wideFile.lineColumn? 3 = some place ∧ wideFile.lineColumn? 7 = some next ∧
        place.Precedes next) ∧
      (wideFile.lineColumn? 3 = some ⟨2, 1⟩ ∧ wideFile.lineColumn? 6 = some ⟨3, 3⟩ ∧
        wideFile.lineColumn? 7 = some ⟨4, 1⟩ ∧ wideFile.lineColumn? 100 = some ⟨4, 1⟩) := by
  obtain ⟨hinside, hcounts, -, hgrows, -⟩ := lineColumn?_counts wideFile
  exact ⟨(hinside 1).2 (by decide), hcounts 100 (by decide), hgrows 3 7 (by decide) (by decide)
    (by decide), by decide, by decide, by decide, by decide⟩

end Source
end Idl
