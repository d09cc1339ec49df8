import Idl.Proofs.Tokens

/-!
# What gaps are made of

A gap is a run of blanks, of line comments with the ends of their lines and of block comments, with
a byte order mark in front if the text starts there. Only at the end of the text may the line of a
comment not end. Reading a gap takes exactly as much of the text as has this form.
-/
namespace Idl.Gap

/-- A comment up to the end of its line. -/
inductive LineComment : List Char → Prop
  | slashes {text} (sameLine : '\n' ∉ text) : LineComment ('/' :: '/' :: text)
  | hash {text} (sameLine : '\n' ∉ text) : LineComment ('#' :: text)

/-- The smallest parts of a gap. The text of a block comment does not hold what closes it. -/
inductive Piece : List Char → Prop
  | blank {c} (h : isBlank c) : Piece [c]
  | line {comment} (h : LineComment comment) : Piece (comment ++ ['\n'])
  | block {text} (h : ¬ ['*', '/'] <:+: text) : Piece ('/' :: '*' :: (text ++ ['*', '/']))

/-- Pieces one after the other. -/
inductive Filler : List Char → Prop
  | nil : Filler []
  | cons {piece rest} (head : Piece piece) (tail : Filler rest) : Filler (piece ++ rest)

/-- The gap in front of something in the text, at an offset. -/
inductive Front (offset : Nat) : List Char → Prop
  | filler {gap} (h : Filler gap) : Front offset gap
  | marked {gap} (start : offset = 0) (h : Filler gap) : Front offset ('\uFEFF' :: gap)

/-- The gap at the end of the text. -/
inductive Back (offset : Nat) : List Char → Prop
  | closed {gap} (h : Front offset gap) : Back offset gap
  | line {gap comment} (h : Front offset gap) (hcomment : LineComment comment) :
      Back offset (gap ++ comment)

theorem Filler.of_piece {piece : List Char} (h : Piece piece) : Filler piece :=
  List.append_nil piece ▸ .cons h .nil

theorem Piece.ne_nil {piece : List Char} (h : Piece piece) : piece ≠ [] := by
  cases h with
  | blank => simp
  | line => simp
  | block => simp

/-- The characters that gaps start with. -/
def Opens (c : Char) : Prop :=
  isBlank c ∨ c = '#' ∨ c = '/' ∨ c = '\uFEFF'

instance (c : Char) : Decidable (Opens c) :=
  inferInstanceAs (Decidable (_ ∨ _))

theorem Opens.not_isWordPart {c : Char} (h : Opens c) : ¬ Reading.isWordPart c := by
  simp only [Opens, isBlank, Bool.or_eq_true, beq_iff_eq] at h
  rcases h with (((rfl | rfl) | rfl) | rfl) | rfl | rfl | rfl <;> decide

theorem LineComment.opens_head {c : Char} {text : List Char} (h : LineComment (c :: text)) :
    Opens c := by
  cases h with
  | slashes => exact .inr (.inr (.inl rfl))
  | hash => exact .inr (.inl rfl)

theorem Filler.opens_head {c : Char} {gap : List Char} (h : Filler (c :: gap)) : Opens c := by
  generalize hcs : c :: gap = cs at h
  cases h with
  | nil => cases hcs
  | cons head tail =>
    cases head with
    | blank h =>
      obtain ⟨rfl, -⟩ := List.cons.inj hcs
      exact .inl h
    | @line comment h =>
      cases comment with
      | nil => cases h
      | cons d comment =>
        obtain ⟨rfl, -⟩ := List.cons.inj hcs
        exact h.opens_head
    | block =>
      obtain ⟨rfl, -⟩ := List.cons.inj hcs
      exact .inr (.inr (.inl rfl))

theorem Front.opens_head {offset : Nat} {c : Char} {gap : List Char}
    (h : Front offset (c :: gap)) : Opens c := by
  cases h with
  | filler h => exact h.opens_head
  | marked => exact .inr (.inr (.inr rfl))

theorem Back.opens_head {offset : Nat} {c : Char} {gap : List Char}
    (h : Back offset (c :: gap)) : Opens c := by
  generalize hcs : c :: gap = cs at h
  cases h with
  | closed h => exact (hcs ▸ h).opens_head
  | @line front comment h hcomment =>
    cases front with
    | nil =>
      rw [List.nil_append] at hcs
      exact LineComment.opens_head (hcs ▸ hcomment)
    | cons d front =>
      obtain ⟨rfl, -⟩ := List.cons.inj hcs
      exact h.opens_head

/-! ### Reading pieces -/

section

variable {offset opened : Nat} {c : Char} {text rest : List Char}

theorem read_blank (h : isBlank c) :
    read .between offset (c :: rest) = read .between (offset + 1) rest := by
  have hne : c ≠ '/' := by rintro rfl; cases h
  rw [read.eq_4 _ _ _ (by simp [hne]) (by simp [hne]), if_pos h]

theorem read_other (hblank : ¬ isBlank c) (hhash : c ≠ '#')
    (hcomment : c = '/' → rest.head? ≠ some '/' ∧ rest.head? ≠ some '*')
    (hmark : c = '\uFEFF' → offset ≠ 0) :
    read .between offset (c :: rest) = .closed offset (c :: rest) := by
  rw [read.eq_4, if_neg hblank, if_neg hhash, if_neg fun h => hmark h.1 h.2]
  · rintro tail rfl rfl
    exact (hcomment rfl).1 rfl
  · rintro tail rfl rfl
    exact (hcomment rfl).2 rfl

theorem read_of_not_opens (h : ¬ Opens c) :
    read .between offset (c :: rest) = .closed offset (c :: rest) := by
  simp only [Opens, not_or] at h
  exact read_other h.1 h.2.1 (fun heq => absurd heq h.2.2.1) fun heq => absurd heq h.2.2.2

theorem read_line (h : '\n' ∉ text) :
    read .line offset (text ++ '\n' :: rest) =
      read .between (offset + Text.size text + 1) rest := by
  induction text generalizing offset with
  | nil => rfl
  | cons d text ih =>
    obtain ⟨hd, htext⟩ : d ≠ '\n' ∧ '\n' ∉ text := by simpa [eq_comm] using h
    rw [List.cons_append, read, if_neg hd, ih htext, Text.size_cons]
    congr 1
    omega

theorem read_line_end (h : '\n' ∉ text) :
    read .line offset text = .closed (offset + Text.size text) [] := by
  induction text generalizing offset with
  | nil => rfl
  | cons d text ih =>
    obtain ⟨hd, htext⟩ : d ≠ '\n' ∧ '\n' ∉ text := by simpa [eq_comm] using h
    rw [read, if_neg hd, ih htext, Text.size_cons]
    congr 1
    omega

theorem not_infix_tail {d : Char} (h : ¬ ['*', '/'] <:+: d :: text) : ¬ ['*', '/'] <:+: text :=
  fun htext => h (htext.trans (List.suffix_cons d text).isInfix)

theorem read_block (h : ¬ ['*', '/'] <:+: text) :
    read (.block opened) offset (text ++ '*' :: '/' :: rest) =
      read .between (offset + Text.size text + 2) rest := by
  induction text generalizing offset with
  | nil => rfl
  | cons d text ih =>
    rw [List.cons_append, read.eq_9, ih (not_infix_tail h), Text.size_cons]
    · congr 1
      omega
    · rintro tail rfl htail
      cases text with
      | nil => cases htail
      | cons e text =>
        obtain ⟨rfl, -⟩ := List.cons.inj htail
        exact h ⟨[], text, rfl⟩

theorem read_block_end (h : ¬ ['*', '/'] <:+: text) :
    read (.block opened) offset text = .unclosed opened (offset + Text.size text) := by
  induction text generalizing offset with
  | nil => rfl
  | cons d text ih =>
    rw [read.eq_9, ih (not_infix_tail h), Text.size_cons]
    · congr 1
      omega
    · rintro tail rfl rfl
      exact h ⟨[], tail, rfl⟩

/-- A comment that is opened and never closed goes on to the end of the text. -/
theorem read_unclosed (h : ¬ ['*', '/'] <:+: text) :
    read .between offset ('/' :: '*' :: text) =
      .unclosed offset (offset + Text.size ('/' :: '*' :: text)) := by
  refine (read_block_end h).trans ?_
  have hsizes : '/'.utf8Size = 1 ∧ '*'.utf8Size = 1 := by decide
  simp only [Text.size_cons, hsizes]
  congr 1
  omega

theorem read_piece {piece : List Char} (h : Piece piece) :
    read .between offset (piece ++ rest) = read .between (offset + Text.size piece) rest := by
  have hsizes : '/'.utf8Size = 1 ∧ '*'.utf8Size = 1 ∧ '#'.utf8Size = 1 ∧ '\n'.utf8Size = 1 := by
    decide
  cases h with
  | blank h => simp [read_blank h, utf8Size_of_isBlank h]
  | line h =>
    rw [List.append_assoc]
    cases h with
    | slashes h =>
      refine (read_line h).trans ?_
      congr 1
      simp [hsizes]
      omega
    | hash h =>
      refine (read_line h).trans ?_
      congr 1
      simp [hsizes]
      omega
  | block h =>
    rw [List.cons_append, List.cons_append, List.append_assoc]
    refine (read_block h).trans ?_
    congr 1
    simp [hsizes]
    omega

theorem read_filler {gap : List Char} (h : Filler gap) :
    read .between offset (gap ++ rest) = read .between (offset + Text.size gap) rest := by
  induction h generalizing offset with
  | nil => rfl
  | cons head _ ih =>
    rw [List.append_assoc, read_piece head, ih, Text.size_append, Nat.add_assoc]

theorem read_front {gap : List Char} (h : Front offset gap) :
    read .between offset (gap ++ rest) = read .between (offset + Text.size gap) rest := by
  cases h with
  | filler h => exact read_filler h
  | marked start h =>
    subst start
    refine (read_filler h).trans ?_
    rw [Text.size_cons]
    congr 1
    omega

theorem read_lineComment {comment : List Char} (h : LineComment comment) :
    read .between offset comment = .closed (offset + Text.size comment) [] := by
  have hsizes : '/'.utf8Size = 1 ∧ '#'.utf8Size = 1 := by decide
  cases h with
  | slashes h =>
    refine (read_line_end h).trans ?_
    congr 1
    simp only [Text.size_cons, hsizes]
    omega
  | hash h =>
    refine (read_line_end h).trans ?_
    simp only [Text.size_cons, hsizes, Nat.add_assoc]

theorem read_back {gap : List Char} (h : Back offset gap) :
    read .between offset gap = .closed (offset + Text.size gap) [] := by
  cases h with
  | closed h =>
    rw [← List.append_nil gap, read_front h, List.append_nil]
    rfl
  | line h hcomment =>
    rw [read_front h, read_lineComment hcomment, Text.size_append, Nat.add_assoc]

end

/-! ### Finding the gap -/

/-- What a text starts with that does not start with a piece of a gap. -/
inductive Stop : List Char → Prop
  | finish : Stop []
  | line {comment} (h : LineComment comment) : Stop comment
  | block {text} (h : ¬ ['*', '/'] <:+: text) : Stop ('/' :: '*' :: text)
  | other {c rest} (notBlank : ¬ isBlank c) (notHash : c ≠ '#')
      (notComment : c = '/' → rest.head? ≠ some '/' ∧ rest.head? ≠ some '*') : Stop (c :: rest)

/-- The first place where the text closes a block comment. -/
theorem exists_close {cs : List Char} (h : ['*', '/'] <:+: cs) :
    ∃ text rest, cs = text ++ '*' :: '/' :: rest ∧ ¬ ['*', '/'] <:+: text := by
  induction cs with
  | nil => simp at h
  | cons c cs ih =>
    by_cases hnow : ['*', '/'] <+: c :: cs
    · obtain ⟨rest, hrest⟩ := hnow
      exact ⟨[], rest, hrest.symm, by simp⟩
    · obtain ⟨text, rest, rfl, htext⟩ := ih ((List.infix_cons_iff.1 h).resolve_left hnow)
      refine ⟨c :: text, rest, rfl, fun hinfix => ?_⟩
      rcases List.infix_cons_iff.1 hinfix with hbegins | hinfix
      · exact hnow (hbegins.trans (List.prefix_append (c :: text) _))
      · exact htext hinfix

theorem stop_or_line {opener cs : List Char}
    (h : ∀ text, '\n' ∉ text → LineComment (opener ++ text)) :
    Stop (opener ++ cs) ∨ ∃ piece rest, opener ++ cs = piece ++ rest ∧ Piece piece := by
  by_cases hline : '\n' ∈ cs
  · obtain ⟨text, rest, rfl, htext⟩ := List.eq_append_cons_of_mem hline
    exact .inr ⟨opener ++ text ++ ['\n'], rest, by simp, .line (h text htext)⟩
  · exact .inl (.line (h cs hline))

/-- Either the text starts with a piece of a gap, or no more of it belongs to the gap. -/
theorem stop_or_piece (cs : List Char) :
    Stop cs ∨ ∃ piece rest, cs = piece ++ rest ∧ Piece piece := by
  cases cs with
  | nil => exact .inl .finish
  | cons c cs =>
    by_cases hblank : isBlank c
    · exact .inr ⟨[c], cs, rfl, .blank hblank⟩
    by_cases hhash : c = '#'
    · subst hhash
      exact @stop_or_line ['#'] cs fun _ => .hash
    by_cases hslashes : c = '/' ∧ cs.head? = some '/'
    · obtain ⟨rfl, hhead⟩ := hslashes
      obtain ⟨tail, rfl⟩ := List.head?_eq_some_iff.1 hhead
      exact @stop_or_line ['/', '/'] tail fun _ => .slashes
    by_cases hblock : c = '/' ∧ cs.head? = some '*'
    · obtain ⟨rfl, hhead⟩ := hblock
      obtain ⟨tail, rfl⟩ := List.head?_eq_some_iff.1 hhead
      by_cases hclose : ['*', '/'] <:+: tail
      · obtain ⟨text, rest, rfl, htext⟩ := exists_close hclose
        exact .inr ⟨'/' :: '*' :: (text ++ ['*', '/']), rest, by simp, .block htext⟩
      · exact .inl (.block hclose)
    · exact .inl (.other hblank hhash fun heq =>
        ⟨fun hhead => hslashes ⟨heq, hhead⟩, fun hhead => hblock ⟨heq, hhead⟩⟩)

/-- A text is pieces of a gap and what stops them. -/
theorem exists_filler (cs : List Char) : ∃ gap rest, cs = gap ++ rest ∧ Filler gap ∧ Stop rest := by
  induction hn : cs.length using Nat.strongRecOn generalizing cs with
  | ind n ih =>
    rcases stop_or_piece cs with hstop | ⟨piece, rest, rfl, hpiece⟩
    · exact ⟨[], cs, rfl, .nil, hstop⟩
    · have hpos := List.length_pos_iff.2 hpiece.ne_nil
      rw [List.length_append] at hn
      obtain ⟨gap, rest, rfl, hgap, hstop⟩ := ih _ (by omega) rest rfl
      exact ⟨piece ++ gap, rest, by simp, .cons hpiece hgap, hstop⟩

/-- A gap in front of a byte order mark is not empty. -/
theorem exists_front (offset : Nat) (cs : List Char) :
    ∃ gap rest, cs = gap ++ rest ∧ Front offset gap ∧ Stop rest ∧
      (rest.head? = some '\uFEFF' → offset + Text.size gap ≠ 0) := by
  by_cases hmark : offset = 0 ∧ cs.head? = some '\uFEFF'
  · obtain ⟨hoffset, hhead⟩ := hmark
    obtain ⟨cs, rfl⟩ := List.head?_eq_some_iff.1 hhead
    obtain ⟨gap, rest, rfl, hgap, hstop⟩ := exists_filler cs
    refine ⟨'\uFEFF' :: gap, rest, rfl, .marked hoffset hgap, hstop, fun _ => ?_⟩
    have := Char.utf8Size_pos '\uFEFF'
    rw [Text.size_cons]
    omega
  · obtain ⟨gap, rest, rfl, hgap, hstop⟩ := exists_filler cs
    refine ⟨gap, rest, rfl, .filler hgap, hstop, fun hrest hzero => hmark ?_⟩
    cases gap with
    | nil => exact ⟨hzero, hrest⟩
    | cons c gap =>
      have := c.utf8Size_pos
      simp only [Text.size_cons] at hzero
      omega

/-- What reading the gap at the front of a text comes to. -/
inductive Reads (offset : Nat) : List Char → Gap → Prop
  | other {gap c rest} (h : Front offset gap) :
      Reads offset (gap ++ c :: rest) (.closed (offset + Text.size gap) (c :: rest))
  | finish {gap} (h : Back offset gap) : Reads offset gap (.closed (offset + Text.size gap) [])
  | unclosed {gap text} (h : Front offset gap) (hclose : ¬ ['*', '/'] <:+: text) :
      Reads offset (gap ++ '/' :: '*' :: text)
        (.unclosed (offset + Text.size gap) (offset + Text.size (gap ++ '/' :: '*' :: text)))

/-- A gap is read to the end of its last piece. -/
theorem read_spec (offset : Nat) (cs : List Char) : Reads offset cs (read .between offset cs) := by
  obtain ⟨gap, rest, rfl, hgap, hstop, hmark⟩ := exists_front offset cs
  cases hstop with
  | finish =>
    rw [List.append_nil, read_back (.closed hgap)]
    exact .finish (.closed hgap)
  | line h =>
    rw [read_back (.line hgap h)]
    exact .finish (.line hgap h)
  | @block text h =>
    rw [read_front hgap, read_unclosed h, Nat.add_assoc, ← Text.size_append]
    exact .unclosed hgap h
  | other hblank hhash hcomment =>
    rw [read_front hgap, read_other hblank hhash hcomment fun hc => hmark (congrArg some hc)]
    exact .other hgap

end Idl.Gap
