/-!
# Byte offsets in text

Positions in a schema file are byte offsets into its UTF-8 form, while the text itself is read
character by character. This module converts between the two views: what lies after an offset,
what lies between two offsets, and the line and column that an offset falls on.
-/
namespace Idl.Text

/-- Number of bytes that the characters take in UTF-8. -/
def size : List Char → Nat
  | [] => 0
  | c :: cs => c.utf8Size + size cs

@[simp] theorem size_nil : size [] = 0 := rfl

@[simp] theorem size_cons (c : Char) (cs : List Char) : size (c :: cs) = c.utf8Size + size cs := rfl

@[simp] theorem size_append (cs ds : List Char) : size (cs ++ ds) = size cs + size ds := by
  induction cs with
  | nil => exact (Nat.zero_add _).symm
  | cons c cs ih => rw [List.cons_append, size_cons, size_cons, ih, Nat.add_assoc]

/-- A first character takes the first bytes. -/
theorem exists_size_cons (c : Char) (cs : List Char) :
    ∃ k, size (c :: cs) = k + 1 ∧ c.utf8Size ≤ k + 1 ∧ k + 1 - c.utf8Size = size cs := by
  have hpos := c.utf8Size_pos
  refine ⟨size (c :: cs) - 1, ?_, ?_, ?_⟩ <;> simp only [size_cons] <;> omega

/-- The characters from a byte offset on, if the offset lies on a character boundary. -/
def drop? : Nat → List Char → Option (List Char)
  | 0, cs => some cs
  | _ + 1, [] => none
  | n + 1, c :: cs => if c.utf8Size ≤ n + 1 then drop? (n + 1 - c.utf8Size) cs else none

/-- The characters before a byte offset, if the offset lies on a character boundary. -/
def take? : Nat → List Char → Option (List Char)
  | 0, _ => some []
  | _ + 1, [] => none
  | n + 1, c :: cs =>
    if c.utf8Size ≤ n + 1 then (take? (n + 1 - c.utf8Size) cs).map (c :: ·) else none

/-- The characters between two offsets, if both lie on character boundaries and in order. -/
def slice? (start stop : Nat) (cs : List Char) : Option (List Char) :=
  if start ≤ stop then (drop? start cs).bind (take? (stop - start)) else none

/-- The offset lies between two characters or at an end of the text. -/
def IsBoundary (n : Nat) (cs : List Char) : Prop :=
  (drop? n cs).isSome

instance (n : Nat) (cs : List Char) : Decidable (IsBoundary n cs) :=
  inferInstanceAs (Decidable (_ = true))

theorem drop?_size (cs ds : List Char) : drop? (size cs) (cs ++ ds) = some ds := by
  induction cs with
  | nil => cases ds <;> rfl
  | cons c cs ih =>
    obtain ⟨k, hk, hle, hrest⟩ := exists_size_cons c cs
    rw [hk, List.cons_append, drop?, if_pos hle, hrest, ih]

/-- A place in a text, counted in lines and characters from one. -/
structure LineColumn where
  line : Nat
  column : Nat
deriving DecidableEq, Repr

/-- The place after reading one more character. -/
def LineColumn.next (place : LineColumn) (c : Char) : LineColumn :=
  if c = '\n' then ⟨place.line + 1, 1⟩ else ⟨place.line, place.column + 1⟩

/-- The place that the offset `n` falls on when the text `cs` starts at `place`. An offset past
the end counts as the end, one inside a character as the start of that character. -/
def placeFrom (place : LineColumn) : Nat → List Char → LineColumn
  | 0, _ => place
  | _ + 1, [] => place
  | n + 1, c :: cs =>
    if c.utf8Size ≤ n + 1 then placeFrom (place.next c) (n + 1 - c.utf8Size) cs else place

def placeAt (n : Nat) (cs : List Char) : LineColumn :=
  placeFrom ⟨1, 1⟩ n cs

end Idl.Text
