import Idl.Proofs.IndentedForest
import Idl.Proofs.WrittenTokens

/-!
# Painted text

Painting puts escape sequences into the text of diagnostics and leaves all else as it is. They stand
behind the margin where a line starts, and behind the heading in the middle of a line, so without
them the text is what is written without colour.
-/
namespace Idl

/-- The escape sequences that start and end painting. -/
def paintCodes : List (List Char) :=
  ["\x1b[38;5;1;1m".toList, "\x1b[38;5;6;1m".toList, "\x1b[0m".toList]

/-- Deletes the escape sequences for painting, from left to right. -/
def unpaint : List Char → List Char
  | [] => []
  | c :: cs =>
    match paintCodes.find? (·.isPrefixOf (c :: cs)) with
    | some code => unpaint (cs.drop (code.length - 1))
    | none => c :: unpaint cs
termination_by cs => cs.length
decreasing_by all_goals simp

variable {cs code : List Char}

/-- What holds no escape character is kept. -/
theorem unpaint_append (h : '\x1b' ∉ cs) (rest : List Char) :
    unpaint (cs ++ rest) = cs ++ unpaint rest := by
  induction cs with
  | nil => rfl
  | cons c cs ih =>
    rw [List.mem_cons, not_or] at h
    have hnone : paintCodes.find? (·.isPrefixOf (c :: (cs ++ rest))) = none := by
      simp [paintCodes, h.1]
    rw [List.cons_append, unpaint, hnone]
    simp [ih h.2]

theorem unpaint_code (h : code ∈ paintCodes) (rest : List Char) :
    unpaint (code ++ rest) = unpaint rest := by
  simp only [paintCodes, List.mem_cons, List.not_mem_nil, or_false] at h
  rcases h with rfl | rfl | rfl <;> simp [unpaint, paintCodes]

namespace IndentedText

variable {margin : Nat} {atStart : Bool}

theorem escape_notMem_spread (h : '\x1b' ∉ cs) : '\x1b' ∉ spread margin atStart cs := by
  induction cs generalizing atStart with
  | nil => simp [spread]
  | cons c cs ih =>
    rw [List.mem_cons, not_or] at h
    cases atStart <;> simp [spread, h.1, ih h.2]

/-- An escape sequence starts no line of its own: it goes behind the margin of the line that it
stands in. -/
theorem spread_code (h : code ∈ paintCodes) (rest : List Char) :
    spread margin atStart (code ++ rest) =
      (if atStart then List.replicate margin ' ' else []) ++
        (code ++ spread margin false rest) := by
  simp only [paintCodes, List.mem_cons, List.not_mem_nil, or_false] at h
  rcases h with rfl | rfl | rfl <;> simp [spread]

end IndentedText

theorem Severity.paint_mem (severity : Severity) : severity.paint.toList ∈ paintCodes := by
  cases severity <;> simp [paint, paintCodes]

theorem resetPaint_mem : resetPaint.toList ∈ paintCodes := by
  simp [resetPaint, paintCodes]

namespace Diagnostic

open IndentedText

/-- The message between the blank in front and the newline behind it. -/
def ending (diagnostic : Diagnostic) : List Char :=
  ' ' :: (diagnostic.message.text.toList ++ ['\n'])

/-- The heading ends in the middle of a line. -/
theorem startsBehind_heading (diagnostic : Diagnostic) :
    startsBehind false diagnostic.heading.toList = false := by
  have hcolon : diagnostic.heading.toList =
      (diagnostic.file ++ " (line " ++ toString diagnostic.location.line ++
        ", col " ++ toString diagnostic.location.column ++ ")").toList ++ [':'] := by
    simp [heading]
  rw [hcolon, startsBehind_concat]
  rfl

theorem spread_text (margin : Nat) (diagnostic : Diagnostic) :
    spread margin true (diagnostic.text.toList ++ ['\n']) = List.replicate margin ' ' ++
      (spread margin false diagnostic.heading.toList ++ spread margin false diagnostic.ending) := by
  have htext : diagnostic.text.toList ++ ['\n'] =
      diagnostic.heading.toList ++ diagnostic.ending := by
    simp [text, heading, ending]
  rw [spread_true_of_ne_nil _ (by simp), htext, spread_append, startsBehind_heading]

theorem spread_paintedText (margin : Nat) (diagnostic : Diagnostic) :
    spread margin true (diagnostic.paintedText.toList ++ ['\n']) = List.replicate margin ' ' ++
      (diagnostic.severity.paint.toList ++ (spread margin false diagnostic.heading.toList ++
        (resetPaint.toList ++ spread margin false diagnostic.ending))) := by
  have htext : diagnostic.paintedText.toList ++ ['\n'] = diagnostic.severity.paint.toList ++
      (diagnostic.heading.toList ++ (resetPaint.toList ++ diagnostic.ending)) := by
    simp [paintedText, ending]
  rw [htext, spread_code diagnostic.severity.paint_mem, spread_append, startsBehind_heading,
    spread_code resetPaint_mem]
  simp

theorem unpaint_indented {diagnostic : Diagnostic} (hfile : '\x1b' ∉ diagnostic.file.toList)
    (hmessage : '\x1b' ∉ diagnostic.message.text.toList) (margin : Nat) (rest : List Char) :
    unpaint ((indented margin diagnostic.paintedText).toList ++ rest) =
      (indented margin diagnostic.text).toList ++ unpaint rest := by
  have hmargin : '\x1b' ∉ List.replicate margin ' ' := by simp
  have hheading : '\x1b' ∉ spread margin false diagnostic.heading.toList := by
    have hdigits := @notMem_toDigits '\x1b' (by decide)
    apply escape_notMem_spread
    simp [heading, hfile, hdigits]
  have hending : '\x1b' ∉ spread margin false diagnostic.ending := by
    apply escape_notMem_spread
    simp [ending, hmessage]
  rw [toList_indented, toList_indented, spread_paintedText, spread_text]
  simp only [List.append_assoc]
  rw [unpaint_append hmargin, unpaint_code diagnostic.severity.paint_mem, unpaint_append hheading,
    unpaint_code resetPaint_mem, unpaint_append hending]

/-- Colour changes nothing but colour. If no file and no message holds an escape character, then the
painted text of diagnostics without its escape sequences is the text that is not painted. -/
theorem unpaint_renderAll {diagnostics : List Diagnostic}
    (h : ∀ entry ∈ outlineAll 0 diagnostics,
      '\x1b' ∉ entry.2.file.toList ∧ '\x1b' ∉ entry.2.message.text.toList) :
    String.ofList (unpaint (renderAll true diagnostics).toList) = renderAll false diagnostics := by
  have hentries : ∀ entries : List (Nat × Diagnostic), (∀ entry ∈ entries,
      '\x1b' ∉ entry.2.file.toList ∧ '\x1b' ∉ entry.2.message.text.toList) →
      unpaint (entries.flatMap fun entry =>
        (indented (2 * entry.1) entry.2.paintedText).toList) =
        entries.flatMap fun entry => (indented (2 * entry.1) entry.2.text).toList := by
    intro entries
    induction entries with
    | nil => simp [unpaint]
    | cons entry entries ih =>
      intro h
      obtain ⟨⟨hfile, hmessage⟩, hrest⟩ := List.forall_mem_cons.1 h
      rw [List.flatMap_cons, List.flatMap_cons, unpaint_indented hfile hmessage, ih hrest]
  apply String.toList_injective
  rw [renderAll_eq, renderAll_eq, forest, forest, String.toList_ofList, String.toList_join,
    String.toList_join, List.flatMap_map, List.flatMap_map]
  exact hentries _ h

/-- A painted heading over two lines, and one behind a margin. -/
theorem unpaint_brokenLines :
    renderAll true brokenLines = "\x1b[38;5;1;1ma\n (line 1, col 1):\x1b[0m name 'x\n\n' must be " ++
        "a service definition\n  \x1b[38;5;6;1m (line 2, col 3):\x1b[0m could not read include " ++
        "file 'b': \n  \n" ∧
      String.ofList (unpaint (renderAll true brokenLines).toList) = brokenLinesText :=
  ⟨by rfl, (unpaint_renderAll (by decide)).trans (by rfl)⟩

end Diagnostic
end Idl
