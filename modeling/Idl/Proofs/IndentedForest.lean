import Idl.Diagnostic.Render
import Idl.Proofs.Visits
import Mathlib.Data.List.SplitBy

/-!
# Diagnostics as an indented forest

Diagnostics are written as the lines of each of them, every one followed by those of its notes, and
each line stands behind a margin of two blanks for every diagnostic that it lies under. In which
pieces the lines arrive makes no difference, so the margin is neither lost nor doubled where a piece
is empty, ends with a newline or holds several lines.
-/
namespace Idl

namespace IndentedText

variable {cs ds : List Char} {out : IndentedText}

/-- The characters with a margin in front of each line. The flag tells whether the first of them
starts a line. -/
def spread (margin : Nat) : Bool → List Char → List Char
  | _, [] => []
  | atStart, c :: cs =>
    (if atStart then List.replicate margin ' ' else []) ++ c :: spread margin (c = '\n') cs

/-- Whether a line starts behind the characters. -/
def startsBehind (atStart : Bool) (cs : List Char) : Bool :=
  cs.foldl (fun _ c => c = '\n') atStart

@[simp] theorem startsBehind_concat (atStart : Bool) (cs : List Char) (c : Char) :
    startsBehind atStart (cs ++ [c]) = decide (c = '\n') := by
  simp [startsBehind]

theorem startsBehind_append (atStart : Bool) (cs ds : List Char) :
    startsBehind atStart (cs ++ ds) = startsBehind (startsBehind atStart cs) ds := by
  simp [startsBehind]

theorem spread_append (margin : Nat) (atStart : Bool) (cs ds : List Char) :
    spread margin atStart (cs ++ ds) =
      spread margin atStart cs ++ spread margin (startsBehind atStart cs) ds := by
  induction cs generalizing atStart with
  | nil => simp [spread, startsBehind]
  | cons c cs ih => simp [spread, ih, startsBehind]

/-- Writes characters, whatever lines they belong to. -/
def put (out : IndentedText) (cs : List Char) : IndentedText :=
  { out with
    text := out.text ++ String.ofList (spread out.margin out.atLineStart cs)
    atLineStart := startsBehind out.atLineStart cs }

@[simp] theorem put_nil (out : IndentedText) : out.put [] = out := by
  simp [put, spread, startsBehind]

theorem put_append (out : IndentedText) (cs ds : List Char) :
    out.put (cs ++ ds) = (out.put cs).put ds := by
  simp [put, spread_append, startsBehind_append, String.append_assoc]

/-! ### What is written depends on the characters only -/

/-- In the middle of a line there is no margin. -/
theorem spread_false_of_isChain (margin : Nat)
    (h : cs.IsChain fun c _ => decide (c ≠ '\n') = true) : spread margin false cs = cs := by
  induction cs with
  | nil => rfl
  | cons c cs ih =>
    cases cs with
    | nil => simp [spread]
    | cons d cs =>
      obtain ⟨hc, hrest⟩ := List.isChain_cons_cons.1 h
      have hc : c ≠ '\n' := by simpa using hc
      rw [spread, decide_eq_false hc, ih hrest]
      simp

theorem writeLine_eq_put (hne : cs ≠ []) (h : cs.IsChain fun c _ => decide (c ≠ '\n') = true) :
    out.writeLine cs = out.put cs := by
  have hspread : spread out.margin out.atLineStart cs =
      (if out.atLineStart then List.replicate out.margin ' ' else []) ++ cs := by
    have hmiddle := spread_false_of_isChain out.margin h
    cases cs with
    | nil => contradiction
    | cons c cs => simpa [spread] using hmiddle
  have hbehind : startsBehind out.atLineStart cs = decide (cs.getLast? = some '\n') := by
    obtain ⟨before, last, rfl⟩ := (List.eq_nil_or_concat' cs).resolve_left hne
    simp
  rw [writeLine, put, hspread, hbehind]

theorem write_eq_put (out : IndentedText) (piece : String) :
    out.write piece = out.put piece.toList := by
  have hlines : ∀ (lines : List (List Char)) (out : IndentedText),
      (∀ line ∈ lines, line ≠ [] ∧ line.IsChain fun c _ => decide (c ≠ '\n') = true) →
        lines.foldl writeLine out = out.put lines.flatten := by
    intro lines
    induction lines with
    | nil => simp
    | cons line lines ih =>
      intro out h
      obtain ⟨⟨hne, hchain⟩, hlines⟩ := List.forall_mem_cons.1 h
      rw [List.foldl_cons, writeLine_eq_put hne hchain, ih _ hlines, List.flatten_cons, put_append]
  rw [write, hlines, List.flatten_splitBy]
  intro line hline
  exact ⟨List.ne_nil_of_mem_splitBy hline, List.isChain_of_mem_splitBy hline⟩

/-- It makes no difference whether two pieces are written at once. -/
theorem write_append (out : IndentedText) (a b : String) :
    out.write (a ++ b) = (out.write a).write b := by
  simp [write_eq_put, put_append]

theorem foldl_write (out : IndentedText) (pieces : List String) :
    pieces.foldl write out = out.write (String.join pieces) := by
  induction pieces generalizing out with
  | nil => simp [write_eq_put]
  | cons piece pieces ih => rw [List.foldl_cons, ih, String.join_cons, write_append]

/-! ### Lines behind a margin -/

/-- The text with a newline behind it and a margin in front of each of its lines, of which there is
one more than newlines in it. -/
def indented (margin : Nat) (text : String) : String :=
  String.join ((text.toList.splitOn '\n').map fun line =>
    String.ofList (List.replicate margin ' ' ++ line ++ ['\n']))

theorem spread_true_of_ne_nil (margin : Nat) (h : cs ≠ []) :
    spread margin true cs = List.replicate margin ' ' ++ spread margin false cs := by
  cases cs with
  | nil => contradiction
  | cons c cs => simp [spread]

theorem spread_concat_newline (margin : Nat) (cs : List Char) :
    spread margin true (cs ++ ['\n']) =
      ((cs.splitOn '\n').map fun line => List.replicate margin ' ' ++ line ++ ['\n']).flatten := by
  induction cs with
  | nil => simp [spread]
  | cons c cs ih =>
    rw [List.splitOn_cons_eq_if_modifyHead, List.cons_append, spread_true_of_ne_nil _ (by simp)]
    by_cases hc : c = '\n'
    · simp [spread, hc, ih]
    · -- the character goes to the first line of the rest
      obtain ⟨line, lines, hsplit⟩ := List.exists_cons_of_ne_nil (List.splitOn_ne_nil '\n' cs)
      rw [spread_true_of_ne_nil _ (by simp), hsplit] at ih
      simpa [spread, hc, hsplit] using ih

theorem toList_indented (margin : Nat) (text : String) :
    (indented margin text).toList = spread margin true (text.toList ++ ['\n']) := by
  rw [spread_concat_newline, indented, String.toList_join, List.flatMap_map]
  simp [List.flatMap_def]

/-- At the start of a line a text is written line by line, and another line starts behind it. -/
theorem write_concat_newline (h : out.atLineStart = true) (text : String) :
    out.write (text ++ "\n") = { out with text := out.text ++ indented out.margin text } := by
  have hchars : (text ++ "\n").toList = text.toList ++ ['\n'] := String.toList_append
  rw [write_eq_put, put, hchars, h, ← toList_indented, startsBehind_concat]
  simp

end IndentedText

/-! ### The forest -/

namespace Diagnostic

/-- What is written of a diagnostic without its notes: the file, the place and the message. -/
def text (diagnostic : Diagnostic) : String :=
  diagnostic.file ++ " (line " ++ toString diagnostic.location.line ++ ", col " ++
    toString diagnostic.location.column ++ "): " ++ diagnostic.message.text

/-- The same with the file and the place painted. -/
def paintedText (diagnostic : Diagnostic) : String :=
  diagnostic.severity.paint ++ diagnostic.heading ++ resetPaint ++ " " ++ diagnostic.message.text

def shownText (colour : Bool) (diagnostic : Diagnostic) : String :=
  if colour then diagnostic.paintedText else diagnostic.text

theorem join_pieces (colour : Bool) (diagnostic : Diagnostic) :
    String.join (diagnostic.pieces colour) = diagnostic.shownText colour ++ "\n" := by
  cases colour <;> simp [pieces, shownText, text, paintedText, String.append_assoc]

/-- The diagnostics and those under them in the order in which they are made, each indented by two
blanks for every one that it lies under. -/
def forest (shown : Diagnostic → String) (depth : Nat) (diagnostics : List Diagnostic) : String :=
  String.join ((outlineAll depth diagnostics).map fun entry =>
    IndentedText.indented (2 * entry.1) (shown entry.2))

/-- The diagnostics may be written in these steps: each of them in some pieces, then its notes
behind a wider margin, then the diagnostics that follow. -/
inductive WritesAs (shown : Diagnostic → String) :
    IndentedText → List Diagnostic → IndentedText → Prop
  | nil (out) : WritesAs shown out [] out
  | cons {out line noted last diagnostic diagnostics} (pieces : List String)
      (joined : String.join pieces = shown diagnostic ++ "\n")
      (written : pieces.foldl IndentedText.write out = line)
      (notes : WritesAs shown { line with margin := line.margin + 2 } diagnostic.also noted)
      (rest : WritesAs shown { noted with margin := line.margin } diagnostics last) :
      WritesAs shown out (diagnostic :: diagnostics) last

theorem writesAs_writeAll (colour : Bool) : ∀ (out : IndentedText) (diagnostics : List Diagnostic),
    WritesAs (shownText colour) out diagnostics (writeAll colour out diagnostics)
  | out, [] => by
    rw [writeAll]
    exact .nil out
  | out, ⟨severity, file, span, location, message, also⟩ :: diagnostics => by
    rw [writeAll, write]
    exact .cons _ (join_pieces colour _) rfl (writesAs_writeAll colour _ also)
      (writesAs_writeAll colour _ diagnostics)

theorem WritesAs.eq {shown : Diagnostic → String}
    (hshown : ∀ diagnostic : Diagnostic, shown { diagnostic with also := [] } = shown diagnostic)
    {out last : IndentedText} {diagnostics : List Diagnostic} {depth : Nat}
    (h : WritesAs shown out diagnostics last) (hmargin : out.margin = 2 * depth)
    (hstart : out.atLineStart = true) :
    last = { out with text := out.text ++ forest shown depth diagnostics } := by
  induction h generalizing depth with
  | nil out => simp [forest, outlineAll]
  | @cons out line noted last diagnostic diagnostics pieces joined written _ _ ihNotes ihRest =>
    have hline : line = { out with
        text := out.text ++ IndentedText.indented (2 * depth) (shown diagnostic) } := by
      rw [← written, IndentedText.foldl_write, joined, IndentedText.write_concat_newline hstart,
        hmargin]
    subst hline
    have hnoted := @ihNotes (depth + 1) (by simp [hmargin]; omega) hstart
    subst hnoted
    have hlast := @ihRest depth hmargin hstart
    simp [hlast, forest, outlineAll_cons, hshown, String.append_assoc]

theorem WritesAs.text_eq {colour : Bool} {diagnostics : List Diagnostic} {last : IndentedText}
    (h : WritesAs (shownText colour) .empty diagnostics last) :
    last.text = forest (shownText colour) 0 diagnostics := by
  have hlast := @WritesAs.eq (shownText colour) (fun _ => rfl) _ _ _ 0 h rfl rfl
  simp [hlast, IndentedText.empty]

theorem renderAll_eq (colour : Bool) (diagnostics : List Diagnostic) :
    renderAll colour diagnostics = forest (shownText colour) 0 diagnostics :=
  (writesAs_writeAll colour .empty diagnostics).text_eq

/-- The text of diagnostics is the indented forest: one behind the other, each before those under
it, file, place and message with every line indented by two blanks for each diagnostic above. It is
the same in whichever pieces that is written. -/
theorem renderAll_eq_forest (diagnostics : List Diagnostic) :
    renderAll false diagnostics = forest text 0 diagnostics ∧
      ∀ last, WritesAs text .empty diagnostics last → last.text = forest text 0 diagnostics :=
  ⟨renderAll_eq false diagnostics, fun _ h => @WritesAs.text_eq false _ _ h⟩

/-- A file and messages with newlines, also at their ends, and a note. -/
def brokenLines : List Diagnostic :=
  [⟨.error, "a\n", ⟨0, 0⟩, ⟨1, 1⟩, .notAService "x\n\n",
    [⟨.note, "", ⟨0, 0⟩, ⟨2, 3⟩, .includeUnreadable "b" "\n", []⟩]⟩]

def brokenLinesText : String :=
  "a\n (line 1, col 1): name 'x\n\n' must be a service definition\n" ++
    "   (line 2, col 3): could not read include file 'b': \n  \n"

theorem renderAll_brokenLines :
    WritesAs text .empty brokenLines ⟨brokenLinesText, 0, true⟩ ∧
      renderAll false brokenLines = brokenLinesText := by
  have hwrites : WritesAs text .empty brokenLines ⟨brokenLinesText, 0, true⟩ :=
    .cons ["a\n (line 1, ", "", "col 1): name 'x\n", "\n", "' must be a service definition\n"]
      (by decide) (by rfl)
      (.cons [" (line 2, col 3): could not read include file 'b': \n", "", "\n"]
        (by decide) (by rfl) (.nil _) (.nil _))
      (.nil _)
  obtain ⟨hrender, hsame⟩ := renderAll_eq_forest brokenLines
  exact ⟨hwrites, hrender.trans (hsame _ hwrites).symm⟩

end Diagnostic

end Idl
