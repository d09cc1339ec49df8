import Idl.CommandLine
import Idl.Loader.Disk

/-!
# The program

Reads from disk the files that the command line may come to, checks them, prints what there is
to print and exits.
-/
namespace Idl

/-- What the disk answered so far. -/
structure Answers where
  canonical : List (String × Except FileError String)
  texts : List (String × Except FileError String)

namespace Answers

def canonicalize (answers : Answers) (path : String) : Except FileError String :=
  (answers.canonical.lookup path).getD (.error .noSuchFile)

def read (answers : Answers) (path : String) : Except FileError String :=
  (answers.texts.lookup path).getD (.error .noSuchFile)

theorem mem_of_read {answers : Answers} {path text : String} (h : answers.read path = .ok text) :
    path ∈ answers.texts.map Prod.fst := by
  unfold read at h
  cases hf : answers.texts.lookup path with
  | none => simp [hf] at h
  | some found =>
    obtain ⟨before, after, he, _⟩ := List.lookup_eq_some_iff.1 hf
    simp [he]

def loader (answers : Answers) : Loader :=
  ⟨answers.canonicalize, answers.read, answers.texts.map Prod.fst, mem_of_read⟩

end Answers

def fileError : IO.Error → FileError
  | .noFileOrDirectory _ _ _ => .noSuchFile
  | .permissionDenied _ _ _ => .permissionDenied
  | .inappropriateType _ code _ => if systemCode code = 20 then .notADirectory else .isADirectory
  | .invalidArgument _ code _ =>
    if systemCode code = 36 then .nameTooLong
    else if systemCode code = 40 then .tooManyLinks
    else .nulInName
  | _ => .noSuchFile
where
  /-- Some operations give the negated code. -/
  systemCode (code : UInt32) : UInt32 :=
    min code (0 - code)

/-- The text that the disk gives for a path. -/
def askText (path : String) : IO (Except FileError String) := do
  try
    let bytes ← IO.FS.readBinFile path
    match String.fromUTF8? bytes with
    | some text => return .ok text
    | none => return .error .invalidText
  catch error =>
    return .error (fileError error)

/-- The canonical path that the disk gives for a path. What is wrong with a path that has none
shows when it is read. -/
def askCanonical (path : String) : IO (Except FileError String) := do
  try
    return .ok (← IO.FS.realPath path).toString
  catch _ =>
    match ← askText path with
    | .ok _ => return .error .noSuchFile
    | .error error => return .error error

/-- A search through the files that a program may include. -/
structure DiskSearch where
  answers : Answers
  /-- Paths from which every include has been followed to its end. -/
  settled : List String
  /-- Number of includes that led back to a file on the way to them. -/
  cycles : Nat

namespace DiskSearch

/-- Asks for the canonical path and the text of a file. -/
def ask (search : DiskSearch) (path : String) : IO (DiskSearch × Except FileError String) := do
  let mut answers := search.answers
  if (answers.canonical.lookup path).isNone then
    answers := { answers with canonical := (path, ← askCanonical path) :: answers.canonical }
  let canonical := answers.canonicalize path
  if let .ok file := canonical then
    if (answers.texts.lookup file).isNone then
      answers := { answers with texts := (file, ← askText file) :: answers.texts }
  return ({ search with answers }, canonical)

/-- Follows the includes of a file. `active` holds the files on the way to it, to which the search
does not return; a path from which it would have to is not settled. -/
partial def follow (search : DiskSearch) (includePaths : List String) (active : List String)
    (path : String) : IO DiskSearch := do
  if path ∈ search.settled then
    return search
  let (asked, canonical) ← search.ask path
  let .ok file := canonical | return asked
  if file ∈ active then
    return { asked with cycles := asked.cycles + 1 }
  let .ok text := asked.answers.read file | return asked
  let .ok parsed := Source.parse ⟨path, text⟩ | return asked
  let mut search := asked
  for directive in parsed.document.includes do
    for candidate in includeCandidates includePaths path directive do
      search ← search.follow includePaths (file :: active) candidate
  if search.cycles = asked.cycles then
    return { search with settled := path :: search.settled }
  return search

end DiskSearch
end Idl

open Idl

def main (arguments : List String) : IO UInt32 := do
  let mut search : DiskSearch := ⟨⟨[], []⟩, [], 0⟩
  if let .ok (.check options) := CommandLine.parse .empty arguments then
    for path in options.files do
      search ← search.follow options.includePaths [] path
  let terminal ← (← IO.getStderr).isTty
  let outcome := CommandLine.run search.answers.loader terminal arguments
  IO.print outcome.output
  IO.eprint outcome.errors
  return outcome.exitCode.toUInt32
