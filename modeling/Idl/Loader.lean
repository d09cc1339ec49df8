import Idl.FilePath

/-!
# File access

A loader knows which paths name the same file, and the text of each file. It serves a finite set
of files, which bounds every search through them.
-/
namespace Idl

/-- Why a path could not be followed or a file could not be read. -/
inductive FileError where
  | entityNotFound
  | noSuchFile
  | notADirectory
  | isADirectory
  | nameTooLong
  | tooManyLinks
  | permissionDenied
  | invalidText
  | nulInName
deriving DecidableEq, Repr

def FileError.text : FileError → String
  | entityNotFound => "entity not found"
  | noSuchFile => "No such file or directory (os error 2)"
  | notADirectory => "Not a directory (os error 20)"
  | isADirectory => "Is a directory (os error 21)"
  | nameTooLong => "File name too long (os error 36)"
  | tooManyLinks => "Too many levels of symbolic links (os error 40)"
  | permissionDenied => "Permission denied (os error 13)"
  | invalidText => "stream did not contain valid UTF-8"
  | nulInName => "file name contained an unexpected NUL byte"

structure Loader where
  /-- The one path that stands for all paths of a file. -/
  canonicalize : String → Except FileError String
  /-- The text of the file with a canonical path. -/
  read : String → Except FileError String
  /-- The canonical paths of all files with a text. -/
  paths : List String
  mem_paths : ∀ {path text : String}, read path = .ok text → path ∈ paths

namespace Loader

/-- The first candidate that names a file, with its canonical path; if there is none, the error
of the first candidate. -/
def find (loader : Loader) : List String → Except FileError (String × String)
  | [] => .error .entityNotFound
  | candidate :: candidates =>
    match loader.canonicalize candidate with
    | .ok canonical => .ok (candidate, canonical)
    | .error error =>
      match loader.find candidates with
      | .ok found => .ok found
      | .error _ => .error error

end Loader
end Idl
