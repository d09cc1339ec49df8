/-!
# File paths

Paths are texts of segments between slashes. Empty segments and `.` inside a path mean nothing;
a leading slash makes the path absolute, and a leading `.` is kept as a component. All functions
here look at the text alone.
-/
namespace Idl.FilePath

/-- Cuts a text at every slash. -/
def splitSlashes : List Char → List (List Char)
  | [] => [[]]
  | c :: cs =>
    if c = '/' then [] :: splitSlashes cs
    else match splitSlashes cs with
      | [] => [[c]]
      | segment :: segments => (c :: segment) :: segments

def segments (path : String) : List String :=
  (splitSlashes path.toList).map String.ofList

inductive Component where
  | root
  | here
  | up
  | name (text : String)
deriving DecidableEq, Repr

/-- A segment that adds nothing to the path before it. -/
def isBlank (segment : String) : Bool :=
  segment == "" || segment == "."

/-- The component that a segment after the first stands for. -/
def innerComponent? (segment : String) : Option Component :=
  if isBlank segment then none else if segment = ".." then some .up else some (.name segment)

/-- The component that the first segment stands for; `more` tells whether others follow. -/
def firstComponent? (segment : String) (more : Bool) : Option Component :=
  if segment = "" then (if more then some .root else none)
  else if segment = "." then some .here
  else innerComponent? segment

def components (path : String) : List Component :=
  match segments path with
  | [] => []
  | first :: rest =>
    (firstComponent? first (!rest.isEmpty)).toList ++ rest.filterMap innerComponent?

def isAbsolute (path : String) : Bool :=
  path.toList.head? == some '/'

/-- A name as seen from a directory; an absolute name stands for itself. -/
def join (directory name : String) : String :=
  if isAbsolute name then name
  else match directory.toList.getLast? with
    | none => name
    | some '/' => directory ++ name
    | some _ => directory ++ "/" ++ name

/-- The path without its last component, which takes the blank segments around it along. A path
without components and the root alone have no parent. -/
def parent? (path : String) : Option String :=
  match segments path with
  | [] => none
  | first :: rest =>
    match rest.reverse.dropWhile isBlank with
    | [] => if first = "" then none else some ""
    | _ :: before =>
      match (before.dropWhile isBlank).reverse with
      | [] => some (if first = "" then "/" else first)
      | kept => some ("/".intercalate (first :: kept))

/-- The directory that the names in a file are relative to. -/
def directory (path : String) : String :=
  (parent? path).getD ""

/-- The last component, if it is an ordinary name. -/
def fileName? (path : String) : Option String :=
  match (components path).getLast? with
  | some (.name text) => some text
  | _ => none

/-- What is before and after the last dot of a name. A dot at the very start does not count. -/
def splitExtension (name : String) : String × Option String :=
  let reversed := name.toList.reverse
  match reversed.dropWhile (· ≠ '.') with
  | _ :: stem@(_ :: _) =>
    (String.ofList stem.reverse, some (String.ofList (reversed.takeWhile (· ≠ '.')).reverse))
  | _ => (name, none)

/-- The name of a file without its extension. -/
def stem? (path : String) : Option String :=
  (fileName? path).map fun name => (splitExtension name).1

def extension? (path : String) : Option String :=
  (fileName? path).bind fun name => (splitExtension name).2

/-- An absolute or relative path in normal form, its names from the last to the first. -/
structure Normal where
  absolute : Bool
  reversed : List String
deriving DecidableEq, Repr

namespace Normal

def empty : Normal :=
  ⟨false, []⟩

/-- Follows one component; `..` takes back whatever the last name is, and stays if there is
none. -/
def follow (path : Normal) : Component → Normal
  | .root => ⟨true, []⟩
  | .here => path
  | .name text => { path with reversed := text :: path.reversed }
  | .up =>
    match path.reversed with
    | [] => { path with reversed := [".."] }
    | _ :: before => { path with reversed := before }

def text (path : Normal) : String :=
  (if path.absolute then "/" else "") ++ "/".intercalate path.reversed.reverse

end Normal

/-- The path without `.` and `..` as far as its text allows. -/
def normalize (path : String) : String :=
  ((components path).foldl Normal.follow .empty).text

end Idl.FilePath
