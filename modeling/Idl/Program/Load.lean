import Idl.Diagnostic
import Idl.Loader
import Idl.Program
import Idl.Syntax.Parser

/-!
# Loading a program

Starting from the root file, every include directive is resolved and the file it leads to is
loaded, unless it has been loaded before. A file that is still being loaded must not be included
again, so the files on the way from the root are distinct, and loading ends.
-/
namespace Idl

/-- The name of the file that an include directive asks for: `.thrift` is added unless it is
there. -/
def includedFile (text : String) : String :=
  if FilePath.extension? text = some "thrift" then text else text ++ ".thrift"

def packageName (path : String) : String :=
  (FilePath.stem? path).getD ""

/-- A file that is to be loaded: the path it was reached by, its canonical path and its text. -/
structure FoundFile where
  path : String
  canonical : String
  text : String
deriving Repr

/-- The files and problems found so far. -/
structure Loading where
  trees : List SourceTree
  /-- Files that are done, by canonical path, with their trees unless they failed. -/
  finished : List (String × Option Nat)
  diagnostics : List Diagnostic
  failed : Bool
deriving Repr

namespace Loading

def empty : Loading :=
  ⟨[], [], [], false⟩

def report (state : Loading) (source : Source) (reports : List Report) : Loading :=
  { state with diagnostics := state.diagnostics ++ source.diagnose reports }

/-- Ends the loading of a file without a tree. -/
def fail (state : Loading) (canonical : String) : Loading :=
  { state with finished := (canonical, none) :: state.finished, failed := true }

/-- Ends the loading of a file with a tree and gives the tree's number. -/
def finish (state : Loading) (canonical : String) (tree : SourceTree) : Option Nat × Loading :=
  let number := state.trees.length
  (some number,
    { state with
      trees := state.trees ++ [tree]
      finished := (canonical, some number) :: state.finished })

end Loading

/-- What becomes of an include directive. -/
inductive IncludeOutcome (loader : Loader) (active : List String) where
  /-- The directive is wrong. -/
  | refused (report : Report)
  /-- The file was loaded before; it has a tree unless it failed. -/
  | finished (tree : Option Nat)
  /-- The file is to be loaded now. -/
  | fresh (file : FoundFile) (is_file : file.canonical ∈ loader.paths)
    (is_new : file.canonical ∉ active)

/-- The paths at which an include directive of a file may find its file. The file's own directory
comes first, then the include paths. -/
def includeCandidates (includePaths : List String) (path : String)
    (directive : IncludeDirective) : List String :=
  (FilePath.directory path :: includePaths).map
    (FilePath.join · (includedFile directive.path.text))

/-- Resolves an include directive of `source`. -/
def resolveInclude (loader : Loader) (includePaths : List String) (active : List String)
    (finished : List (String × Option Nat)) (source : Source) (directive : IncludeDirective) :
    IncludeOutcome loader active :=
  let text := directive.path.text
  let refuse := fun message => IncludeOutcome.refused (.error directive.path.span message)
  match loader.find (includeCandidates includePaths source.path directive) with
  | .error error => refuse (.includeUnreadable text error.text)
  | .ok (path, canonical) =>
    if h : canonical ∈ active then refuse (.includeCycle text)
    else match finished.lookup canonical with
      | some tree => .finished tree
      | none =>
        match hr : loader.read canonical with
        | .error error => refuse (.includeUnreadable text error.text)
        | .ok contents => .fresh ⟨path, canonical, contents⟩ (loader.mem_paths hr) h

/-- Number of files that are not being loaded. -/
def idleFiles (loader : Loader) (active : List String) : Nat :=
  (loader.paths.filter (· ∉ active)).length

theorem idleFiles_cons_lt {loader : Loader} {active : List String} {path : String}
    (is_file : path ∈ loader.paths) (is_new : path ∉ active) :
    idleFiles loader (path :: active) < idleFiles loader active := by
  have h : loader.paths.filter (· ∉ path :: active) =
      (loader.paths.filter (· ∉ active)).filter (· ≠ path) := by
    simp [List.filter_filter]
  unfold idleFiles
  rw [h, List.length_filter_lt_length_iff_exists]
  exact ⟨path, by simp [is_file, is_new], by simp⟩

/-- The include directives of a file that have been dealt with: their edges, and whether all of
them led to a tree. -/
structure IncludeProgress where
  edges : List IncludeEdge
  complete : Bool
  state : Loading

namespace IncludeProgress

/-- Notes that a directive led to a tree, or to none. -/
def settle (progress : IncludeProgress) (name : String) (directive : IncludeDirective) :
    Option Nat × Loading → IncludeProgress
  | (some tree, state) =>
    { progress with edges := progress.edges ++ [⟨name, directive, tree⟩], state }
  | (none, state) => { progress with complete := false, state }

end IncludeProgress

/-- Two includes of one file must not share a package name. -/
def redeclaredInclude (name : String) (directive : IncludeDirective) (first : IncludeEdge) :
    Report :=
  { Report.error directive.path.span (.includeRedeclared name) with
    also := [.note first.directive.span .firstDeclared] }

/-- Deals with one include directive of `source`; `load` loads a file that is met for the first
time. -/
def followInclude (loader : Loader) (includePaths : List String) (active : List String)
    (source : Source)
    (load : (file : FoundFile) → file.canonical ∈ loader.paths → file.canonical ∉ active →
      Loading → Option Nat × Loading)
    (progress : IncludeProgress) (directive : IncludeDirective) : IncludeProgress :=
  let name := packageName (includedFile directive.path.text)
  let state := progress.state
  progress.settle name directive <|
    match progress.edges.find? (·.name == name) with
    | some first => (none, state.report source [redeclaredInclude name directive first])
    | none =>
      match resolveInclude loader includePaths active state.finished source directive with
      | .refused report => (none, state.report source [report])
      | .finished tree => (tree, state)
      | .fresh file is_file is_new => load file is_file is_new state

/-- Loads a file and everything it includes. `active` holds the files on the way to it. -/
def loadFile (loader : Loader) (includePaths : List String) (active : List String)
    (file : FoundFile) (_ : file.canonical ∈ loader.paths) (_ : file.canonical ∉ active)
    (state : Loading) : Option Nat × Loading :=
  let source : Source := ⟨file.path, file.text⟩
  match source.parse with
  | .error failure => (none, (state.report source failure.reports).fail file.canonical)
  | .ok parsed =>
    let active := file.canonical :: active
    let progress := parsed.document.includes.foldl
      (followInclude loader includePaths active source
        fun next is_file is_new state =>
          loadFile loader includePaths active next is_file is_new state)
      ⟨[], true, state⟩
    if progress.complete then
      progress.state.finish file.canonical
        ⟨packageName file.path, source, parsed.document, progress.edges⟩
    else (none, progress.state.fail file.canonical)
termination_by idleFiles loader active
decreasing_by exact idleFiles_cons_lt (by assumption) (by assumption)

/-- The root file could not be read. -/
structure ReadFailure where
  path : String
  cause : FileError
deriving Repr

def ReadFailure.message (failure : ReadFailure) : String :=
  "could not read " ++ failure.path

/-- Loads the root file at `path` and everything it includes. -/
def loadRoot (loader : Loader) (includePaths : List String) (path : String) :
    Except ReadFailure (Option Nat × Loading) :=
  match loader.canonicalize path with
  | .error cause => .error ⟨path, cause⟩
  | .ok canonical =>
    match h : loader.read canonical with
    | .error cause => .error ⟨path, cause⟩
    | .ok text =>
      .ok (loadFile loader includePaths [] ⟨path, canonical, text⟩ (loader.mem_paths h)
        List.not_mem_nil .empty)

/-- The program whose root file is at `path`. There is none if any file has a syntax error or an
include that cannot be resolved; the diagnostics tell why. -/
def loadProgram (loader : Loader) (includePaths : List String) (path : String) :
    Except ReadFailure (Option Program × List Diagnostic) :=
  (loadRoot loader includePaths path).map fun (root, state) =>
    (if state.failed then none else root.map (⟨state.trees, ·⟩), state.diagnostics)

end Idl
