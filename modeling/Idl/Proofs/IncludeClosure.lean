import Idl.Loader.Memory
import Idl.Proofs.LoadingCases
import Idl.Proofs.Paths
import Mathlib.Logic.Relation

/-!
# The include closure

The files in memory that a root file reaches through include directives, and when all of them can
be loaded. Files are told apart by their normal paths, but an include directive is followed from
the directory of the path by which its file was reached; both views agree, since every include
leads to a path that ends in a name.
-/
namespace Idl
open FilePath

/-! ### Included files -/

theorem exists_fileName?_includedFile (text : String) :
    ∃ name, fileName? (includedFile text) = some name := by
  by_cases h : extension? text = some "thrift"
  · rw [includedFile, if_pos h]
    exact Option.isSome_iff_exists.1 (by
      rw [extension?] at h
      cases hname : fileName? text <;> simp_all)
  · rw [includedFile, if_neg h]
    obtain ⟨before, last, -, hsegments⟩ := @segments_append text ".thrift" (by decide)
    refine ⟨last ++ ".thrift", ?_⟩
    have hlength : (last ++ ".thrift").length = last.length + 7 := String.length_append _ _
    have hcomponent : innerComponent? (last ++ ".thrift") = some (.name (last ++ ".thrift")) := by
      have hne : ∀ short : String, short.length < 7 → last ++ ".thrift" ≠ short := by
        rintro short hshort rfl
        omega
      rw [innerComponent?, isBlank, beq_false_of_ne (hne "" (by decide)),
        beq_false_of_ne (hne "." (by decide))]
      simp [hne ".." (by decide)]
    rw [fileName?_eq_some_iff, hsegments, List.filterMap_append, List.getLast?_append,
      List.filterMap_cons_some hcomponent]
    rfl

theorem exists_fileName?_of_mem_includeCandidates {includePaths : List String} {path next : String}
    {directive : IncludeDirective} (h : next ∈ includeCandidates includePaths path directive) :
    ∃ name, fileName? next = some name := by
  obtain ⟨directory, -, rfl⟩ := List.mem_map.1 h
  obtain ⟨name, hname⟩ := exists_fileName?_includedFile directive.path.text
  exact ⟨name, fileName?_join hname⟩

/-- The package name that an include directive introduces. -/
def IncludeDirective.package (directive : IncludeDirective) : String :=
  packageName (includedFile directive.path.text)

/-- It is the stem of the name of the file that is included. -/
theorem IncludeDirective.stem?_includedFile (directive : IncludeDirective) :
    stem? (includedFile directive.path.text) = some directive.package := by
  obtain ⟨name, hname⟩ := exists_fileName?_includedFile directive.path.text
  rw [package, packageName, stem?, hname]
  rfl

/-! ### Files and their include directives -/

namespace MemoryFiles

theorem canonicalize_eq_ok_iff {files : MemoryFiles} {path canonical : String} :
    files.canonicalize path = .ok canonical ↔
      canonical = normalize path ∧ ∃ text, files.read path = .ok text := by
  rw [canonicalize]
  cases files.read path <;> simp [Except.map, eq_comm]

theorem read_congr {files : MemoryFiles} {path other : String}
    (h : normalize path = normalize other) : files.read path = files.read other := by
  rw [read, read, h]

/-- The syntax tree of the file that a path names. -/
def document? (files : MemoryFiles) (path : String) : Option Document :=
  match files.read path with
  | .error _ => none
  | .ok text => (Source.parse ⟨path, text⟩).toOption.map ParsedDocument.document

theorem document?_congr {files : MemoryFiles} {path other : String}
    (h : normalize path = normalize other) : files.document? path = files.document? other := by
  rw [document?, document?, read_congr h]
  cases files.read other with
  | error error => rfl
  | ok text => rfl

/-- The path by which an include directive of the file at `path` reaches its file. -/
def target? (files : MemoryFiles) (includePaths : List String) (path : String)
    (directive : IncludeDirective) : Option String :=
  (includeCandidates includePaths path directive).find? fun candidate =>
    (files.canonicalize candidate).isOk

theorem find_includeCandidates (files : MemoryFiles) (includePaths : List String) (path : String)
    (directive : IncludeDirective) :
    match files.loader.find (includeCandidates includePaths path directive) with
    | .ok (next, canonical) =>
      files.target? includePaths path directive = some next ∧ canonical = normalize next
    | .error _ => files.target? includePaths path directive = none := by
  have hspec := files.loader.find_spec (includeCandidates includePaths path directive)
  cases hfind : files.loader.find (includeCandidates includePaths path directive) with
  | error error =>
    rw [hfind] at hspec
    exact hspec
  | ok found =>
    rw [hfind] at hspec
    exact ⟨hspec.1, (canonicalize_eq_ok_iff.1 hspec.2).1⟩

section

variable {files : MemoryFiles} {includePaths : List String}

theorem exists_read_of_target? {path next : String} {directive : IncludeDirective}
    (h : files.target? includePaths path directive = some next) :
    ∃ text, files.read next = .ok text := by
  have hok := List.find?_some h
  cases hread : files.read next with
  | ok text => exact ⟨text, rfl⟩
  | error error => simp [canonicalize, hread, Except.map, Except.isOk, Except.toBool] at hok

/-- An include directive leads to a path that ends in a name. -/
theorem exists_fileName?_of_target? {path next : String} {directive : IncludeDirective}
    (h : files.target? includePaths path directive = some next) :
    ∃ name, fileName? next = some name :=
  exists_fileName?_of_mem_includeCandidates (List.mem_of_find?_eq_some h)

/-- From all spellings of a path an include directive leads to the same file. -/
theorem target?_congr {path other : String} (h : Respells path other)
    (directive : IncludeDirective) :
    (files.target? includePaths path directive).map normalize =
      (files.target? includePaths other directive).map normalize := by
  have hjoin := h.normalize_join (includedFile directive.path.text)
  simp only [target?, includeCandidates, List.map_cons, List.find?_cons, canonicalize,
    read_congr hjoin, hjoin]
  cases files.read (join (directory other) (includedFile directive.path.text)) with
  | ok text => simp [Except.map, Except.isOk, Except.toBool, hjoin]
  | error error => simp [Except.map, Except.isOk, Except.toBool]

theorem exists_target?_of_respells {path other next : String} (h : Respells path other)
    {directive : IncludeDirective} (hnext : files.target? includePaths path directive = some next) :
    ∃ found, files.target? includePaths other directive = some found ∧
      normalize found = normalize next := by
  have hcongr : _ = (files.target? includePaths other directive).map normalize :=
    target?_congr h directive
  rw [hnext, Option.map_some, eq_comm, Option.map_eq_some_iff] at hcongr
  exact hcongr

end

variable (files : MemoryFiles) (includePaths : List String)

/-- The file at the one path includes the file that is reached by the other. -/
def Includes (path next : String) : Prop :=
  ∃ document, files.document? path = some document ∧
    ∃ directive ∈ document.includes, files.target? includePaths path directive = some next

/-- The include closure of a file: it, and what the files in the closure include. -/
def Reaches (root : String) : String → Prop :=
  Relation.ReflTransGen (files.Includes includePaths) root

/-- All files that a root file reaches are there, can be parsed and have their includes in order,
and none of them includes itself. -/
structure IsLoadable (root : String) : Prop where
  parses : ∀ path, files.Reaches includePaths root path →
    ∃ document, files.document? path = some document
  resolves : ∀ path document, files.Reaches includePaths root path →
    files.document? path = some document → ∀ directive ∈ document.includes,
      ∃ next, files.target? includePaths path directive = some next
  distinct : ∀ path document, files.Reaches includePaths root path →
    files.document? path = some document →
      (document.includes.map IncludeDirective.package).Nodup
  acyclic : ∀ path next, files.Reaches includePaths root path →
    Relation.TransGen (files.Includes includePaths) path next → normalize path ≠ normalize next

variable {files includePaths}

theorem exists_fileName?_of_reaches {root path : String}
    (h : files.Reaches includePaths root path) :
    path = root ∨ ∃ name, fileName? path = some name := by
  cases h with
  | refl => exact .inl rfl
  | tail _ hstep =>
    obtain ⟨_, -, _, -, htarget⟩ := hstep
    exact .inr (exists_fileName?_of_target? htarget)

end MemoryFiles

end Idl
