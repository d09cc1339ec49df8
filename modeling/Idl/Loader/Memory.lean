import Idl.Loader

/-!
# Files in memory

A finite map from normal paths to texts; the latest text of a path counts.
-/
namespace Idl

structure MemoryFiles where
  entries : List (String × String)
deriving Repr

namespace MemoryFiles

def empty : MemoryFiles :=
  ⟨[]⟩

def insert (files : MemoryFiles) (path text : String) : MemoryFiles :=
  ⟨(FilePath.normalize path, text) :: files.entries⟩

def ofList (files : List (String × String)) : MemoryFiles :=
  files.foldl (fun files (path, text) => files.insert path text) empty

/-- The text under a normal path. -/
def lookup (files : MemoryFiles) (path : String) : Except FileError String :=
  match files.entries.lookup path with
  | some text => .ok text
  | none => .error .entityNotFound

def read (files : MemoryFiles) (path : String) : Except FileError String :=
  files.lookup (FilePath.normalize path)

theorem read_insert (files : MemoryFiles) (path text other : String) :
    (files.insert path text).read other =
      if FilePath.normalize other = FilePath.normalize path then .ok text
      else files.read other := by
  by_cases h : FilePath.normalize other = FilePath.normalize path
  · simp [read, lookup, insert, h]
  · simp [read, lookup, insert, List.lookup_cons, beq_false_of_ne h, h]

def canonicalize (files : MemoryFiles) (path : String) : Except FileError String :=
  (files.read path).map fun _ => FilePath.normalize path

theorem mem_of_lookup {files : MemoryFiles} {path text : String}
    (h : files.lookup path = .ok text) : path ∈ files.entries.map Prod.fst := by
  unfold lookup at h
  split at h
  next found hf =>
    exact List.mem_map.2 ⟨(path, found), List.lookup_eq_some_iff.1 hf |>.elim
      fun before ⟨after, he, _⟩ => by simp [he], rfl⟩
  next => cases h

def loader (files : MemoryFiles) : Loader where
  canonicalize := files.canonicalize
  read := files.lookup
  paths := files.entries.map Prod.fst
  mem_paths := mem_of_lookup

end MemoryFiles
end Idl
