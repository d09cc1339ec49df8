import Idl.Loader

/-!
# Files on disk

A tree of directories, files and symbolic links, and a working directory in it. Paths are
followed segment by segment, links included. Every step asks the file system about the absolute
path come to so far, so what is limited in length is that path and not the one that is followed.
-/
namespace Idl

inductive DiskEntry where
  | file (bytes : ByteArray)
  | directory
  | link (target : String)

/-- A place is the list of names that lead to it from the root. -/
abbrev Place := List String

structure Disk where
  /-- What there is at each place but the root; the first entry of a place counts. -/
  entries : List (Place × DiskEntry)
  workingDirectory : Place

namespace Disk

def entry? (disk : Disk) (place : Place) : Option DiskEntry :=
  if place = [] then some .directory else disk.entries.lookup place

def isDirectory (disk : Disk) (place : Place) : Bool :=
  (disk.entry? place) matches some .directory

def insert (disk : Disk) (place : Place) (entry : DiskEntry) : Disk :=
  { disk with entries := (place, entry) :: disk.entries }

/-- The absolute path of a place. -/
def pathOf (place : Place) : String :=
  "/" ++ "/".intercalate place

/-- Longest name in bytes. -/
def maxNameLength : Nat := 255

/-- Longest path in bytes that the file system can be asked about. -/
def maxPathLength : Nat := 4095

/-- Number of links that are followed on one path. -/
def maxLinks : Nat := 40

/-- Asks for what has the given name at a place. -/
def look (disk : Disk) (place : Place) (name : String) : Except FileError DiskEntry :=
  if (pathOf (place ++ [name])).utf8ByteSize > maxPathLength then .error .nameTooLong
  else if disk.isDirectory place = false then .error .notADirectory
  else if name.utf8ByteSize > maxNameLength then .error .nameTooLong
  else match disk.entry? (place ++ [name]) with
    | none => .error .noSuchFile
    | some entry => .ok entry

/-- Whether only a directory can come before these segments of a path, because a slash ends the
path or the way turns upwards. -/
def needDirectory (segments : List String) : Bool :=
  segments ≠ [] && (segments.find? (!FilePath.isBlank ·)).all (· = "..")

/-- Asks whether what has the given name at a place is a directory, by its path with a slash. -/
def checkDirectory (disk : Disk) (place : Place) (name : String) : Except FileError Unit :=
  if (pathOf (place ++ [name]) ++ "/").utf8ByteSize > maxPathLength then .error .nameTooLong
  else match disk.look place name with
    | .error error => .error error
    | .ok .directory => .ok ()
    | .ok _ => .error .notADirectory

/-- Follows the segments of a path from a place, and at most `links` links on the way. -/
def follow (disk : Disk) (links : Nat) (place : Place) : List String → Except FileError Place
  | [] => .ok place
  | segment :: rest =>
    if FilePath.isBlank segment then disk.follow links place rest
    else if segment = ".." then disk.follow links place.dropLast rest
    else match disk.look place segment with
      | .ok (.link target) =>
        match links with
        | 0 => .error .tooManyLinks
        | links + 1 =>
          disk.follow links (if FilePath.isAbsolute target then [] else place)
            (FilePath.segments target ++ rest)
      | found =>
        match if needDirectory rest then disk.checkDirectory place segment
            else found.map fun _ => () with
        | .error error => .error error
        | .ok () => disk.follow links (place ++ [segment]) rest
termination_by segments => (links, segments.length)

/-- Where the segments of a path are followed from. -/
def origin (disk : Disk) (path : String) : Place :=
  if FilePath.isAbsolute path then [] else disk.workingDirectory

/-- The canonical path of the file or directory that a path leads to. -/
def canonicalize (disk : Disk) (path : String) : Except FileError String :=
  if '\x00' ∈ path.toList then .error .nulInName
  else if path = "" then .error .noSuchFile
  else (disk.follow maxLinks (disk.origin path) (FilePath.segments path)).map pathOf

/-- Follows the segments of a path from a place and makes a directory wherever there is nothing;
the second part is the place come to. -/
def makeDirectories (disk : Disk) (place : Place) : List String → Disk × Place
  | [] => (disk, place)
  | segment :: rest =>
    if FilePath.isBlank segment then disk.makeDirectories place rest
    else if segment = ".." then disk.makeDirectories place.dropLast rest
    else
      let next := place ++ [segment]
      match disk.entry? next, disk.follow maxLinks place [segment] with
      | none, _ => (disk.insert next .directory).makeDirectories next rest
      | some _, .ok next => disk.makeDirectories next rest
      | some _, .error _ => disk.makeDirectories next rest

/-- A disk with nothing in it but a working directory. -/
def empty (workingDirectory : Place) : Disk :=
  (makeDirectories ⟨[], workingDirectory⟩ [] workingDirectory).1

def addDirectory (disk : Disk) (path : String) : Disk :=
  (disk.makeDirectories (disk.origin path) (FilePath.segments path)).1

/-- Adds a file or a link, with the directories on the way to it. -/
def add (disk : Disk) (path : String) (entry : DiskEntry) : Disk :=
  let names := (FilePath.segments path).filter (!FilePath.isBlank ·)
  match names.getLast? with
  | none => disk
  | some name =>
    let (disk, place) := disk.makeDirectories (disk.origin path) names.dropLast
    disk.insert (place ++ [name]) entry

/-- The entries by the paths of their places. -/
def listing (disk : Disk) : List (String × DiskEntry) :=
  disk.entries.map fun (place, entry) => (pathOf place, entry)

/-- The text of the file at a canonical path. -/
def read (disk : Disk) (path : String) : Except FileError String :=
  match disk.listing.lookup path with
  | some (.file bytes) =>
    match String.fromUTF8? bytes with
    | some text => .ok text
    | none => .error .invalidText
  | some .directory => .error .isADirectory
  | some (.link _) => .error .tooManyLinks
  | none => .error (if path = pathOf [] then .isADirectory else .noSuchFile)

theorem mem_of_read {disk : Disk} {path text : String} (h : disk.read path = .ok text) :
    path ∈ disk.listing.map Prod.fst := by
  unfold read at h
  split at h
  next bytes hf =>
    obtain ⟨before, after, he, _⟩ := List.lookup_eq_some_iff.1 hf
    simp [he]
  next => cases h
  next => cases h
  next => cases h

def loader (disk : Disk) : Loader where
  canonicalize := disk.canonicalize
  read := disk.read
  paths := disk.listing.map Prod.fst
  mem_paths := mem_of_read

end Disk
end Idl
