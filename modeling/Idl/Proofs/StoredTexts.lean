import Idl.Proofs.IncludeClosure
import Idl.Proofs.Ways
import Mathlib.Data.List.Induction

/-!
# Texts in memory

Files in memory are a map from normal forms to texts. Whatever was inserted before, a path has the
text that was last inserted under a path of the same normal form, and it can be read exactly if it
has a canonical path. The canonical path is the normal form; it stands for itself and has the text
of every path it stands for.
-/
namespace Idl.MemoryFiles
open FilePath

/-- The text that was last inserted under a path of the same normal form. -/
def latest? (inserts : List (String × String)) (path : String) : Option String :=
  (inserts.reverse.find? fun insert : String × String =>
    normalize insert.1 = normalize path).map Prod.snd

theorem ofList_concat (inserts : List (String × String)) (path text : String) :
    ofList (inserts ++ [(path, text)]) = (ofList inserts).insert path text := by
  rw [ofList, List.foldl_append]
  rfl

theorem latest?_concat (inserts : List (String × String)) (path text other : String) :
    latest? (inserts ++ [(path, text)]) other =
      if normalize other = normalize path then some text else latest? inserts other := by
  rw [latest?, List.reverse_append, List.reverse_singleton, List.singleton_append,
    List.find?_cons]
  by_cases h : normalize other = normalize path
  · simp [h]
  · simp [h, Ne.symm h, latest?]

/-- Reading after some insertions finds the latest of them. -/
theorem read_ofList (inserts : List (String × String)) (path : String) :
    (ofList inserts).read path = (latest? inserts path).elim (.error .entityNotFound) .ok := by
  induction inserts using List.reverseRecOn with
  | nil => rfl
  | append_singleton inserts insert ih =>
    rw [ofList_concat, read_insert, latest?_concat, ih]
    split <;> rfl

theorem latest?_eq_some_iff {inserts : List (String × String)} {path text : String} :
    latest? inserts path = some text ↔ ∃ before other after,
      inserts = before ++ (other, text) :: after ∧ normalize other = normalize path ∧
        ∀ later ∈ after, normalize later.1 ≠ normalize path := by
  rw [latest?, Option.map_eq_some_iff]
  constructor
  · rintro ⟨⟨other, found⟩, hfind, rfl⟩
    obtain ⟨hother, after, before, hsplit, hafter⟩ := List.find?_eq_some_iff_append.1 hfind
    refine ⟨before.reverse, other, after.reverse, ?_, of_decide_eq_true hother, ?_⟩
    · rw [← List.reverse_reverse inserts, hsplit]
      simp
    · intro later hlater
      simpa using hafter later (List.mem_reverse.1 hlater)
  · rintro ⟨before, other, after, rfl, hother, hafter⟩
    refine ⟨(other, text), List.find?_eq_some_iff_append.2 ⟨decide_eq_true hother, after.reverse,
      before.reverse, by simp, ?_⟩, rfl⟩
    intro later hlater
    simpa using hafter later (List.mem_reverse.1 hlater)

theorem latest?_eq_none_iff {inserts : List (String × String)} {path : String} :
    latest? inserts path = none ↔ ∀ insert ∈ inserts, normalize insert.1 ≠ normalize path := by
  simp [latest?]

/-! ### Canonical paths -/

theorem read_eq_error_iff {inserts : List (String × String)} {path : String} {error : FileError} :
    (ofList inserts).read path = .error error ↔
      error = .entityNotFound ∧ ∀ insert ∈ inserts, normalize insert.1 ≠ normalize path := by
  rw [read_ofList, ← latest?_eq_none_iff]
  cases latest? inserts path <;> simp [eq_comm]

section

variable {files : MemoryFiles} {path canonical : String}

/-- A canonical path is its own, and it has the text of every path it stands for. -/
theorem canonicalize_of_canonicalize (h : files.canonicalize path = .ok canonical) :
    canonical = normalize path ∧ files.canonicalize canonical = .ok canonical ∧
      files.read canonical = files.read path ∧ files.loader.read canonical = files.read path := by
  obtain ⟨rfl, text, htext⟩ := canonicalize_eq_ok_iff.1 h
  have hread : files.read (normalize path) = files.read path :=
    read_congr (normalize_normalize path)
  refine ⟨rfl, canonicalize_eq_ok_iff.2 ⟨(normalize_normalize path).symm, text, ?_⟩, hread, rfl⟩
  rw [hread, htext]

end

/-- Files in memory are a map on canonical paths. After any insertions a path has the text that was
last inserted under a path of the same normal form, and none exactly if there is no such insertion;
it has a canonical path exactly if it has a text; the canonical path is its own, and reading it,
whether as a path or as a canonical path, gives the text of the path. For a normal form is its own
normal form. -/
theorem ofList_is_map (inserts : List (String × String)) (path : String) :
    (∀ text, (ofList inserts).read path = .ok text ↔ ∃ before other after,
      inserts = before ++ (other, text) :: after ∧ normalize other = normalize path ∧
        ∀ later ∈ after, normalize later.1 ≠ normalize path) ∧
    (∀ error, (ofList inserts).read path = .error error ↔
      error = .entityNotFound ∧ ∀ insert ∈ inserts, normalize insert.1 ≠ normalize path) ∧
    ((∃ canonical, (ofList inserts).canonicalize path = .ok canonical) ↔
      ∃ text, (ofList inserts).read path = .ok text) ∧
    (∀ canonical, (ofList inserts).canonicalize path = .ok canonical →
      canonical = normalize path ∧ (ofList inserts).canonicalize canonical = .ok canonical ∧
        (ofList inserts).read canonical = (ofList inserts).read path ∧
        (ofList inserts).loader.read canonical = (ofList inserts).read path) ∧
    normalize (normalize path) = normalize path := by
  refine ⟨fun text => ?_, fun error => read_eq_error_iff, ?_,
    fun canonical => canonicalize_of_canonicalize, normalize_normalize path⟩
  · rw [read_ofList, ← latest?_eq_some_iff]
    cases latest? inserts path <;> simp
  · simp [canonicalize_eq_ok_iff]

/-- Two spellings of one path with another path between them. -/
def shadowedInserts : List (String × String) :=
  [("a/../b", "old"), ("../../c", "other"), ("./b", "new")]

theorem ofList_shadowedInserts :
    (ofList shadowedInserts).canonicalize "x//../b" = .ok "b" ∧
      (ofList shadowedInserts).canonicalize "b" = .ok "b" ∧
      (ofList shadowedInserts).read "b" = (ofList shadowedInserts).read "x//../b" ∧
      (ofList shadowedInserts).read "x//../b" = .ok "new" := by
  obtain ⟨hread, -, -, hcanonical, -⟩ := ofList_is_map shadowedInserts "x//../b"
  have hpath : (ofList shadowedInserts).canonicalize "x//../b" = .ok "b" := by rfl
  obtain ⟨-, hagain, hsame, -⟩ := hcanonical "b" hpath
  refine ⟨hpath, hagain, hsame, (hread "new").2 ⟨[("a/../b", "old"), ("../../c", "other")], "./b",
    [], rfl, by decide +kernel, ?_⟩⟩
  exact fun later hlater => absurd hlater List.not_mem_nil

end Idl.MemoryFiles
