import Idl.Proofs.FilledArenas
import Idl.Proofs.HeldTrees
import Idl.Proofs.NodeSpans

/-!
# Paths in an arena

From the document every node of an arena is reached in exactly one way. For every node but the
document has one place at which it is referred to, in a node behind it, and nothing refers to the
document; so a path can be found, and is determined, from its end.
-/
namespace Idl

/-- In lists without a repetition, an item determines the list that it is in and its place there. -/
theorem places_eq_of_nodup_flatten {α : Type} {lists : List (List α)} (h : lists.flatten.Nodup)
    {index index' place place' : Nat} {list list' : List α} {item : α}
    (hlist : lists[index]? = some list) (hitem : list[place]? = some item)
    (hlist' : lists[index']? = some list') (hitem' : list'[place']? = some item) :
    index = index' ∧ place = place' := by
  obtain ⟨hnodup, hdisjoint⟩ := List.nodup_flatten.1 h
  obtain ⟨hindex, rfl⟩ := List.getElem?_eq_some_iff.1 hlist
  obtain ⟨hindex', rfl⟩ := List.getElem?_eq_some_iff.1 hlist'
  have hmem := List.mem_of_getElem? hitem
  have hmem' := List.mem_of_getElem? hitem'
  rw [List.pairwise_iff_getElem] at hdisjoint
  rcases lt_trichotomy index index' with hlt | rfl | hlt
  · exact absurd hmem' (hdisjoint _ _ hindex hindex' hlt hmem)
  · have hplace := (List.getElem?_eq_some_iff.1 hitem).1
    refine ⟨rfl, (List.getElem?_inj hplace (hnodup _ (List.getElem_mem hindex))).1 ?_⟩
    rw [hitem, hitem']
  · exact absurd hmem (hdisjoint _ _ hindex' hindex hlt hmem')

namespace Arena

/-- The node that the reference at a place in a node is to. -/
def step? (arena : Arena) (index place : Nat) : Option Nat := do
  let node ← arena[index]?
  let reference ← node.data.references[place]?
  return reference.index

/-- Where a path leads that follows one reference after the other. -/
def follow (arena : Arena) (index : Nat) (path : List Nat) : Option Nat :=
  path.foldlM arena.step? index

/-- There is nothing in the arena but the tree below its root: every node is reached from the root
by one path, and every reference is to an earlier node of the kind that it names. -/
structure IsTree (arena : Arena) (root : Reference) : Prop where
  path : ∀ index < arena.size, ∃! path, arena.follow root.index path = some index
  known : (arena.find? root).isSome
  earlier : ∀ index node, arena[index]? = some node → ∀ reference ∈ node.data.references,
    reference.index < index ∧ (arena.find? reference).isSome

variable {arena : Arena} {root : Reference} {count index index' place place' target : Nat}

/-- What the nodes refer to. -/
def targets (arena : Arena) : List (List Nat) :=
  arena.toList.map fun node => node.data.references.map Reference.index

theorem step?_eq_some_iff : arena.step? index place = some target ↔
    ∃ list, arena.targets[index]? = some list ∧ list[place]? = some target := by
  simp [step?, targets, Option.bind_eq_some_iff]

theorem mem_flatten_targets : target ∈ arena.targets.flatten ↔
    ∃ index place, arena.step? index place = some target := by
  simp only [List.mem_flatten, step?_eq_some_iff]
  constructor
  · rintro ⟨list, hlist, hitem⟩
    obtain ⟨index, hlist⟩ := List.mem_iff_getElem?.1 hlist
    obtain ⟨place, hitem⟩ := List.mem_iff_getElem?.1 hitem
    exact ⟨index, place, list, hlist, hitem⟩
  · rintro ⟨index, place, list, hlist, hitem⟩
    exact ⟨list, List.mem_of_getElem? hlist, List.mem_of_getElem? hitem⟩

theorem exists_reference_of_step (h : arena.step? index place = some target) :
    ∃ node, arena[index]? = some node ∧
      ∃ reference ∈ node.data.references, reference.index = target := by
  obtain ⟨node, hnode, h⟩ := Option.bind_eq_some_iff.1 h
  obtain ⟨reference, hreference, h⟩ := Option.bind_eq_some_iff.1 h
  exact ⟨node, hnode, reference, List.mem_of_getElem? hreference, Option.some.inj h⟩

theorem lt_size_of_step (h : arena.step? index place = some target) : index < arena.size := by
  obtain ⟨node, hnode, -⟩ := exists_reference_of_step h
  exact (Array.getElem?_eq_some_iff.1 hnode).1

theorem follow_concat_eq_some_iff {path : List Nat} :
    arena.follow index (path ++ [place]) = some target ↔
      ∃ parent, arena.follow index path = some parent ∧ arena.step? parent place = some target := by
  simp [follow, Option.bind_eq_some_iff]

namespace Grows

theorem perm_range (h : Grows #[] arena [root] count) :
    (root.index :: arena.targets.flatten).Perm (List.range arena.size) := by
  obtain ⟨added, hadded, hlength, hall⟩ := h.added
  have hadded : arena.toList = added := hadded
  rw [← Array.length_toList, List.range_eq_range', targets, hadded, hlength, ← List.flatMap_def,
    ← List.map_flatMap]
  exact hall

theorem nodup_targets (h : Grows #[] arena [root] count) :
    root.index ∉ arena.targets.flatten ∧ arena.targets.flatten.Nodup :=
  List.nodup_cons.1 (h.perm_range.nodup_iff.2 List.nodup_range)

theorem lt_of_step (h : Grows #[] arena [root] count)
    (hstep : arena.step? index place = some target) : target < index := by
  obtain ⟨node, hnode, reference, hreference, rfl⟩ := exists_reference_of_step hstep
  exact (h.earlier index node (Nat.zero_le _) hnode reference hreference).1

/-- A node other than the root is reached by going to a later node first. -/
theorem exists_follow (h : Grows #[] arena [root] count) (hindex : index < arena.size) :
    ∃ path, arena.follow root.index path = some index := by
  -- What refers to a node stands behind it, so there are fewer nodes behind the parent.
  induction hbehind : arena.size - index using Nat.strong_induction_on generalizing index with
  | _ behind ih =>
    rcases List.mem_cons.1 (h.perm_range.mem_iff.2 (List.mem_range.2 hindex)) with rfl | hmem
    · exact ⟨[], rfl⟩
    · obtain ⟨parent, place, hstep⟩ := mem_flatten_targets.1 hmem
      have hlt := h.lt_of_step hstep
      have hparent := lt_size_of_step hstep
      obtain ⟨path, hpath⟩ := ih _ (by omega) hparent rfl
      exact ⟨path ++ [place], follow_concat_eq_some_iff.2 ⟨parent, hpath, hstep⟩⟩

theorem follow_concat_ne_root (h : Grows #[] arena [root] count) (path : List Nat) :
    arena.follow index (path ++ [place]) ≠ some root.index := by
  intro hpath
  obtain ⟨parent, -, hstep⟩ := follow_concat_eq_some_iff.1 hpath
  exact h.nodup_targets.1 (mem_flatten_targets.2 ⟨parent, place, hstep⟩)

/-- Two paths to the same node come from the same node, by the same reference. -/
theorem follow_inj (h : Grows #[] arena [root] count) {path path' : List Nat}
    (hpath : arena.follow root.index path = some index)
    (hpath' : arena.follow root.index path' = some index) : path = path' := by
  -- From the end: the beginnings of the two paths lead to the one node that refers to this one.
  induction path using List.reverseRecOn generalizing index path' with
  | nil =>
    obtain rfl := Option.some.inj hpath
    rcases List.eq_nil_or_concat' path' with rfl | ⟨path', place, rfl⟩
    · rfl
    · exact absurd hpath' (h.follow_concat_ne_root path')
  | append_singleton path place ih =>
    rcases List.eq_nil_or_concat' path' with rfl | ⟨path', place', rfl⟩
    · exact absurd (hpath'.symm ▸ hpath) (h.follow_concat_ne_root path)
    · obtain ⟨parent, hparent, hstep⟩ := follow_concat_eq_some_iff.1 hpath
      obtain ⟨parent', hparent', hstep'⟩ := follow_concat_eq_some_iff.1 hpath'
      obtain ⟨list, hlist, hitem⟩ := step?_eq_some_iff.1 hstep
      obtain ⟨list', hlist', hitem'⟩ := step?_eq_some_iff.1 hstep'
      obtain ⟨rfl, rfl⟩ :=
        places_eq_of_nodup_flatten h.nodup_targets.2 hlist hitem hlist' hitem'
      rw [ih hparent hparent']

/-- An arena that grew out of nothing, with only one node referred to by nobody. -/
theorem isTree (h : Grows #[] arena [root] count) : arena.IsTree root where
  path _ hindex :=
    let ⟨path, hpath⟩ := h.exists_follow hindex
    ⟨path, hpath, fun _ hpath' => h.follow_inj hpath' hpath⟩
  known := h.known root List.mem_cons_self
  earlier index node := h.earlier index node (Nat.zero_le index)

end Grows

/-- Data about nodes of one kind, by node. -/
abbrev NodeTable (label : NodeLabel) (α : Type) := Std.HashMap (NodeId label) α

namespace IsTree

theorem lt_size_of_follow (h : arena.IsTree root) {path : List Nat}
    (hpath : arena.follow root.index path = some index) : index < arena.size := by
  rcases List.eq_nil_or_concat' path with rfl | ⟨path, place, rfl⟩
  · obtain rfl := Option.some.inj hpath
    exact lt_size_of_find? h.known
  · obtain ⟨parent, -, hstep⟩ := follow_concat_eq_some_iff.1 hpath
    obtain ⟨node, hnode, reference, hreference, rfl⟩ := exists_reference_of_step hstep
    exact lt_size_of_find? (h.earlier parent node hnode reference hreference).2

/-- What is put into a table for the node at one place of the tree is not found at another. -/
theorem getElem?_insert (h : arena.IsTree root) {label : NodeLabel} {α : Type}
    (table : NodeTable label α) {id id' : NodeId label} (value : α) {path path' : List Nat}
    (hid : arena.follow root.index path = some id.index)
    (hid' : arena.follow root.index path' = some id'.index) (hne : path ≠ path') :
    (table.insert id value)[id']? = table[id']? := by
  have hid_ne : id ≠ id' := by
    rintro rfl
    exact hne ((h.path _ (h.lt_size_of_follow hid)).unique hid hid')
  rw [Std.HashMap.getElem?_insert, if_neg (by simpa using hid_ne)]

end IsTree
end Arena

namespace Source

/-- The arena of a file is the tree of the file: each node has one path from the document, the
document shows the tree, and there are as many nodes as in the tree. So data about the node at one
place are never found at another. -/
theorem arena_isTree_of_parse {source : Source} {parsed : ParsedDocument}
    (h : source.parse = .ok parsed) :
    ∃ arena document, source.parseArena = .ok ⟨arena, document⟩ ∧
      arena.IsTree document.reference ∧
      arena.view? arena.size document.index = some parsed.document.toNode ∧
      arena.dump? source document.index = some (parsed.document.dump source) ∧
      arena.size = parsed.document.toNode.count ∧ arena.size = parsed.nodes ∧
      ∀ {label : NodeLabel} {α : Type} (table : Arena.NodeTable label α) (id id' : NodeId label)
        (value : α) (path path' : List Nat), arena.follow document.index path = some id.index →
        arena.follow document.index path' = some id'.index → path ≠ path' →
        (table.insert id value)[id']? = table[id']? := by
  obtain ⟨ordered, hdocument, hnodes, harena⟩ := exists_stored_of_parse h
  set stored := ordered.store #[]
  have hholds : Arena.Holds #[] stored.2 [stored.1.reference] [parsed.document.toNode] :=
    hdocument ▸ ordered.stores #[]
  have htree := hholds.grows.isTree
  have hview := hholds.shown _ (Arena.lt_size_of_find? htree.known)
  have hsize := hholds.grows.size
  rw [Node.countAll_singleton, Array.size_empty, Nat.zero_add] at hsize
  refine ⟨stored.2, stored.1, harena, htree, hview, ?_, hsize, hnodes.symm, ?_⟩
  · exact Option.map_eq_some_iff.2 ⟨_, hview, rfl⟩
  · intro label α table id id' value path path' hid hid' hne
    exact htree.getElem?_insert table value hid hid' hne

/-- The include directive is written first and shown second. -/
theorem arena_isTree_mixedFile :
    mixedFile.parse = .ok mixedTree ∧
      ∃ arena document, mixedFile.parseArena = .ok ⟨arena, document⟩ ∧
        arena.IsTree document.reference ∧ arena.size = 13 ∧
        arena.view? arena.size document.index = some mixedTree.document.toNode := by
  obtain ⟨arena, document, harena, htree, hview, -, -, hsize, -⟩ :=
    arena_isTree_of_parse parse_mixedFile
  exact ⟨parse_mixedFile, arena, document, harena, htree, hsize, hview⟩

end Source
end Idl
