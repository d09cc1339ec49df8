import Idl.Proofs.NodeDerivations
import Idl.Proofs.StoredTrees

/-!
# Growing arenas

What storing does to an arena. New nodes come behind the old ones and refer to earlier nodes of
the kinds that they name. Every new node is referred to once: either by another new node or by what
is handed back, so that whatever makes the next node finds its parts referred to by nobody else.
What is handed back shows the tree that was stored.
-/
namespace Idl

namespace Node

@[simp] theorem countAll_append (nodes nodes' : List Node) :
    countAll (nodes ++ nodes') = countAll nodes + countAll nodes' := by
  induction nodes with
  | nil => rw [List.nil_append, countAll, Nat.zero_add]
  | cons node nodes ih => rw [List.cons_append, countAll, countAll, ih, Nat.add_assoc]

@[simp] theorem countAll_singleton (node : Node) : countAll [node] = node.count := by
  rw [countAll, countAll, Nat.add_zero]

theorem countParts_cons (part : Part) (parts : List Part) :
    countParts (part :: parts) = countAll part.nodes + countParts parts := by
  cases part with
  | word name text => exact (Nat.zero_add _).symm
  | one name node => exact congrArg (· + _) (countAll_singleton node).symm
  | absent name => exact (Nat.zero_add _).symm
  | many name nodes => rfl

theorem countParts_append (parts parts' : List Part) :
    countParts (parts ++ parts') = countParts parts + countParts parts' := by
  induction parts with
  | nil => rw [List.nil_append, countParts, Nat.zero_add]
  | cons part parts ih => rw [List.cons_append, countParts_cons, countParts_cons, ih, Nat.add_assoc]

end Node

@[simp] theorem Slot.references_optional (name : String) (reference : Option Reference) :
    (optional name reference).references = reference.toList := by
  cases reference <;> rfl

theorem mapM_eq_some_iff {α β : Type} {f : α → Option β} {items : List α} {results : List β} :
    items.mapM f = some results ↔
      List.Forall₂ (fun item result => f item = some result) items results := by
  induction items generalizing results with
  | nil => simp [eq_comm]
  | cons item items ih =>
    rw [List.mapM_cons]
    cases results <;> simp [Option.bind_eq_some_iff, ih]

namespace Arena

variable {before middle after : Arena} {reference : Reference}

/-- All nodes of the one arena stand in the other in the same places. -/
def StartsWith (after before : Arena) : Prop :=
  ∃ added, after.toList = before.toList ++ added

theorem startsWith_push (arena : Arena) (node : StoredNode) : StartsWith (arena.push node) arena :=
  ⟨[node], Array.toList_push ..⟩

theorem StartsWith.getElem?_eq {index : Nat} (h : after.StartsWith before)
    (hindex : index < before.size) : after[index]? = before[index]? := by
  obtain ⟨added, h⟩ := h
  rw [← Array.getElem?_toList, ← Array.getElem?_toList, h]
  exact List.getElem?_append_left hindex

theorem StartsWith.getElem? {index : Nat} {node : StoredNode} (h : after.StartsWith before)
    (hnode : before[index]? = some node) : after[index]? = some node := by
  rw [h.getElem?_eq (Array.getElem?_eq_some_iff.1 hnode).1, hnode]

theorem StartsWith.isSome_find? (h : after.StartsWith before)
    (hsome : (before.find? reference).isSome) : (after.find? reference).isSome := by
  obtain ⟨node, hnode⟩ := Option.isSome_iff_exists.1 hsome
  obtain ⟨hnode, hlabel⟩ := Option.filter_eq_some_iff.1 hnode
  exact Option.isSome_iff_exists.2
    ⟨node, Option.filter_eq_some_iff.2 ⟨h.getElem? hnode, hlabel⟩⟩

theorem lt_size_of_find? (h : (before.find? reference).isSome) :
    reference.index < before.size := by
  obtain ⟨node, hnode⟩ := Option.isSome_iff_exists.1 h
  exact (Array.getElem?_eq_some_iff.1 (Option.filter_eq_some_iff.1 hnode).1).1

/-! ### What nodes show -/

/-- The tree below and including the node is this one. -/
def Shows (arena : Arena) (reference : Reference) (node : Node) : Prop :=
  ∀ fuel, reference.index < fuel → arena.view? fuel reference.index = some node

/-- The part is this one, with trees in place of references. -/
inductive SlotShows (arena : Arena) : Slot → Part → Prop
  | word (name text : String) : SlotShows arena (.word name text) (.word name text)
  | one (name : String) {reference : Reference} {node : Node} (h : arena.Shows reference node) :
      SlotShows arena (.one name reference) (.one name node)
  | absent (name : String) : SlotShows arena (.absent name) (.absent name)
  | many (name : String) {references : List Reference} {nodes : List Node}
      (h : List.Forall₂ arena.Shows references nodes) :
      SlotShows arena (.many name references) (.many name nodes)

theorem SlotShows.optional (name : String) {reference : Option Reference} {node : Option Node}
    (h : List.Forall₂ after.Shows reference.toList node.toList) :
    after.SlotShows (.optional name reference) (.optional name node) := by
  cases reference <;> cases node
  · exact .absent name
  · cases h
  · cases h
  · exact .one name (List.forall₂_cons.1 h).1

/-- A part is read as what it shows if there is fuel for everything that it refers to. -/
theorem SlotShows.read? {slot : Slot} {part : Part} (h : after.SlotShows slot part) {fuel : Nat}
    (hfuel : ∀ reference ∈ slot.references, reference.index < fuel) :
    slot.read? (fun reference => after.view? fuel reference.index) = some part := by
  cases h with
  | word name text => rfl
  | absent name => rfl
  | one name h => exact Option.map_eq_some_iff.2 ⟨_, h fuel (hfuel _ List.mem_cons_self), rfl⟩
  | many name h =>
    refine Option.map_eq_some_iff.2 ⟨_, mapM_eq_some_iff.2 ?_, rfl⟩
    induction h with
    | nil => exact .nil
    | cons h _ ih =>
      exact .cons (h fuel (hfuel _ List.mem_cons_self))
        (ih fun reference hreference => hfuel reference (List.mem_cons_of_mem _ hreference))

theorem read?_mono {read read' : Reference → Option Node}
    (h : ∀ reference node, read reference = some node → read' reference = some node)
    {slot : Slot} {part : Part} (hread : slot.read? read = some part) :
    slot.read? read' = some part := by
  cases slot with
  | word name text => exact hread
  | absent name => exact hread
  | one name reference =>
    obtain ⟨node, hnode, rfl⟩ := Option.map_eq_some_iff.1 hread
    exact Option.map_eq_some_iff.2 ⟨node, h _ _ hnode, rfl⟩
  | many name references =>
    obtain ⟨nodes, hnodes, rfl⟩ := Option.map_eq_some_iff.1 hread
    exact Option.map_eq_some_iff.2
      ⟨nodes, mapM_eq_some_iff.2 ((mapM_eq_some_iff.1 hnodes).imp fun _ _ => h _ _), rfl⟩

/-- A view that can be had is the same in a larger arena. -/
theorem view?_of_startsWith (h : after.StartsWith before) {fuel index : Nat} {node : Node}
    (hview : before.view? fuel index = some node) : after.view? fuel index = some node := by
  induction fuel generalizing index node with
  | zero => cases hview
  | succ fuel ih =>
    rw [view?] at hview ⊢
    obtain ⟨stored, hstored, hview⟩ := Option.bind_eq_some_iff.1 hview
    refine Option.bind_eq_some_iff.2 ⟨stored, h.getElem? hstored, ?_⟩
    cases hshape : stored.data.shape with
    | leaf text => rwa [hshape] at hview
    | branch slots =>
      rw [hshape] at hview
      obtain ⟨parts, hparts, hview⟩ := Option.bind_eq_some_iff.1 hview
      refine Option.bind_eq_some_iff.2 ⟨parts, mapM_eq_some_iff.2 ?_, hview⟩
      exact (mapM_eq_some_iff.1 hparts).imp fun _ _ => read?_mono fun _ _ => ih

theorem Shows.mono {node : Node} (h : before.Shows reference node)
    (hafter : after.StartsWith before) : after.Shows reference node :=
  fun fuel hfuel => view?_of_startsWith hafter (h fuel hfuel)

theorem SlotShows.mono {slot : Slot} {part : Part} (h : before.SlotShows slot part)
    (hafter : after.StartsWith before) : after.SlotShows slot part := by
  cases h with
  | word name text => exact .word name text
  | one name h => exact .one name (h.mono hafter)
  | absent name => exact .absent name
  | many name h => exact .many name (h.imp fun _ _ hshows => hshows.mono hafter)

/-! ### Growth -/

/-- The arena gets so many new nodes. They refer to earlier nodes of the right kinds, and each of
them is referred to once, by another one or by what is handed back. -/
structure Grows (before after : Arena) (handed : List Reference) (count : Nat) : Prop where
  added : ∃ added : List StoredNode, after.toList = before.toList ++ added ∧ added.length = count ∧
    ((handed ++ added.flatMap (·.data.references)).map Reference.index).Perm
      (List.range' before.size count)
  known : ∀ reference ∈ handed, (after.find? reference).isSome
  earlier : ∀ index node, before.size ≤ index → after[index]? = some node →
    ∀ reference ∈ node.data.references,
      reference.index < index ∧ (after.find? reference).isSome

namespace Grows

variable {handed handed' : List Reference} {count count' : Nat}

theorem startsWith (h : Grows before after handed count) : after.StartsWith before :=
  let ⟨added, hadded, _⟩ := h.added
  ⟨added, hadded⟩

theorem size (h : Grows before after handed count) : after.size = before.size + count := by
  obtain ⟨added, hadded, rfl, -⟩ := h.added
  rw [← Array.length_toList, hadded, List.length_append, Array.length_toList]

theorem refl (arena : Arena) : Grows arena arena [] 0 where
  added := ⟨[], (List.append_nil _).symm, rfl, .nil⟩
  known := nofun
  earlier index node hindex hnode := by
    have := (Array.getElem?_eq_some_iff.1 hnode).1
    omega

theorem congr (h : Grows before after handed count) (hhanded : handed.Perm handed')
    (hcount : count = count') : Grows before after handed' count' where
  added := by
    obtain ⟨added, hadded, hlength, hall⟩ := h.added
    exact ⟨added, hadded, hcount ▸ hlength,
      ((hhanded.symm.append_right _).map _).trans (hcount ▸ hall)⟩
  known reference hreference := h.known reference (hhanded.mem_iff.2 hreference)
  earlier := h.earlier

theorem append (h : Grows before middle handed count) (h' : Grows middle after handed' count') :
    Grows before after (handed ++ handed') (count + count') where
  added := by
    obtain ⟨added, hadded, hlength, hall⟩ := h.added
    obtain ⟨added', hadded', hlength', hall'⟩ := h'.added
    refine ⟨added ++ added', ?_, ?_, ?_⟩
    · rw [hadded', hadded, List.append_assoc]
    · rw [List.length_append, hlength, hlength']
    · rw [h.size] at hall'
      rw [← List.range'_append_1]
      have hboth := hall.append hall'
      rw [← List.map_append] at hboth
      -- The two sides differ only in where the references handed back last stand.
      refine .trans (.map _ ?_) hboth
      refine List.perm_iff_count.2 fun reference => ?_
      simp only [List.flatMap_append, List.count_append]
      omega
  known reference hreference := by
    rcases List.mem_append.1 hreference with hreference | hreference
    · exact h'.startsWith.isSome_find? (h.known reference hreference)
    · exact h'.known reference hreference
  earlier index node hindex hnode reference hreference := by
    by_cases hmiddle : index < middle.size
    · rw [h'.startsWith.getElem?_eq hmiddle] at hnode
      obtain ⟨hlt, hsome⟩ := h.earlier index node hindex hnode reference hreference
      exact ⟨hlt, h'.startsWith.isSome_find? hsome⟩
    · exact h'.earlier index node (Nat.le_of_not_lt hmiddle) hnode reference hreference

/-- Making a node takes over what was handed back, in any order, and hands back the node. -/
theorem add {span : Span} {data : NodeData} (h : Grows before middle handed count)
    (hdata : data.references.Perm handed) :
    Grows before (middle.add span data).2 [(middle.add span data).1.reference] (count + 1) where
  added := by
    obtain ⟨added, hadded, hlength, hall⟩ := h.added
    refine ⟨added ++ [⟨span, data⟩], ?_, ?_, ?_⟩
    · rw [Arena.add, Array.toList_push, hadded, List.append_assoc]
    · rw [List.length_append, hlength, List.length_singleton]
    · have hindex : (middle.add span data).1.reference.index = before.size + count := h.size
      rw [List.range'_1_concat, List.map_append, List.map_singleton, hindex]
      refine List.perm_append_comm.trans (.append_right _ (.trans (.map _ ?_) hall))
      rw [List.flatMap_append, List.flatMap_singleton]
      exact List.perm_append_comm.trans (hdata.append_right _)
  known reference hreference := by
    obtain rfl := List.mem_singleton.1 hreference
    refine Option.isSome_iff_exists.2 ⟨⟨span, data⟩, Option.filter_eq_some_iff.2 ⟨?_, ?_⟩⟩
    · exact Array.getElem?_push_size
    · exact decide_eq_true rfl
  earlier index node hindex hnode reference hreference := by
    have hpush := startsWith_push middle ⟨span, data⟩
    by_cases hmiddle : index < middle.size
    · rw [Arena.add, hpush.getElem?_eq hmiddle] at hnode
      obtain ⟨hlt, hsome⟩ := h.earlier index node hindex hnode reference hreference
      exact ⟨hlt, hpush.isSome_find? hsome⟩
    · have hlast : index = middle.size := by
        have hsize := (Array.getElem?_eq_some_iff.1 hnode).1
        rw [Arena.add, Array.size_push] at hsize
        omega
      rw [hlast, Arena.add, Array.getElem?_push_size, Option.some.injEq] at hnode
      obtain rfl := hnode
      -- the last node is the new one, and what it refers to was handed back before
      have hsome := h.known reference (hdata.mem_iff.1 hreference)
      exact ⟨hlast ▸ lt_size_of_find? hsome, hpush.isSome_find? hsome⟩

end Grows

/-! ### Stored nodes -/

/-- From the one arena to the other, these nodes and nothing else were stored, and the references
to them are handed back. -/
structure Holds (before after : Arena) (handed : List Reference) (nodes : List Node) : Prop where
  grows : Grows before after handed (Node.countAll nodes)
  shows : List.Forall₂ after.Shows handed nodes

variable {handed handed' : List Reference} {nodes nodes' : List Node} {span : Span}
  {data : NodeData}

theorem shows_add_leaf {text : String} (arena : Arena) (hshape : data.shape = .leaf text) :
    (arena.add span data).2.Shows (arena.add span data).1.reference
      (.leaf data.label span text) := by
  intro fuel hfuel
  obtain ⟨fuel, rfl⟩ := Nat.exists_eq_add_one_of_ne_zero (Nat.ne_zero_of_lt hfuel)
  rw [view?]
  refine Option.bind_eq_some_iff.2 ⟨⟨span, data⟩, Array.getElem?_push_size, ?_⟩
  rw [hshape]
  rfl

theorem shows_add_branch {slots : List Slot} {parts : List Part}
    (hshape : data.shape = .branch slots)
    (hslots : List.Forall₂ middle.SlotShows slots parts)
    (hknown : ∀ reference ∈ data.references, (middle.find? reference).isSome) :
    (middle.add span data).2.Shows (middle.add span data).1.reference
      (.branch data.label span parts) := by
  have hpush := startsWith_push middle ⟨span, data⟩
  intro fuel hfuel
  obtain ⟨fuel, rfl⟩ := Nat.exists_eq_add_one_of_ne_zero (Nat.ne_zero_of_lt hfuel)
  have hfuel : middle.size ≤ fuel := Nat.le_of_lt_succ hfuel
  rw [view?]
  refine Option.bind_eq_some_iff.2 ⟨⟨span, data⟩, Array.getElem?_push_size, ?_⟩
  rw [hshape]
  refine Option.bind_eq_some_iff.2 ⟨parts, mapM_eq_some_iff.2 ?_, rfl⟩
  rw [NodeData.references, hshape, NodeShape.references] at hknown
  have hall : ∀ slot ∈ slots, ∀ reference ∈ slot.references, reference.index < fuel := by
    intro slot hslot reference hreference
    have := lt_size_of_find? (hknown reference (List.mem_flatMap_of_mem hslot hreference))
    omega
  exact ((List.forall₂_and_left slots parts).2 ⟨hall, hslots⟩).imp fun slot part hboth =>
    (hboth.2.mono hpush).read? hboth.1

namespace Holds

theorem nil (arena : Arena) : Holds arena arena [] [] :=
  ⟨.refl arena, .nil⟩

theorem shown {node : Node} (h : Holds before after [reference] [node]) :
    after.Shows reference node :=
  (List.forall₂_cons.1 h.shows).1

theorem append (h : Holds before middle handed nodes) (h' : Holds middle after handed' nodes') :
    Holds before after (handed ++ handed') (nodes ++ nodes') where
  grows := Node.countAll_append .. ▸ h.grows.append h'.grows
  shows := List.rel_append (h.shows.imp fun _ _ hshows => hshows.mono h'.grows.startsWith) h'.shows

theorem leaf {text : String} (arena : Arena) (hshape : data.shape = .leaf text) :
    Holds arena (arena.add span data).2 [(arena.add span data).1.reference]
      [.leaf data.label span text] where
  grows := (Grows.refl arena).add (by rw [NodeData.references, hshape]; rfl)
  shows := .cons (shows_add_leaf arena hshape) .nil

end Holds

/-- From the one arena to the other, the nodes in these parts and nothing else were stored, and
the slots refer to them. -/
structure HoldsParts (before after : Arena) (slots : List Slot) (parts : List Part) : Prop where
  grows : Grows before after (slots.flatMap Slot.references) (Node.countParts parts)
  shows : List.Forall₂ after.SlotShows slots parts

namespace HoldsParts

variable {slots : List Slot} {parts : List Part} {slot : Slot} {part : Part}

theorem nil (arena : Arena) : HoldsParts arena arena [] [] :=
  ⟨.refl arena, .nil⟩

theorem append {slots' : List Slot} {parts' : List Part} (h : HoldsParts before middle slots parts)
    (h' : HoldsParts middle after slots' parts') :
    HoldsParts before after (slots ++ slots') (parts ++ parts') where
  grows := by
    rw [List.flatMap_append, Node.countParts_append]
    exact h.grows.append h'.grows
  shows := List.rel_append (h.shows.imp fun _ _ hshows => hshows.mono h'.grows.startsWith) h'.shows

/-- A part is stored in front of the others. -/
theorem cons (hgrows : Grows before middle slot.references (Node.countAll part.nodes))
    (hshows : middle.SlotShows slot part) (h : HoldsParts middle after slots parts) :
    HoldsParts before after (slot :: slots) (part :: parts) := by
  have hfirst : HoldsParts before middle [slot] [part] := by
    refine ⟨?_, .cons hshows .nil⟩
    rw [List.flatMap_singleton, Node.countParts_cons, Node.countParts, Nat.add_zero]
    exact hgrows
  exact hfirst.append h

theorem word (name text : String) (h : HoldsParts before after slots parts) :
    HoldsParts before after (.word name text :: slots) (.word name text :: parts) :=
  .cons (.refl before) (.word name text) h

theorem one (name : String) {node : Node} (hnode : Holds before middle [reference] [node])
    (h : HoldsParts middle after slots parts) :
    HoldsParts before after (.one name reference :: slots) (.one name node :: parts) :=
  .cons hnode.grows (.one name hnode.shown) h

theorem optional (name : String) {reference : Option Reference} {node : Option Node}
    (hnode : Holds before middle reference.toList node.toList)
    (h : HoldsParts middle after slots parts) :
    HoldsParts before after (.optional name reference :: slots) (.optional name node :: parts) := by
  refine .cons ?_ (.optional name hnode.shows) h
  rw [Slot.references_optional, Part.nodes_optional]
  exact hnode.grows

theorem many (name : String) (hnodes : Holds before middle handed nodes)
    (h : HoldsParts middle after slots parts) :
    HoldsParts before after (.many name handed :: slots) (.many name nodes :: parts) :=
  .cons hnodes.grows (.many name hnodes.shows) h

/-- One more node in front of those of the first part. -/
theorem insert {name : String} {node : Node}
    (h : HoldsParts middle after (.many name handed :: slots) (.many name nodes :: parts))
    (hnode : Holds before middle [reference] [node]) :
    HoldsParts before after (.many name (reference :: handed) :: slots)
      (.many name (node :: nodes) :: parts) where
  grows := by
    refine (hnode.grows.append h.grows).congr (.refl _) ?_
    rw [Node.countAll_singleton, Node.countParts, Node.countParts, Node.countAll, Nat.add_assoc]
  shows := by
    obtain ⟨hmany, hrest⟩ := List.forall₂_cons.1 h.shows
    cases hmany with
    | many _ hnodes =>
      exact .cons (.many name (.cons (hnode.shown.mono h.grows.startsWith) hnodes)) hrest

/-- It does not matter which of two parts comes first. -/
theorem swap {slot' : Slot} {part' : Part}
    (h : HoldsParts before after [slot, slot'] [part, part']) :
    HoldsParts before after [slot', slot] [part', part] where
  grows := by
    refine h.grows.congr (List.Perm.flatMap_right _ (.swap _ _ _)) ?_
    simp only [Node.countParts_cons]
    omega
  shows := by
    obtain ⟨hfirst, hrest⟩ := List.forall₂_cons.1 h.shows
    exact .cons (List.forall₂_cons.1 hrest).1 (.cons hfirst .nil)

/-- A node that takes over all parts that were stored. -/
theorem branch (h : HoldsParts before middle slots parts) (hshape : data.shape = .branch slots) :
    Holds before (middle.add span data).2 [(middle.add span data).1.reference]
      [.branch data.label span parts] where
  grows := by
    rw [Node.countAll_singleton, Node.count]
    exact h.grows.add (.of_eq (by rw [NodeData.references, hshape, NodeShape.references]))
  shows := by
    refine .cons (shows_add_branch hshape h.shows fun reference hreference => ?_) .nil
    rw [NodeData.references, hshape] at hreference
    exact h.grows.known reference hreference

end HoldsParts
end Arena
end Idl
