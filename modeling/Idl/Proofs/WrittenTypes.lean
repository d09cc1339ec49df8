import Idl.Check.Types
import Idl.Syntax.References
import Mathlib.Tactic

/-!
# The types and initializers of a file

What is written in the type positions of a file and what initializes its constants and fields,
with all the parts of both. Every name in them is a reference of the file.
-/
namespace Idl

/-- The types written in a declaration. -/
def Declaration.types : Declaration → List TypeRef
  | constant d => [d.type]
  | typedef d => [d.type]
  | enum _ => []
  | struct d => d.fields.map (·.type)
  | service d =>
    d.methods.flatMap fun method =>
      method.returns :: (method.arguments ++ method.throws).map (·.type)

def Document.types (document : Document) : List TypeRef :=
  document.declarations.flatMap Declaration.types

/-- The value of a constant and the defaults of fields. -/
def Declaration.initializers : Declaration → List Expr
  | constant d => [d.value]
  | typedef _ => []
  | enum _ => []
  | struct d => d.fields.filterMap (·.default)
  | service _ => []

def Document.initializers (document : Document) : List Expr :=
  document.declarations.flatMap Declaration.initializers

/-- A type and all types inside it. -/
def TypeRef.parts : TypeRef → List TypeRef
  | builtin type span => [builtin type span]
  | list element span => list element span :: element.parts
  | map key value span => map key value span :: (key.parts ++ value.parts)
  | name n => [name n]

mutual

/-- An expression and all expressions inside it. -/
def Expr.parts : Expr → List Expr
  | .integer literal => [.integer literal]
  | .string literal => [.string literal]
  | .bool value span => [.bool value span]
  | .list elements span => .list elements span :: Expr.partsAll elements
  | .map entries span => .map entries span :: Expr.partsEntries entries
  | .name n => [.name n]

def Expr.partsAll : List Expr → List Expr
  | [] => []
  | e :: es => e.parts ++ Expr.partsAll es

def Expr.partsEntries : List (Expr × Expr) → List Expr
  | [] => []
  | (key, value) :: entries => key.parts ++ value.parts ++ Expr.partsEntries entries

end

theorem TypeRef.mem_parts (type : TypeRef) : type ∈ type.parts := by
  cases type <;> exact List.mem_cons_self

theorem TypeRef.references_subset_of_mem_parts {type part : TypeRef} (h : part ∈ type.parts) :
    part.references ⊆ type.references := by
  induction type with
  | builtin type span =>
    obtain rfl := List.mem_singleton.1 h
    exact List.Subset.refl _
  | list element span ih =>
    rcases List.mem_cons.1 h with rfl | h
    · exact List.Subset.refl _
    · exact ih h
  | map key value span ihkey ihvalue =>
    rcases List.mem_cons.1 h with rfl | h
    · exact List.Subset.refl _
    · rcases List.mem_append.1 h with h | h
      · exact List.subset_append_of_subset_left _ (ihkey h)
      · exact List.subset_append_of_subset_right _ (ihvalue h)
  | name n =>
    obtain rfl := List.mem_singleton.1 h
    exact List.Subset.refl _

mutual

theorem Expr.references_subset_of_mem_parts {part : Expr} :
    ∀ {e : Expr}, part ∈ e.parts → part.references ⊆ e.references
  | .integer _, h => by
    obtain rfl := List.mem_singleton.1 h
    exact List.Subset.refl _
  | .string _, h => by
    obtain rfl := List.mem_singleton.1 h
    exact List.Subset.refl _
  | .bool _ _, h => by
    obtain rfl := List.mem_singleton.1 h
    exact List.Subset.refl _
  | .list elements _, h => by
    rcases List.mem_cons.1 h with rfl | h
    · exact List.Subset.refl _
    · exact Expr.references_subset_of_mem_partsAll h
  | .map entries _, h => by
    rcases List.mem_cons.1 h with rfl | h
    · exact List.Subset.refl _
    · exact Expr.references_subset_of_mem_partsEntries h
  | .name _, h => by
    obtain rfl := List.mem_singleton.1 h
    exact List.Subset.refl _

theorem Expr.references_subset_of_mem_partsAll {part : Expr} :
    ∀ {es : List Expr}, part ∈ Expr.partsAll es → part.references ⊆ Expr.referencesAll es
  | e :: es, h => by
    rcases List.mem_append.1 h with h | h
    · exact List.subset_append_of_subset_left _ (Expr.references_subset_of_mem_parts h)
    · exact List.subset_append_of_subset_right _ (Expr.references_subset_of_mem_partsAll h)

theorem Expr.references_subset_of_mem_partsEntries {part : Expr} :
    ∀ {entries : List (Expr × Expr)},
      part ∈ Expr.partsEntries entries → part.references ⊆ Expr.referencesEntries entries
  | (key, value) :: entries, h => by
    rcases List.mem_append.1 h with h | h
    · refine List.subset_append_of_subset_left _ ?_
      rcases List.mem_append.1 h with h | h
      · exact List.subset_append_of_subset_left _ (Expr.references_subset_of_mem_parts h)
      · exact List.subset_append_of_subset_right _ (Expr.references_subset_of_mem_parts h)
    · exact List.subset_append_of_subset_right _ (Expr.references_subset_of_mem_partsEntries h)

end

theorem Declaration.references_subset_of_mem_types {declaration : Declaration} {type : TypeRef}
    (h : type ∈ declaration.types) : type.references ⊆ declaration.references := by
  intro name hname
  cases declaration with
  | constant d =>
    obtain rfl := List.mem_singleton.1 h
    exact List.mem_append_left _ hname
  | typedef d =>
    obtain rfl := List.mem_singleton.1 h
    exact hname
  | enum d => cases h
  | struct d =>
    obtain ⟨field, hfield, rfl⟩ := List.mem_map.1 h
    exact List.mem_flatMap.2 ⟨field, hfield, List.mem_append_left _ hname⟩
  | service d =>
    obtain ⟨method, hmethod, htype⟩ := List.mem_flatMap.1 h
    refine List.mem_append_right _ (List.mem_flatMap.2 ⟨method, hmethod, ?_⟩)
    rcases List.mem_cons.1 htype with rfl | htype
    · exact List.mem_append_left _ hname
    · obtain ⟨argument, hargument, rfl⟩ := List.mem_map.1 htype
      exact List.mem_append_right _ (List.mem_flatMap.2 ⟨argument, hargument, hname⟩)

theorem Declaration.references_subset_of_mem_initializers {declaration : Declaration} {e : Expr}
    (h : e ∈ declaration.initializers) : e.references ⊆ declaration.references := by
  intro name hname
  cases declaration with
  | constant d =>
    obtain rfl := List.mem_singleton.1 h
    exact List.mem_append_right _ hname
  | struct d =>
    obtain ⟨field, hfield, hdefault⟩ := List.mem_filterMap.1 h
    refine List.mem_flatMap.2 ⟨field, hfield, List.mem_append_right _ ?_⟩
    simpa [hdefault] using hname
  | typedef d => cases h
  | enum d => cases h
  | service d => cases h

theorem Document.references_subset_of_mem_types {document : Document} {type : TypeRef}
    (h : type ∈ document.types) : type.references ⊆ document.references := by
  obtain ⟨declaration, hdeclaration, htype⟩ := List.mem_flatMap.1 h
  intro name hname
  exact List.mem_flatMap.2 ⟨declaration, hdeclaration,
    declaration.references_subset_of_mem_types htype hname⟩

theorem Document.references_subset_of_mem_initializers {document : Document} {e : Expr}
    (h : e ∈ document.initializers) : e.references ⊆ document.references := by
  obtain ⟨declaration, hdeclaration, he⟩ := List.mem_flatMap.1 h
  intro name hname
  exact List.mem_flatMap.2 ⟨declaration, hdeclaration,
    declaration.references_subset_of_mem_initializers he hname⟩

end Idl
