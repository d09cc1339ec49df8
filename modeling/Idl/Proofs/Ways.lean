import Idl.Proofs.Paths
import Mathlib.Data.List.Basic

/-!
# Ways along a path

Wherever a path starts, it leads up some levels and then down through some names. Its normal form
leads down through the same names, but of the levels it keeps only whether their number is odd: a
step up behind another takes that back. So a normal form is its own normal form, and it leads to
where the path leads from a directory exactly if the path leaves that by one level at most.
-/
namespace Idl.FilePath

/-! ### Steps -/

/-- The steps of a path behind where it starts: the names in it and the steps up. -/
def steps (path : String) : List Component :=
  (segments path).filterMap innerComponent?

theorem walk_segments (start : Normal) (path : String) :
    walk start (segments path) = (steps path).foldl Normal.follow start :=
  rfl

/-- Where a path leads: some levels up, and then down through some names, which are kept from the
last to the first. -/
structure Way where
  climbs : Nat
  reversed : List String
deriving DecidableEq, Repr

namespace Way

def still : Way :=
  ⟨0, []⟩

/-- Goes on by a component. A step up takes the last name back, and climbs if there is none. -/
def follow (way : Way) : Component → Way
  | .root => way
  | .here => way
  | .name text => { way with reversed := text :: way.reversed }
  | .up =>
    match way.reversed with
    | [] => { way with climbs := way.climbs + 1 }
    | _ :: before => { way with reversed := before }

theorem climbs_follow_le (way : Way) (component : Component) :
    (way.follow component).climbs ≤ way.climbs + 1 := by
  cases component with
  | up =>
    rw [follow]
    split <;> simp
  | _ => exact Nat.le_succ _

theorem climbs_foldl_follow_le (way : Way) (list : List Component) :
    (list.foldl follow way).climbs ≤ way.climbs + list.length := by
  induction list generalizing way with
  | nil => exact Nat.le_refl _
  | cons component list ih =>
    have hfirst := way.climbs_follow_le component
    have hrest := ih (way.follow component)
    rw [List.foldl_cons, List.length_cons]
    omega

theorem foldl_follow_replicate_up (climbs levels : Nat) :
    (List.replicate levels Component.up).foldl follow ⟨climbs, []⟩ = ⟨climbs + levels, []⟩ := by
  induction levels generalizing climbs with
  | zero => rfl
  | succ levels ih =>
    rw [List.replicate_succ, List.foldl_cons]
    change (List.replicate levels Component.up).foldl follow ⟨climbs + 1, []⟩ = _
    rw [ih, Nat.add_right_comm, Nat.add_assoc]

theorem foldl_follow_map_name (way : Way) (names : List String) :
    (names.map Component.name).foldl follow way =
      { way with reversed := names.reverse ++ way.reversed } := by
  induction names generalizing way with
  | nil => rfl
  | cons name names ih =>
    rw [List.map_cons, List.foldl_cons, ih]
    simp [follow]

end Way

/-- The way of a path from wherever it starts. -/
def wayOf (path : String) : Way :=
  (steps path).foldl Way.follow .still

/-! ### Going a way from somewhere -/

namespace Normal

/-- What a normal form comes to when it is left by some levels. Above the first name every second
step up takes back the one before it. -/
def climb (start : Normal) (levels : Nat) : Normal :=
  { start with reversed := start.reversed.drop levels ++
      List.replicate ((levels - start.reversed.length) % 2) ".." }

/-- Goes a way: up first, and then down. -/
def go (start : Normal) (way : Way) : Normal :=
  { start with reversed := way.reversed ++ (start.climb way.climbs).reversed }

theorem go_still (start : Normal) : start.go .still = start := by
  simp [go, climb, Way.still]

theorem follow_up_climb (start : Normal) (levels : Nat) :
    (start.climb levels).follow .up = start.climb (levels + 1) := by
  obtain ⟨absolute, reversed⟩ := start
  by_cases hlevels : levels < reversed.length
  · have hleft : levels - reversed.length = 0 := by omega
    have hnext : levels + 1 - reversed.length = 0 := by omega
    rw [climb, climb, hleft, hnext, List.drop_eq_getElem_cons hlevels]
    rfl
  -- All names are taken back, so the next step up is kept or takes back the last one.
  · have hdrop : reversed.drop levels = [] := List.drop_eq_nil_iff.2 (by omega)
    have hnext : reversed.drop (levels + 1) = [] := List.drop_eq_nil_iff.2 (by omega)
    rw [climb, climb, hdrop, hnext]
    rcases Nat.mod_two_eq_zero_or_one (levels - reversed.length) with heven | hodd
    · have hmore : (levels + 1 - reversed.length) % 2 = 1 := by omega
      rw [heven, hmore]
      rfl
    · have hmore : (levels + 1 - reversed.length) % 2 = 0 := by omega
      rw [hodd, hmore]
      rfl

theorem follow_go (start : Normal) (way : Way) {component : Component} (h : component ≠ .root) :
    (start.go way).follow component = start.go (way.follow component) := by
  cases component with
  | root => exact absurd rfl h
  | here => rfl
  | name text => rfl
  | up =>
    obtain ⟨climbs, reversed⟩ := way
    cases reversed with
    | nil => exact follow_up_climb start climbs
    | cons last before => rfl

theorem foldl_follow_go (start : Normal) (way : Way) {list : List Component}
    (h : .root ∉ list) :
    list.foldl follow (start.go way) = start.go (list.foldl Way.follow way) := by
  induction list generalizing way with
  | nil => rfl
  | cons component list ih =>
    obtain ⟨hcomponent, hlist⟩ := not_or.1 (List.mem_cons.not.1 h)
    rw [List.foldl_cons, follow_go start way (Ne.symm hcomponent), ih _ hlist]
    rfl

/-- Below the first name nothing but names is left behind. -/
theorem reversed_go_of_le {start : Normal} {way : Way} (h : way.climbs ≤ start.reversed.length) :
    (start.go way).reversed = way.reversed ++ start.reversed.drop way.climbs := by
  have hleft : way.climbs - start.reversed.length = 0 := by omega
  rw [go, climb, hleft]
  simp

end Normal

theorem innerComponent?_cases {segment : String} {component : Component}
    (h : innerComponent? segment = some component) :
    component = .up ∨ component = .name segment := by
  unfold innerComponent? at h
  split at h
  · cases h
  · split at h
    · exact .inl (Option.some.inj h).symm
    · exact .inr (Option.some.inj h).symm

theorem root_notMem_steps (path : String) : .root ∉ steps path := by
  intro hroot
  obtain ⟨segment, -, hsegment⟩ := List.mem_filterMap.1 hroot
  rcases innerComponent?_cases hsegment with h | h <;> cases h

/-- Following a path is going its way. -/
theorem walk_segments_eq_go (start : Normal) (path : String) :
    walk start (segments path) = start.go (wayOf path) := by
  rw [walk_segments, wayOf, ← Normal.foldl_follow_go start _ (root_notMem_steps path),
    Normal.go_still]

theorem normalOf_eq_go (path : String) :
    normalOf path = (⟨isAbsolute path, []⟩ : Normal).go (wayOf path) := by
  rw [normalOf_eq, walk_segments_eq_go]

theorem reversed_normalOf (path : String) :
    (normalOf path).reversed =
      (wayOf path).reversed ++ List.replicate ((wayOf path).climbs % 2) ".." := by
  rw [normalOf_eq_go, Normal.go, Normal.climb]
  simp

/-! ### The way of a normal form -/

/-- The text can stand in a path as a name. -/
def IsName (text : String) : Prop :=
  innerComponent? text = some (.name text)

theorem Way.isName_foldl_follow {way : Way} (h : ∀ text ∈ way.reversed, IsName text)
    {list : List Component} (hlist : ∀ text, .name text ∈ list → IsName text) :
    ∀ text ∈ (list.foldl follow way).reversed, IsName text := by
  induction list generalizing way with
  | nil => exact h
  | cons component list ih =>
    refine ih (fun text htext => ?_) fun text htext => hlist text (List.mem_cons_of_mem _ htext)
    cases component with
    | root => exact h text htext
    | here => exact h text htext
    | name last =>
      rcases List.mem_cons.1 htext with rfl | htext
      · exact hlist text List.mem_cons_self
      · exact h text htext
    | up =>
      obtain ⟨climbs, reversed⟩ := way
      cases reversed with
      | nil => exact absurd htext List.not_mem_nil
      | cons last before => exact h text (List.mem_cons_of_mem _ htext)

theorem isName_of_mem_reversed {path : String} :
    ∀ text ∈ (wayOf path).reversed, IsName text := by
  refine Way.isName_foldl_follow (fun text htext => absurd htext List.not_mem_nil) ?_
  intro text htext
  obtain ⟨segment, -, hsegment⟩ := List.mem_filterMap.1 htext
  rcases innerComponent?_cases hsegment with h | h
  · cases h
  · obtain rfl := Component.name.inj h
    exact hsegment

/-- Between the slashes of a normal form there are its names and nothing else that counts. -/
theorem steps_text {path : Normal} (h : path.IsPlain) :
    steps path.text = path.reversed.reverse.filterMap innerComponent? := by
  rw [steps, ← Normal.segments_text h, List.filterMap_filter]
  refine List.filterMap_congr fun segment _ => ?_
  by_cases hempty : segment = ""
  · subst hempty
    rfl
  · simp [hempty]

theorem steps_normalize (path : String) :
    steps (normalize path) = List.replicate ((wayOf path).climbs % 2) .up ++
      (wayOf path).reversed.reverse.map .name := by
  have hnames : (wayOf path).reversed.reverse.filterMap innerComponent? =
      (wayOf path).reversed.reverse.map .name := by
    rw [← List.filterMap_eq_map]
    refine List.filterMap_congr fun text htext => ?_
    exact isName_of_mem_reversed text (List.mem_reverse.1 htext)
  rw [normalize_eq, steps_text (isPlain_normalOf path), reversed_normalOf, List.reverse_append,
    List.reverse_replicate, List.filterMap_append, hnames]
  congr 1
  exact List.filterMap_replicate_of_some rfl

/-- Of the way of a path its normal form keeps the names, and of the levels whether they are odd. -/
theorem wayOf_normalize (path : String) :
    wayOf (normalize path) = ⟨(wayOf path).climbs % 2, (wayOf path).reversed⟩ := by
  rw [wayOf, steps_normalize, List.foldl_append, Way.still, Way.foldl_follow_replicate_up,
    Way.foldl_follow_map_name]
  simp

theorem isAbsolute_normalize (path : String) :
    isAbsolute (normalize path) = isAbsolute path := by
  rw [normalize_eq, Normal.isAbsolute_text (isPlain_normalOf path), normalOf_eq_go]
  rfl

theorem normalOf_normalize (path : String) : normalOf (normalize path) = normalOf path := by
  rw [normalOf_eq_go, normalOf_eq_go, isAbsolute_normalize, wayOf_normalize]
  simp [Normal.go, Normal.climb]

/-- A normal form is its own normal form. -/
theorem normalize_normalize (path : String) : normalize (normalize path) = normalize path := by
  rw [normalize_eq_iff, normalOf_normalize]

/-! ### Paths seen from a directory -/

theorem firstComponent?_of_innerComponent? {segment : String} {component : Component}
    (h : innerComponent? segment = some component) (more : Bool) :
    firstComponent? segment more = some component := by
  have hempty : segment ≠ "" := by
    rintro rfl
    cases h
  have hhere : segment ≠ "." := by
    rintro rfl
    cases h
  rw [firstComponent?, if_neg hempty, if_neg hhere, h]

theorem length_steps_le (path : String) : (steps path).length ≤ (components path).length := by
  rw [steps, components]
  cases segments path with
  | nil => exact Nat.le_refl _
  | cons first rest =>
    rw [List.length_append, List.filterMap_cons]
    cases hfirst : innerComponent? first with
    | none => exact Nat.le_add_left _ _
    | some component =>
      rw [firstComponent?_of_innerComponent? hfirst, List.length_cons, Nat.add_comm]
      rfl

/-- A path has no more levels up than it has components. -/
theorem climbs_wayOf_le (path : String) : (wayOf path).climbs ≤ (components path).length := by
  have hclimbs := Way.still.climbs_foldl_follow_le (steps path)
  rw [Way.still, Nat.zero_add] at hclimbs
  exact hclimbs.trans (length_steps_le path)

section

variable {base path other : String} {names : List String}

theorem normalOf_of_components (h : components base = .root :: names.map .name) :
    normalOf base = ⟨true, names.reverse⟩ := by
  have hroot : Component.root ∉ names.map .name := by simp
  rw [normalOf, h, List.foldl_cons]
  change (names.map .name).foldl Normal.follow ⟨true, []⟩ = _
  rw [← Normal.go_still ⟨true, []⟩, Normal.foldl_follow_go _ _ hroot, Way.foldl_follow_map_name]
  simp [Way.still, Normal.go, Normal.climb]

/-- From a directory that is deep enough, a path leads up its levels and down through its names. -/
theorem normalOf_join_of_deep (hbase : components base = .root :: names.map .name)
    (hpath : isAbsolute path = false) (hdeep : (wayOf path).climbs ≤ names.length) :
    normalOf (join base path) =
      ⟨true, (wayOf path).reversed ++ names.reverse.drop (wayOf path).climbs⟩ := by
  have hdeep : (wayOf path).climbs ≤ (⟨true, names.reverse⟩ : Normal).reversed.length := by
    simpa using hdeep
  rw [normalOf_join, if_neg (by simp [hpath]), walk_segments_eq_go, normalOf_of_components hbase,
    ← Normal.reversed_go_of_le hdeep]
  rfl

/-- Paths of one normal form lead from a directory to the same place exactly if they leave it by
the same number of levels. -/
theorem normalize_join_eq_iff_climbs (hbase : components base = .root :: names.map .name)
    (hpath : isAbsolute path = false) (hother : isAbsolute other = false)
    (hdeep : (wayOf path).climbs ≤ names.length) (hdeep' : (wayOf other).climbs ≤ names.length)
    (hsame : normalize path = normalize other) :
    normalize (join base path) = normalize (join base other) ↔
      (wayOf path).climbs = (wayOf other).climbs := by
  have hnames : (wayOf path).reversed = (wayOf other).reversed := by
    have hway := wayOf_normalize path
    rw [hsame, wayOf_normalize other] at hway
    exact (Way.mk.inj hway).2.symm
  rw [normalize_eq_iff, normalOf_join_of_deep hbase hpath hdeep,
    normalOf_join_of_deep hbase hother hdeep', hnames, Normal.mk.injEq, and_iff_right rfl,
    List.append_cancel_left_eq]
  constructor
  · intro h
    have hlength := congrArg List.length h
    simp only [List.length_drop, List.length_reverse] at hlength
    omega
  · intro h
    rw [h]

/-- Normal forms seen from a directory. From an absolute directory of names that is at least as deep
as a relative path has components, the path and its normal form lead to the same place exactly if
the path leaves the directory by one level at most; and two such paths of one normal form lead to
the same place exactly if they leave it by the same number of levels. -/
theorem normalize_join_normalize_iff (hbase : components base = .root :: names.map .name)
    (hpath : isAbsolute path = false) (hdeep : (components path).length ≤ names.length) :
    (normalize (join base path) = normalize (join base (normalize path)) ↔
      (wayOf path).climbs ≤ 1) ∧
    ∀ other, isAbsolute other = false → (components other).length ≤ names.length →
      normalize path = normalize other →
        (normalize (join base path) = normalize (join base other) ↔
          (wayOf path).climbs = (wayOf other).climbs) := by
  have hclimbs := (climbs_wayOf_le path).trans hdeep
  constructor
  · have hnormal : (wayOf (normalize path)).climbs = (wayOf path).climbs % 2 := by
      rw [wayOf_normalize]
    rw [normalize_join_eq_iff_climbs hbase hpath ((isAbsolute_normalize path).trans hpath) hclimbs
      (by omega) (normalize_normalize path).symm, hnormal]
    omega
  · intro other hother hdeep' hsame
    exact normalize_join_eq_iff_climbs hbase hpath hother hclimbs
      ((climbs_wayOf_le other).trans hdeep') hsame

end

/-- A path that comes back into the directory above before it goes down. -/
theorem normalize_join_neighbour :
    components "/a/b/c/d" = .root :: ["a", "b", "c", "d"].map .name ∧
      isAbsolute "../y/../x" = false ∧ (components "../y/../x").length ≤ 4 ∧
      normalize (join "/a/b/c/d" "../y/../x") =
        normalize (join "/a/b/c/d" (normalize "../y/../x")) ∧
      normalize (join "/a/b/c/d" "../y/../x") = normalize (join "/a/b/c/d" "z/../../x") := by
  have hbase : components "/a/b/c/d" = .root :: ["a", "b", "c", "d"].map .name := by
    decide +kernel
  have hpath : isAbsolute "../y/../x" = false := by decide +kernel
  have hdeep : (components "../y/../x").length ≤ ["a", "b", "c", "d"].length := by decide +kernel
  obtain ⟨hnormal, hsame⟩ := normalize_join_normalize_iff hbase hpath hdeep
  exact ⟨hbase, hpath, hdeep, hnormal.2 (by decide +kernel),
    (hsame "z/../../x" (by decide +kernel) (by decide +kernel) (by decide +kernel)).2
      (by decide +kernel)⟩

/-- Of two levels nothing is left in the normal form, so it leads elsewhere. -/
theorem not_forall_normalize_join_normalize :
    ¬ ∀ (base path : String) (names : List String),
      components base = .root :: names.map .name → isAbsolute path = false →
        (components path).length ≤ names.length →
          normalize (join base path) = normalize (join base (normalize path)) := by
  intro h
  have hcousin := h "/a/b/c" "../../x" ["a", "b", "c"] (by decide +kernel) (by decide +kernel)
    (by decide +kernel)
  revert hcousin
  decide +kernel

end Idl.FilePath
