import Idl.Loader.Memory
import Mathlib.Data.List.TakeWhile

/-!
# Spellings of a path

Two paths that end in a name and have one normal form are different spellings of one file. From
the directories of both, a name leads to the same file again, so it does not matter by which
spelling a file was reached.
-/
namespace Idl.FilePath

/-! ### Segments -/

theorem splitSlashes_ne_nil (cs : List Char) : splitSlashes cs ≠ [] := by
  fun_cases splitSlashes cs <;> simp

theorem splitSlashes_eq_splitOn (cs : List Char) : splitSlashes cs = cs.splitOn '/' := by
  induction cs with
  | nil => simp [splitSlashes]
  | cons c cs ih =>
    rw [splitSlashes, List.splitOn_cons_eq_if_modifyHead, ← ih]
    cases h : splitSlashes cs with
    | nil => exact absurd h (splitSlashes_ne_nil cs)
    | cons segment segments => by_cases hc : c = '/' <;> simp [hc]

theorem slash_notMem_of_mem_splitSlashes {cs segment : List Char}
    (h : segment ∈ splitSlashes cs) : '/' ∉ segment := by
  induction cs generalizing segment with
  | nil => simp_all [splitSlashes]
  | cons c cs ih =>
    rw [splitSlashes] at h
    by_cases hc : c = '/'
    · rw [if_pos hc] at h
      rcases List.mem_cons.1 h with rfl | h
      · exact List.not_mem_nil
      · exact ih h
    · rw [if_neg hc] at h
      cases hsplit : splitSlashes cs with
      | nil => exact absurd hsplit (splitSlashes_ne_nil cs)
      | cons first rest =>
        rw [hsplit] at h ih
        rcases List.mem_cons.1 h with rfl | h
        · have := ih List.mem_cons_self
          simp_all [Ne.symm hc]
        · exact ih (List.mem_cons_of_mem _ h)

theorem segments_ne_nil (path : String) : segments path ≠ [] := by
  simp [segments, splitSlashes_ne_nil]

theorem slash_notMem_of_mem_segments {path segment : String} (h : segment ∈ segments path) :
    '/' ∉ segment.toList := by
  obtain ⟨cs, hcs, rfl⟩ := List.mem_map.1 h
  simpa using slash_notMem_of_mem_splitSlashes hcs

theorem segments_of_notMem {segment : String} (h : '/' ∉ segment.toList) :
    segments segment = [segment] := by
  rw [segments, splitSlashes_eq_splitOn, List.splitOn_eq_singleton h]
  simp

theorem segments_append_slash (before after : String) :
    segments (before ++ "/" ++ after) = segments before ++ segments after := by
  have hchars : (before ++ "/" ++ after).toList = before.toList ++ '/' :: after.toList := by simp
  rw [segments, hchars, splitSlashes_eq_splitOn, List.splitOn_append_cons_self, List.map_append]
  simp only [segments, splitSlashes_eq_splitOn]

theorem segments_intercalate {list : List String} (hne : list ≠ [])
    (h : ∀ segment ∈ list, '/' ∉ segment.toList) : segments ("/".intercalate list) = list := by
  rw [segments, splitSlashes_eq_splitOn, String.toList_intercalate]
  change ((['/'].intercalate _).splitOn '/').map String.ofList = list
  rw [List.splitOn_intercalate '/' (by simpa using h) (by simpa using hne), List.map_map]
  simp

/-- What is written without a slash at the end of a path goes to the last segment. -/
theorem splitSlashes_append (cs : List Char) {suffix : List Char} (h : '/' ∉ suffix) :
    ∃ before last, splitSlashes cs = before ++ [last] ∧
      splitSlashes (cs ++ suffix) = before ++ [last ++ suffix] := by
  induction cs with
  | nil =>
    refine ⟨[], [], rfl, ?_⟩
    rw [splitSlashes_eq_splitOn, List.nil_append, List.splitOn_eq_singleton h]
    rfl
  | cons c cs ih =>
    obtain ⟨before, last, hsplit, hsuffix⟩ := ih
    rw [List.cons_append, splitSlashes, splitSlashes, hsplit, hsuffix]
    by_cases hc : c = '/'
    · exact ⟨[] :: before, last, by simp [hc], by simp [hc]⟩
    · cases before with
      | nil => exact ⟨[], c :: last, by simp [hc], by simp [hc]⟩
      | cons first before => exact ⟨(c :: first) :: before, last, by simp [hc], by simp [hc]⟩

theorem segments_append (path : String) {suffix : String} (h : '/' ∉ suffix.toList) :
    ∃ before last, segments path = before ++ [last] ∧
      segments (path ++ suffix) = before ++ [last ++ suffix] := by
  obtain ⟨before, last, hpath, hsuffix⟩ := splitSlashes_append path.toList h
  refine ⟨before.map String.ofList, String.ofList last, ?_, ?_⟩
  · rw [segments, hpath, List.map_append, List.map_singleton]
  · rw [segments, String.toList_append, hsuffix, List.map_append, List.map_singleton]
    congr 2
    apply String.toList_injective
    simp

/-- Whether a path with these segments starts with a slash. -/
def startsAtRoot : List String → Bool
  | first :: _ :: _ => first == ""
  | _ => false

theorem isAbsolute_eq (path : String) : isAbsolute path = startsAtRoot (segments path) := by
  rw [isAbsolute, segments]
  cases hpath : path.toList with
  | nil => rfl
  | cons c cs =>
    rw [splitSlashes]
    by_cases hc : c = '/'
    · cases hsplit : splitSlashes cs with
      | nil => exact absurd hsplit (splitSlashes_ne_nil cs)
      | cons segment rest => simp [hc, startsAtRoot]
    · cases hsplit : splitSlashes cs with
      | nil => exact absurd hsplit (splitSlashes_ne_nil cs)
      | cons segment rest =>
        have hne : String.ofList (c :: segment) ≠ "" := by simp
        cases rest <;> simp [hc, startsAtRoot]

/-! ### The way along the segments -/

/-- Follows segments, none of which is the first of a path. -/
def walk (start : Normal) (list : List String) : Normal :=
  (list.filterMap innerComponent?).foldl Normal.follow start

/-- The normal form of a path before it is written out. -/
def normalOf (path : String) : Normal :=
  (components path).foldl Normal.follow .empty

theorem normalize_eq (path : String) : normalize path = (normalOf path).text :=
  rfl

theorem walk_append (start : Normal) (before after : List String) :
    walk start (before ++ after) = walk (walk start before) after := by
  rw [walk, List.filterMap_append, List.foldl_append]
  rfl

theorem exists_innerComponent? {segment : String} (h : isBlank segment = false) :
    ∃ component, innerComponent? segment = some component := by
  rw [innerComponent?, h]
  by_cases hup : segment = ".."
  · exact ⟨.up, by simp [hup]⟩
  · exact ⟨.name segment, by simp [hup]⟩

theorem filterMap_innerComponent?_of_isBlank {list : List String}
    (h : ∀ segment ∈ list, isBlank segment) : list.filterMap innerComponent? = [] := by
  rw [List.filterMap_eq_nil_iff]
  intro segment hsegment
  simp [innerComponent?, h segment hsegment]

theorem walk_of_isBlank {list : List String} (h : ∀ segment ∈ list, isBlank segment)
    (start : Normal) : walk start list = start := by
  rw [walk, filterMap_innerComponent?_of_isBlank h]
  rfl

theorem normalOf_eq (path : String) :
    normalOf path = walk ⟨isAbsolute path, []⟩ (segments path) := by
  rw [isAbsolute_eq, normalOf, components]
  cases hsegments : segments path with
  | nil => exact absurd hsegments (segments_ne_nil path)
  | cons first rest =>
    rw [← List.singleton_append, walk_append]
    simp only [List.singleton_append, List.foldl_append]
    change walk _ rest = _
    congr 1
    -- A slash at the start and a leading dot are the only first segments with a role of their own.
    by_cases hempty : first = ""
    · cases rest <;>
        simp [hempty, firstComponent?, startsAtRoot, walk, innerComponent?, isBlank, Normal.follow,
          Normal.empty]
    · have hroot : startsAtRoot (first :: rest) = false := by
        cases rest <;> simp [startsAtRoot, hempty]
      rw [hroot]
      by_cases hhere : first = "."
      · simp [hhere, firstComponent?, walk, innerComponent?, isBlank, Normal.follow, Normal.empty]
      · simp only [firstComponent?, hempty, hhere, if_false, walk, List.filterMap_cons,
          List.filterMap_nil]
        cases innerComponent? first <;> rfl

theorem isAbsolute_append {path : String} (h : path ≠ "") (suffix : String) :
    isAbsolute (path ++ suffix) = isAbsolute path := by
  rw [isAbsolute, isAbsolute, String.toList_append]
  cases hpath : path.toList with
  | nil => exact absurd (String.toList_eq_nil_iff.1 hpath) h
  | cons c cs => rfl

/-- A relative name is added to a directory behind the directory's segments, of which a slash at
the end leaves a last empty one out. -/
theorem segments_join {directory name : String} (hname : isAbsolute name = false)
    (hdirectory : directory ≠ "") :
    ∃ before blank, segments directory = before ++ blank ∧ (∀ segment ∈ blank, isBlank segment) ∧
      segments (join directory name) = before ++ segments name ∧
      isAbsolute (join directory name) = isAbsolute directory := by
  cases hlast : directory.toList.getLast? with
  | none => exact absurd (String.toList_eq_nil_iff.1 (List.getLast?_eq_none_iff.1 hlast)) hdirectory
  | some c =>
    by_cases hc : c = '/'
    · subst hc
      have hjoin : join directory name = directory ++ name := by simp [join, hname, hlast]
      obtain ⟨parent, hparent⟩ := List.getLast?_eq_some_iff.1 hlast
      have heq : directory = String.ofList parent ++ "/" := by
        apply String.toList_injective
        simpa using hparent
      refine ⟨segments (String.ofList parent), [""], ?_, by simp [isBlank], ?_, ?_⟩
      · rw [heq, ← String.append_empty (s := String.ofList parent ++ "/"), segments_append_slash]
        rfl
      · rw [hjoin, heq, segments_append_slash]
      · rw [hjoin, isAbsolute_append hdirectory]
    · have hjoin : join directory name = directory ++ "/" ++ name := by
        simp [join, hname, hlast]
      refine ⟨segments directory, [], (List.append_nil _).symm, by simp, ?_, ?_⟩
      · rw [hjoin, segments_append_slash]
      · rw [hjoin, String.append_assoc, isAbsolute_append hdirectory]

/-- A name seen from a directory is found by following its segments from there. -/
theorem normalOf_join (directory name : String) :
    normalOf (join directory name) =
      if isAbsolute name then normalOf name
      else walk (normalOf directory) (segments name) := by
  by_cases habsolute : isAbsolute name
  · simp [join, habsolute]
  · rw [if_neg habsolute]
    rw [Bool.not_eq_true] at habsolute
    by_cases hempty : directory = ""
    · subst hempty
      have hjoin : join "" name = name := by simp [join, habsolute]
      rw [hjoin, normalOf_eq, habsolute]
      rfl
    · obtain ⟨before, blank, hsegments, hblank, hjoin, hsame⟩ := segments_join habsolute hempty
      rw [normalOf_eq, hjoin, hsame, walk_append, normalOf_eq, hsegments, walk_append,
        walk_of_isBlank hblank]

/-! ### Paths that end in a name -/

theorem fileName?_eq_some_iff {path text : String} :
    fileName? path = some text ↔
      ((segments path).filterMap innerComponent?).getLast? = some (.name text) := by
  have hname : fileName? path = some text ↔ (components path).getLast? = some (.name text) := by
    rw [fileName?]
    split <;> simp_all
  rw [hname, components]
  cases hsegments : segments path with
  | nil => simp
  | cons first rest =>
    rw [← List.singleton_append, List.filterMap_append]
    simp only [List.singleton_append, List.getLast?_append]
    cases (rest.filterMap innerComponent?).getLast? with
    | some component => simp
    | none =>
      simp only [Option.none_or, firstComponent?]
      by_cases hempty : first = ""
      · cases rest <;> simp [hempty, innerComponent?, isBlank]
      · by_cases hhere : first = "."
        · simp [hhere, innerComponent?, isBlank]
        · simp only [hempty, hhere, if_false, List.filterMap_cons, List.filterMap_nil]
          cases innerComponent? first <;> simp

theorem fileName?_join {directory name text : String} (h : fileName? name = some text) :
    fileName? (join directory name) = some text := by
  by_cases habsolute : isAbsolute name
  · simpa [join, habsolute] using h
  · rw [Bool.not_eq_true] at habsolute
    by_cases hempty : directory = ""
    · subst hempty
      simpa [join, habsolute] using h
    · obtain ⟨before, -, -, -, hjoin, -⟩ := segments_join habsolute hempty
      rw [fileName?_eq_some_iff] at h ⊢
      rw [hjoin, List.filterMap_append, List.getLast?_append, h]
      rfl

theorem exists_of_dropWhile_isBlank (list : List String) :
    ∃ blank, list = (list.reverse.dropWhile isBlank).reverse ++ blank ∧
      ∀ segment ∈ blank, isBlank segment := by
  refine ⟨(list.reverse.takeWhile isBlank).reverse, ?_, ?_⟩
  · rw [← List.reverse_append, List.takeWhile_append_dropWhile, List.reverse_reverse]
  · intro segment hsegment
    exact List.mem_takeWhile_imp (List.mem_reverse.1 hsegment)

theorem normalOf_intercalate {list : List String} (hne : list ≠ [])
    (h : ∀ segment ∈ list, '/' ∉ segment.toList) :
    normalOf ("/".intercalate list) = walk ⟨startsAtRoot list, []⟩ list := by
  rw [normalOf_eq, isAbsolute_eq, segments_intercalate hne h]

theorem startsAtRoot_of_ne {first : String} (h : first ≠ "") (rest : List String) :
    startsAtRoot (first :: rest) = false := by
  cases rest <;> simp [startsAtRoot, h]

/-- The directory of a path is the way to its last segment that means something. -/
theorem normalOf_directory_of_segments {path first last : String} {before blank : List String}
    (hsegments : segments path = first :: (before ++ last :: blank)) (hlast : isBlank last = false)
    (hblank : ∀ segment ∈ blank, isBlank segment) :
    normalOf (directory path) = walk ⟨isAbsolute path, []⟩ (first :: before) := by
  have hmem : ∀ segment ∈ first :: before, '/' ∉ segment.toList := by
    intro segment hsegment
    apply @slash_notMem_of_mem_segments path
    rw [hsegments]
    rcases List.mem_cons.1 hsegment with rfl | hsegment
    · exact List.mem_cons_self
    · exact List.mem_cons_of_mem _ (List.mem_append_left _ hsegment)
  have hdrop : (before ++ last :: blank).reverse.dropWhile isBlank = last :: before.reverse := by
    have hpos : ∀ segment ∈ blank.reverse, isBlank segment := by simpa using hblank
    rw [List.reverse_append, List.reverse_cons, List.append_assoc,
      List.dropWhile_append_of_pos hpos, List.singleton_append,
      List.dropWhile_cons_of_neg (by simp [hlast])]
  obtain ⟨trailing, hbefore, htrailing⟩ := exists_of_dropWhile_isBlank before
  rw [hbefore, ← List.cons_append, walk_append, walk_of_isBlank htrailing, isAbsolute_eq, hsegments]
  have hroot : startsAtRoot (first :: (before ++ last :: blank)) = (first == "") := by
    cases before <;> rfl
  rw [hroot, directory, parent?, hsegments]
  simp only [hdrop]
  -- the directory keeps the segments up to the one before, or is the root or a single segment
  cases hkept : (before.reverse.dropWhile isBlank).reverse with
  | nil =>
    by_cases hfirst : first = ""
    · simp only [hfirst, if_true, Option.getD_some]
      rfl
    · simp only [hfirst, if_false, Option.getD_some]
      rw [normalOf_eq, isAbsolute_eq, segments_of_notMem (hmem first List.mem_cons_self)]
      rw [startsAtRoot, beq_false_of_ne hfirst]
      simp
  | cons second kept =>
    simp only [Option.getD_some]
    rw [normalOf_intercalate (by simp)]
    · rfl
    · intro segment hsegment
      apply hmem
      rw [hbefore, hkept, ← List.cons_append]
      exact List.mem_append_left _ hsegment

/-- A path of one name, with nothing behind it that means something, leads there from nowhere. -/
theorem normalOf_directory_of_first {path first text : String} {blank : List String}
    (hsegments : segments path = first :: blank) (hblank : ∀ segment ∈ blank, isBlank segment)
    (hinner : innerComponent? first = some (.name text)) :
    normalOf path = (normalOf (directory path)).follow (.name text) := by
  have hfirst : first ≠ "" := by
    rintro rfl
    cases hinner
  have hdrop : blank.reverse.dropWhile isBlank = [] :=
    List.dropWhile_eq_nil_iff.2 fun segment hsegment => hblank _ (List.mem_reverse.1 hsegment)
  have hdirectory : directory path = "" := by
    simp [directory, parent?, hsegments, hdrop, hfirst]
  rw [hdirectory, normalOf_eq, isAbsolute_eq, hsegments, startsAtRoot_of_ne hfirst,
    ← List.singleton_append, walk_append, walk_of_isBlank hblank, walk, List.filterMap_cons, hinner]
  rfl

/-- A path that ends in a name leads there from its directory. -/
theorem normalOf_directory {path text : String} (h : fileName? path = some text) :
    normalOf path = (normalOf (directory path)).follow (.name text) := by
  rw [fileName?_eq_some_iff] at h
  cases hsegments : segments path with
  | nil => exact absurd hsegments (segments_ne_nil path)
  | cons first rest =>
    rw [hsegments] at h
    obtain ⟨blank, hrest, hblank⟩ := exists_of_dropWhile_isBlank rest
    have hnone := filterMap_innerComponent?_of_isBlank hblank
    have hhead := List.head?_dropWhile_not isBlank rest.reverse
    -- the name is the last segment that means something, and the first may be the only such
    cases hdrop : rest.reverse.dropWhile isBlank with
    | nil =>
      rw [hdrop, List.reverse_nil, List.nil_append] at hrest
      subst hrest
      rw [List.filterMap_cons, hnone] at h
      refine normalOf_directory_of_first hsegments hblank ?_
      cases hinner : innerComponent? first <;> simp_all
    | cons last before =>
      rw [hdrop] at hrest hhead
      rw [List.reverse_cons, List.append_assoc, List.singleton_append] at hrest
      rw [hrest] at hsegments h
      have hinner : innerComponent? last = some (.name text) := by
        obtain ⟨component, hcomponent⟩ := exists_innerComponent? hhead
        rw [← List.cons_append, List.filterMap_append, List.filterMap_cons_some hcomponent, hnone,
          List.getLast?_append, List.getLast?_singleton, Option.some_or] at h
        rw [hcomponent, h]
      rw [normalOf_directory_of_segments hsegments hhead hblank, normalOf_eq, hsegments,
        ← List.cons_append, walk_append, walk, List.filterMap_cons, hinner, hnone]
      rfl

/-! ### Normal forms as texts -/

/-- All names of a normal form can stand between slashes. -/
def Normal.IsPlain (path : Normal) : Prop :=
  ∀ name ∈ path.reversed, name ≠ "" ∧ '/' ∉ name.toList

theorem Normal.isPlain_follow {path : Normal} (h : path.IsPlain) {segment : String}
    (hsegment : '/' ∉ segment.toList) {component : Component}
    (hcomponent : innerComponent? segment = some component) :
    (path.follow component).IsPlain := by
  unfold innerComponent? at hcomponent
  split at hcomponent
  next => cases hcomponent
  next hblank =>
    split at hcomponent
    next =>
      obtain rfl := Option.some.inj hcomponent
      intro name hname
      cases hreversed : path.reversed with
      | nil =>
        rw [Normal.follow, hreversed] at hname
        obtain rfl := List.mem_singleton.1 hname
        exact ⟨by decide, by decide⟩
      | cons last before =>
        rw [Normal.follow, hreversed] at hname
        apply h name
        rw [hreversed]
        exact List.mem_cons_of_mem _ hname
    next =>
      obtain rfl := Option.some.inj hcomponent
      intro name hname
      rcases List.mem_cons.1 hname with rfl | hname
      · refine ⟨?_, hsegment⟩
        rintro rfl
        exact hblank rfl
      · exact h name hname

theorem isPlain_walk {start : Normal} (h : start.IsPlain) {list : List String}
    (hlist : ∀ segment ∈ list, '/' ∉ segment.toList) : (walk start list).IsPlain := by
  induction list generalizing start with
  | nil => exact h
  | cons segment list ih =>
    have hrest : ∀ other ∈ list, '/' ∉ other.toList :=
      fun other hother => hlist other (List.mem_cons_of_mem _ hother)
    rw [← List.singleton_append, walk_append]
    apply ih _ hrest
    rw [walk, List.filterMap_cons]
    cases hcomponent : innerComponent? segment with
    | none => exact h
    | some component => exact Normal.isPlain_follow h (hlist _ List.mem_cons_self) hcomponent

theorem isPlain_normalOf (path : String) : (normalOf path).IsPlain := by
  rw [normalOf_eq]
  exact isPlain_walk (fun name hname => absurd hname List.not_mem_nil)
    fun _ => slash_notMem_of_mem_segments

theorem Normal.segments_names {names : List String}
    (h : ∀ name ∈ names, name ≠ "" ∧ '/' ∉ name.toList) :
    (segments ("/".intercalate names)).filter (· ≠ "") = names := by
  by_cases hempty : names = []
  · rw [hempty]
    rfl
  · rw [segments_intercalate hempty fun name hname => (h name hname).2, List.filter_eq_self]
    intro name hname
    simpa using (h name hname).1

theorem Normal.segments_text {path : Normal} (h : path.IsPlain) :
    (segments path.text).filter (· ≠ "") = path.reversed.reverse := by
  have hnames := Normal.segments_names fun name hname => h name (List.mem_reverse.1 hname)
  rw [Normal.text]
  cases path.absolute with
  | false => simpa using hnames
  | true =>
    have hroot := segments_append_slash "" ("/".intercalate path.reversed.reverse)
    rw [String.empty_append] at hroot
    rw [if_pos rfl, hroot, List.filter_append, hnames]
    rfl

theorem Normal.isAbsolute_text {path : Normal} (h : path.IsPlain) :
    isAbsolute path.text = path.absolute := by
  rw [Normal.text]
  cases path.absolute with
  | true => simp [isAbsolute]
  | false =>
    cases hreversed : path.reversed.reverse with
    | nil => rfl
    | cons first rest =>
      have hplain := fun name hname => h name (List.mem_reverse.1 hname)
      rw [hreversed] at hplain
      have hsegments := segments_intercalate (List.cons_ne_nil first rest)
        fun name hname => (hplain name hname).2
      rw [if_neg Bool.false_ne_true, String.empty_append, isAbsolute_eq, hsegments,
        startsAtRoot_of_ne (hplain first List.mem_cons_self).1]

/-- Different normal forms are different texts. -/
theorem normalize_eq_iff {path other : String} :
    normalize path = normalize other ↔ normalOf path = normalOf other := by
  constructor
  · intro h
    have hpath := isPlain_normalOf path
    have hother := isPlain_normalOf other
    have habsolute := Normal.isAbsolute_text hpath
    have hnames := Normal.segments_text hpath
    rw [← normalize_eq, h, normalize_eq] at habsolute hnames
    rw [Normal.isAbsolute_text hother] at habsolute
    rw [Normal.segments_text hother, List.reverse_inj] at hnames
    cases hfirst : normalOf path
    cases hsecond : normalOf other
    simp_all
  · intro h
    rw [normalize_eq, h, normalize_eq]

/-- Two spellings of one path, from whose directories a name leads to the same file. -/
def Respells (path other : String) : Prop :=
  path = other ∨ ∃ first second, fileName? path = some first ∧ fileName? other = some second ∧
    normalize path = normalize other

namespace Respells

variable {path other : String}

theorem refl (path : String) : Respells path path :=
  .inl rfl

theorem normalize_eq (h : Respells path other) : normalize path = normalize other := by
  rcases h with rfl | ⟨_, _, -, -, h⟩
  · rfl
  · exact h

theorem normalize_join (h : Respells path other) (name : String) :
    normalize (join (directory path) name) = normalize (join (directory other) name) := by
  rcases h with rfl | ⟨first, second, hpath, hother, h⟩
  · rfl
  · rw [normalize_eq_iff] at h ⊢
    rw [normalOf_directory hpath, normalOf_directory hother] at h
    have hdirectory : normalOf (directory path) = normalOf (directory other) := by
      obtain ⟨habsolute, hreversed⟩ := Normal.mk.inj h
      cases hfirst : normalOf (directory path)
      cases hsecond : normalOf (directory other)
      simp_all
    rw [normalOf_join, normalOf_join, hdirectory]

end Respells

end Idl.FilePath
