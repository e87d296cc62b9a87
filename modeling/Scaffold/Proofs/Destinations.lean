import Scaffold.Proofs.PathLaws
import Scaffold.Transaction

/-!
# Where artifacts go

A plan announces the path that a commit reaches directory by directory: both
have the same components when the relative path of the artifact is relative.
-/

namespace Scaffold

namespace ProjectTree

theorem isAbsolute_segment (h : name ∈ segments relative) : (Path.mk name).isAbsolute = false := by
  obtain ⟨piece, hp, rfl⟩ := List.mem_map.mp h
  have hs := Text.notMem_of_mem_splitOn (List.mem_filter.mp hp).1
  cases piece with
  | nil => rfl
  | cons c cs => simp_all [Path.isAbsolute, eq_comm]

/-- The segments of a path have its components. -/
theorem added_segments (relative : String) :
    (segments relative).flatMap (fun name => Path.added name.toList) =
      Path.added relative.toList := by
  have hpiece : ∀ piece ∈ Text.splitOn '/' relative.toList,
      Path.added piece = (Path.segmentComponent piece).toList := fun _ h =>
    Path.added_of_notMem (Text.notMem_of_mem_splitOn h)
  simp only [segments, List.flatMap_map, String.toList_ofList]
  rw [Path.added]
  generalize Text.splitOn '/' relative.toList = pieces at hpiece
  induction pieces with
  | nil => rfl
  | cons piece pieces ih =>
    have ih := ih fun p h => hpiece p (List.mem_cons_of_mem _ h)
    have hp := hpiece piece List.mem_cons_self
    by_cases he : piece = []
    · simpa [he, Path.segmentComponent] using ih
    · cases hs : Path.segmentComponent piece <;> simp_all

theorem components_foldl_join {names : List String} (hb : base.spelling ≠ "")
    (hn : ∀ name ∈ names, (Path.mk name).isAbsolute = false) :
    (names.foldl Path.join base).components =
      base.components ++ names.flatMap (fun name => Path.added name.toList) := by
  induction names generalizing base with
  | nil => simp
  | cons name names ih =>
    have hname := hn name List.mem_cons_self
    rw [List.foldl_cons, ih (Path.join_ne_empty hb hname)
      (fun n h => hn n (List.mem_cons_of_mem _ h)), Path.components_join hb hname]
    simp

/-- A relative path that is not empty has its first segment in front. -/
theorem segments_cons (h : (Path.mk relative).isAbsolute = false) (hne : relative ≠ "") :
    ∃ name names, segments relative = name :: names ∧ name ≠ "" ∧
      Path.leadComponents relative.toList = Path.leadComponents name.toList := by
  rw [ne_eq, ← String.toList_eq_nil_iff] at hne
  simp only [Path.isAbsolute, decide_eq_false_iff_not] at h
  unfold segments
  generalize relative.toList = cs at hne h
  cases cs with
  | nil => contradiction
  | cons c cs =>
    obtain ⟨first, rest, ht⟩ := Text.splitOn_eq_cons '/' cs
    have hs := Text.splitOn_cons_of_ne (by simpa using h) ht
    refine ⟨String.ofList (c :: first), (rest.filter (· ≠ [])).map String.ofList, by simp [hs],
      ?_, ?_⟩
    · simp [← String.toList_eq_nil_iff]
    · rw [Path.leadComponents_segment h hs, String.toList_ofList]

/-- Walking down by segments leads where the whole relative path does. -/
theorem components_foldl_segments (h : (Path.mk relative).isAbsolute = false) (base : Path) :
    ((segments relative).foldl Path.join base).components = (base.join relative).components := by
  by_cases hb : base.spelling = ""
  · rw [Path.join_of_empty hb]
    by_cases hr : relative = ""
    · subst hr
      simp [segments, Text.splitOn, Path.components, hb]
    · -- The empty base gives way to the first segment, which alone may be a leading dot.
      obtain ⟨name, names, hs, hname, hlead⟩ := segments_cons h hr
      have hnames : ∀ n ∈ names, (Path.mk n).isAbsolute = false := fun n hn =>
        isAbsolute_segment (hs ▸ List.mem_cons_of_mem _ hn)
      have hadded := added_segments relative
      rw [hs, List.flatMap_cons] at hadded
      rw [hs, List.foldl_cons, Path.join_of_empty hb, components_foldl_join hname hnames,
        Path.components, Path.components, Path.componentsOf_eq, Path.componentsOf_eq, hlead,
        List.append_assoc, hadded]
  · rw [components_foldl_join hb (fun _ => isAbsolute_segment), Path.components_join hb h,
      added_segments]

end ProjectTree

namespace Transaction

open ProjectTree

/-- The file a commit writes: the artifact in the directory reached segment by segment. -/
def destination (base : Path) (a : Artifact) : Path :=
  ((segments a.relativePath).foldl Path.join base).join a.fileName

theorem components_destination (h : (Path.mk a.relativePath).isAbsolute = false) (base : Path) :
    (destination base a).components = (target base a).components := by
  rw [destination, target, place, Path.components_join_join base h]
  exact Path.components_join_congr (components_foldl_segments h base) _

end Transaction

end Scaffold
