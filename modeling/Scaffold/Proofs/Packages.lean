import Mathlib.Data.List.Induction
import Scaffold.Proofs.DiskWrites
import Scaffold.Proofs.MemoryBacked
import Scaffold.Scaffolder

/-!
# Packages and directories

An artifact is declared in the package of the directory that it goes to: the
package of the base directory is counted from the same root as that of every
directory below it, unless a root lies between. A conventional root that was
found from the file of an entity is found from the file of an artifact, too,
since no directory that an artifact goes to is conventional.
-/

namespace Scaffold

/-- The separator stands between the last text of the one list and the first of the other. -/
theorem Text.intercalate_append {separator : String} {as bs : List String} (ha : as ≠ [])
    (hb : bs ≠ []) : separator.intercalate (as ++ bs) =
      separator.intercalate as ++ separator ++ separator.intercalate bs := by
  obtain ⟨b, bs, rfl⟩ := List.exists_cons_of_ne_nil hb
  induction as with
  | nil => exact absurd rfl ha
  | cons a as ih =>
    cases as with
    | nil => simp
    | cons a' as =>
      have ih := ih (by simp)
      simp only [← String.toList_inj, String.toList_append, String.toList_intercalate,
        List.map_append, List.map_cons, List.cons_append, List.intercalate_cons_cons] at ih ⊢
      simp only [ih, List.append_assoc]

theorem Text.splitOn_intercalate {sep : Char} {pieces : List (List Char)} (hne : pieces ≠ [])
    (h : ∀ piece ∈ pieces, sep ∉ piece) : splitOn sep ([sep].intercalate pieces) = pieces := by
  induction pieces with
  | nil => exact absurd rfl hne
  | cons piece pieces ih =>
    have hpiece := splitOn_of_notMem (h piece List.mem_cons_self)
    cases pieces with
    | nil => simpa [List.intercalate] using hpiece
    | cons next pieces =>
      rw [List.intercalate_cons_cons, List.append_assoc, List.singleton_append, splitOn_append,
        hpiece, ih (by simp) fun q hq => h q (List.mem_cons_of_mem _ hq)]
      rfl

theorem Component.map_spelling_normal (names : List String) :
    (names.map Component.normal).map Component.spelling = names := by
  rw [List.map_map, show Component.spelling ∘ Component.normal = id from rfl, List.map_id]

namespace Path

-- ---------------------------------------------------------------------------
-- Paths above a path
-- ---------------------------------------------------------------------------

variable {p : Path}

theorem filterMap_takeSegments (count : Nat) (segments : List (List Char)) :
    (takeSegments count segments).filterMap segmentComponent =
      (segments.filterMap segmentComponent).take count := by
  induction segments generalizing count with
  | nil => cases count <;> simp [takeSegments]
  | cons segment segments ih =>
    cases count with
    | zero => simp [takeSegments]
    | succ count =>
      cases hs : segmentComponent segment with
      | none =>
        simp only [takeSegments, hs]
        rw [List.filterMap_cons_none hs, List.filterMap_cons_none hs, ih]
      | some c =>
        simp only [takeSegments, hs]
        rw [List.filterMap_cons_some hs, List.filterMap_cons_some hs, ih, List.take_succ_cons]

theorem subset_takeSegments (count : Nat) (segments : List (List Char)) :
    takeSegments count segments ⊆ segments := by
  induction segments generalizing count with
  | nil => cases count <;> simp [takeSegments]
  | cons segment segments ih =>
    cases count with
    | zero => simp [takeSegments]
    | succ count =>
      cases hs : segmentComponent segment with
      | none => simpa only [takeSegments, hs] using List.cons_subset_cons _ (ih _)
      | some c => simpa only [takeSegments, hs] using List.cons_subset_cons _ (ih _)

theorem takeSegments_cons (count : Nat) (segment : List Char) (segments : List (List Char)) :
    ∃ more, takeSegments (count + 1) (segment :: segments) = segment :: more := by
  cases hs : segmentComponent segment with
  | none => exact ⟨_, by rw [takeSegments, hs]⟩
  | some c => exact ⟨_, by rw [takeSegments, hs]⟩

/-- Segments without slashes, written with slashes between them, add their components. -/
theorem added_intercalate {segments : List (List Char)} (h : ∀ segment ∈ segments, '/' ∉ segment) :
    added (['/'].intercalate segments) = segments.filterMap segmentComponent := by
  by_cases hs : segments = []
  · simp [hs, List.intercalate]
  · rw [added, Text.splitOn_intercalate hs h]

theorem leadComponents_intercalate {segment : List Char} (h : segment ≠ [])
    (segments : List (List Char)) :
    leadComponents (['/'].intercalate (segment :: segments)) = leadComponents segment := by
  cases segments with
  | nil => simp [List.intercalate]
  | cons next segments =>
    rw [List.intercalate_cons_cons, List.append_assoc, List.singleton_append,
      leadComponents_slash _ h]

/-- A path that starts with a component of its own has one segment for it. -/
theorem leading_cases {cs : List Char} (h : leadComponents cs ≠ []) :
    (∃ second rest, leadComponents cs = [.root] ∧ Text.splitOn '/' cs = [] :: second :: rest) ∨
      ∃ rest, leadComponents cs = [.current] ∧ Text.splitOn '/' cs = ['.'] :: rest := by
  unfold leadComponents at h ⊢
  split at h
  · next cs =>
    obtain ⟨second, rest, hs⟩ := Text.splitOn_eq_cons '/' cs
    exact .inl ⟨second, rest, rfl, by simp [Text.splitOn, hs]⟩
  · exact .inr ⟨[], rfl, rfl⟩
  · exact .inr ⟨_, rfl, by simp [Text.splitOn]; rfl⟩
  · simp at h

/-- A path without such a component starts with a segment, or it is empty. -/
theorem first_segment {cs first : List Char} {rest : List (List Char)}
    (hl : leadComponents cs = []) (hs : Text.splitOn '/' cs = first :: rest) :
    leadComponents first = [] ∧ (first = [] → rest = []) := by
  cases cs with
  | nil =>
    simp only [Text.splitOn, List.cons.injEq] at hs
    obtain ⟨rfl, rfl⟩ := hs
    exact ⟨rfl, fun _ => rfl⟩
  | cons c cs =>
    have hc : c ≠ '/' := by
      rintro rfl
      simp [leadComponents] at hl
    refine ⟨(leadComponents_segment (by simpa using hc) hs).symm.trans hl, ?_⟩
    rintro rfl
    obtain ⟨piece, pieces, ht⟩ := Text.splitOn_eq_cons '/' cs
    rw [Text.splitOn_cons_of_ne hc ht] at hs
    simp at hs

theorem leadComponents_takeSegments {cs : List Char} (hl : leadComponents cs = []) (count : Nat) :
    leadComponents (['/'].intercalate (takeSegments count (Text.splitOn '/' cs))) = [] := by
  obtain ⟨first, rest, hs⟩ := Text.splitOn_eq_cons '/' cs
  obtain ⟨hlead, hempty⟩ := first_segment hl hs
  rw [hs]
  cases count with
  | zero => simp [takeSegments, List.intercalate, leadComponents]
  | succ count =>
    by_cases hf : first = []
    · rw [hf, hempty hf]
      simp [takeSegments, segmentComponent, List.intercalate, leadComponents]
    · obtain ⟨more, hm⟩ := takeSegments_cons count first rest
      rw [hm, leadComponents_intercalate hf, hlead]

/-- The beginning of a path that ends with the last of so many components has just these. -/
theorem components_upTo (p : Path) (count : Nat) :
    (p.upTo count).components = p.components.take count := by
  have hslash : ∀ segment ∈ Text.splitOn '/' p.spelling.toList, '/' ∉ segment :=
    fun _ h => Text.notMem_of_mem_splitOn h
  have htaken {segments : List (List Char)} (h : ∀ segment ∈ segments, '/' ∉ segment) (n : Nat) :
      added (['/'].intercalate (takeSegments n segments)) =
        (segments.filterMap segmentComponent).take n := by
    rw [added_intercalate fun s hs => h s (subset_takeSegments n segments hs),
      filterMap_takeSegments]
  rw [components, components, componentsOf_eq p.spelling.toList, added]
  cases count with
  | zero => simp [upTo, componentsOf, leadComponents, Text.splitOn, segmentComponent]
  | succ count =>
    by_cases hl : leadComponents p.spelling.toList = []
    · have hupTo : (p.upTo (count + 1)).spelling.toList =
          ['/'].intercalate (takeSegments (count + 1) (Text.splitOn '/' p.spelling.toList)) := by
        simp [upTo, hl]
      rw [hupTo, componentsOf_eq, leadComponents_takeSegments hl, htaken hslash, hl]
      rfl
    · obtain ⟨second, rest, hlead, hs⟩ | ⟨rest, hlead, hs⟩ := leading_cases hl
      · rw [hs] at hslash ⊢
        rw [hlead]
        cases count with
        | zero =>
          have hupTo : (p.upTo 1).spelling.toList = ['/'] := by simp [upTo, hlead]
          rw [hupTo]
          simp [componentsOf, leadComponents, Text.splitOn, segmentComponent]
        | succ count =>
          have hupTo : (p.upTo (count + 2)).spelling.toList =
              '/' :: ['/'].intercalate (takeSegments (count + 1) (second :: rest)) := by
            obtain ⟨more, hm⟩ := takeSegments_cons count second rest
            simp [upTo, hlead, hs, hm, List.intercalate_cons_cons]
          have hadded := added_slash [] (['/'].intercalate (takeSegments (count + 1) (second :: rest)))
          rw [List.nil_append] at hadded
          rw [hupTo, componentsOf_eq, hadded, htaken (List.forall_mem_cons.mp hslash).2]
          simp [leadComponents, segmentComponent]
      · rw [hs] at hslash ⊢
        have hupTo : (p.upTo (count + 1)).spelling.toList =
            ['/'].intercalate (['.'] :: takeSegments count rest) := by
          simp [upTo, hlead, hs]
        have hdot : ∀ segment ∈ ['.'] :: takeSegments count rest, '/' ∉ segment :=
          List.forall_mem_cons.mpr ⟨by decide, fun s h =>
            hslash s (List.mem_cons_of_mem _ (subset_takeSegments count rest h))⟩
        rw [hupTo, componentsOf_eq, leadComponents_intercalate (by decide), added_intercalate hdot,
          List.filterMap_cons_none (by rfl), List.filterMap_cons_none (by rfl),
          filterMap_takeSegments, hlead]
        rfl

theorem components_parent {q : Path} (h : p.parent? = some q) :
    ∃ c, p.components = q.components ++ [c] ∧ c ≠ .root := by
  unfold parent? at h
  split at h
  · simp at h
  · simp at h
  · next c hroot hlast =>
    obtain ⟨front, hf⟩ := List.getLast?_eq_some_iff.mp hlast
    refine ⟨c, ?_, hroot⟩
    obtain rfl : p.upTo (p.components.length - 1) = q := by simpa using h
    rw [components_upTo, hf]
    simp

theorem parent_of_components {front : List Component} {c : Component}
    (h : p.components = front ++ [c]) (hc : c ≠ .root) :
    ∃ q, p.parent? = some q ∧ q.components = front := by
  refine ⟨p.upTo (p.components.length - 1), ?_, by simp [components_upTo, h]⟩
  have hlast : p.components.getLast? = some c := by simp [h]
  unfold parent?
  split <;> simp_all

/-- The path leads strictly below the directory. -/
def Below (p directory : Path) : Prop :=
  directory.components <+: p.components ∧ directory.components ≠ p.components

instance (p directory : Path) : Decidable (p.Below directory) :=
  inferInstanceAs (Decidable (_ ∧ _))

end Path

namespace SourceRoots

open Scaffold.Path

variable {roots roots' : SourceRoots} {base directory file root : Path}

-- ---------------------------------------------------------------------------
-- Packages
-- ---------------------------------------------------------------------------

theorem longest_mem {α : Type} {l : List α} {ls : List (List α)} (h : longest? ls = some l) :
    l ∈ ls := by
  induction ls generalizing l with
  | nil => cases h
  | cons first ls ih =>
    rw [longest?] at h
    split at h
    · simp_all
    · next m hm =>
      split at h
      · simp_all
      · obtain rfl : m = l := by simpa using h
        exact List.mem_cons_of_mem _ (ih hm)

theorem longest_isSome {α : Type} {l : List α} {ls : List (List α)} (h : l ∈ ls) :
    ∃ m, longest? ls = some m := by
  cases ls with
  | nil => cases h
  | cons first ls =>
    rw [longest?]
    split
    · exact ⟨_, rfl⟩
    · split <;> exact ⟨_, rfl⟩

/-- The package of a directory depends on the components of the paths alone. -/
theorem packageName_congr (hroots : roots.roots.map components = roots'.roots.map components)
    (h : base.components = directory.components) :
    roots.packageName base = roots'.packageName directory := by
  simp only [packageName, enclosing, hroots, h]

/-- Where no root is at or below a directory, the directories below it are in the packages below
its own. -/
theorem packageName_below {names : List String} (hroot : root ∈ roots.roots)
    (hbelow : root.components <+: base.components)
    (hnone : ∀ r ∈ roots.roots, ¬ base.components <+: r.components) (hnames : names ≠ [])
    (h : directory.components = base.components ++ names.map .normal) :
    roots.packageName directory = roots.packageName base ++ "." ++ ".".intercalate names := by
  have henclosing : roots.enclosing directory = roots.enclosing base := by
    refine List.filter_congr fun cs hcs => ?_
    obtain ⟨r, hr, rfl⟩ := List.mem_map.mp hcs
    have hiff : r.components <+: directory.components ↔ r.components <+: base.components := by
      constructor
      · intro hd
        rw [h] at hd
        exact (List.prefix_or_prefix_of_prefix hd (List.prefix_append ..)).resolve_right
          (hnone r hr)
      · intro hb
        rw [h]
        exact hb.trans (List.prefix_append ..)
    simpa using hiff
  obtain ⟨cs, hcs⟩ : ∃ cs, longest? (roots.enclosing base) = some cs := longest_isSome
    (List.mem_filter.mpr ⟨List.mem_map_of_mem hroot, by simpa using hbelow⟩)
  obtain ⟨hmem, hlead⟩ := List.mem_filter.mp (longest_mem hcs)
  obtain ⟨r, hr, rfl⟩ := List.mem_map.mp hmem
  obtain ⟨rest, hrest⟩ : r.components <+: base.components := by simpa using hlead
  have hne : rest ≠ [] := by
    rintro rfl
    exact hnone r hr (by simp [← hrest])
  rw [packageName, packageName, henclosing, hcs]
  simp only [h, ← hrest, List.append_assoc, List.drop_left, List.map_append]
  rw [Text.intercalate_append (by simpa using hne) (by simpa using hnames),
    Component.map_spelling_normal]

-- ---------------------------------------------------------------------------
-- Detected roots
-- ---------------------------------------------------------------------------

/-- What is conventional about a directory is told by its components. -/
def conventionalComponents (cs : List Component) : Bool :=
  conventional.any (· <:+ cs)

/-- The components of the nearest conventional directory above a path. -/
def nearest? (cs : List Component) : Option (List Component) :=
  ((List.range cs.length).reverse.map cs.take).find? conventionalComponents

theorem nearest_append (cs : List Component) (c : Component) :
    nearest? (cs ++ [c]) = if conventionalComponents cs then some cs else nearest? cs := by
  have htake : (List.range cs.length).reverse.map (cs ++ [c]).take =
      (List.range cs.length).reverse.map cs.take := by
    refine List.map_congr_left fun n hn => ?_
    have : n < cs.length := by simpa using hn
    rw [List.take_append_of_le_length (by omega)]
  rw [nearest?, List.length_append, List.length_singleton, List.range_succ, List.reverse_append,
    List.map_append, htake]
  cases h : conventionalComponents cs <;> simp [h, nearest?]

theorem detect_eq_nearest (file : Path) :
    (detect file).roots.map components = (nearest? file.components).toList := by
  have hconventional (count : Nat) : isConventional (file.upTo count) =
      conventionalComponents (file.components.take count) := by
    rw [isConventional, components_upTo, conventionalComponents]
  -- The empty beginning, which is left out of an absolute path, is not conventional.
  have hfound : file.ancestors.tail.find? isConventional =
      ((List.range file.components.length).reverse.find? fun count =>
        conventionalComponents (file.components.take count)).map file.upTo := by
    rw [ancestors, List.tail_cons, ← List.filter_reverse, List.find?_map, List.find?_filter]
    congr 2
    funext count
    cases count with
    | zero =>
      have hempty : conventionalComponents [] = false := by decide
      simp [hconventional, hempty]
    | succ count => simp [hconventional]
  rw [detect, nearest?, hfound, List.find?_map]
  cases hn : (List.range file.components.length).reverse.find?
      (conventionalComponents ∘ file.components.take) with
  | none =>
    have : (List.range file.components.length).reverse.find? (fun count =>
      conventionalComponents (file.components.take count)) = none := hn
    simp [this]
  | some count =>
    have : (List.range file.components.length).reverse.find? (fun count =>
      conventionalComponents (file.components.take count)) = some count := hn
    simp [this, components_upTo]

theorem conventional_last {cs : List Component} {name : String}
    (h : conventionalComponents (cs ++ [.normal name]) = true) :
    name ∈ ["java", "kotlin", "src"] := by
  have hends : ∀ l ∈ conventional, ∃ n ∈ ["java", "kotlin", "src"],
      l.getLast? = some (.normal n) := by decide
  obtain ⟨l, hl, hsuffix⟩ := List.any_eq_true.mp h
  obtain ⟨n, hn, hlast⟩ := hends l hl
  obtain ⟨front, hf⟩ : l <:+ cs ++ [.normal name] := by simpa using hsuffix
  have hwhole := congrArg List.getLast? hf
  rw [List.getLast?_append, hlast] at hwhole
  have : n = name := by simpa using hwhole
  exact this ▸ hn

/-- Directories that are not conventional are passed over. -/
theorem nearest_names {names : List String}
    (h : ∀ name ∈ names, name ∉ ["java", "kotlin", "src"]) (cs : List Component) (c : Component) :
    nearest? (cs ++ names.map .normal ++ [c]) = nearest? (cs ++ [c]) := by
  induction names using List.reverseRecOn generalizing c with
  | nil => simp
  | append_singleton names name ih =>
    have hname : conventionalComponents (cs ++ (names ++ [name]).map .normal) = false := by
      rw [List.map_append, ← List.append_assoc, Bool.eq_false_iff]
      exact fun hc => h name (by simp) (conventional_last hc)
    rw [nearest_append, hname, if_neg (by simp), List.map_append, ← List.append_assoc]
    change nearest? (cs ++ names.map .normal ++ [.normal name]) = _
    rw [ih (fun n hn => h n (List.mem_append_left _ hn)), nearest_append, nearest_append]

end SourceRoots

namespace Kind

theorem unconventional_place (k : Kind) : ∀ name ∈ k.place, name ∉ ["java", "kotlin", "src"] := by
  cases k <;> decide

theorem place_ne_nil (k : Kind) : k.place ≠ [] := by
  cases k <;> decide

end Kind

-- ---------------------------------------------------------------------------
-- The directories of artifacts
-- ---------------------------------------------------------------------------

/-- A tree whose subdirectories are named by their directory and their name. -/
class NamesByPath (σ : Type) [ProjectTree σ] : Prop where
  found {tree : σ} {directory path : Path} {name : String} :
    ProjectTree.findSubdirectory tree directory name = some path → path = directory.join name
  created {tree tree' : σ} {directory path : Path} {name : String} :
    ProjectTree.createSubdirectory tree directory name = (.ok path, tree') →
      path = directory.join name

instance : NamesByPath MemoryTree where
  found h := by
    simp only [ProjectTree.findSubdirectory, Option.ite_none_right_eq_some, Option.some.injEq] at h
    exact h.2.symm
  created h := by
    simp only [ProjectTree.createSubdirectory, Prod.mk.injEq, Except.ok.injEq] at h
    exact h.1.symm

instance : NamesByPath Disk where
  found h := by
    simp only [ProjectTree.findSubdirectory, Option.ite_none_right_eq_some, Option.some.injEq] at h
    exact h.2.symm
  created h := by
    simp only [ProjectTree.createSubdirectory] at h
    split at h
    · simp only [Prod.mk.injEq, Except.ok.injEq] at h
      exact h.1.symm
    · simp at h

instance {σ : Type} [ProjectTree σ] [NamesByPath σ] : NamesByPath (FaultyTree σ) where
  found h := NamesByPath.found (σ := σ) h
  created h := by
    simp only [ProjectTree.createSubdirectory] at h
    split at h
    · simp at h
    · simp only [Prod.mk.injEq] at h
      exact NamesByPath.created (σ := σ) (Prod.ext h.1 rfl)

namespace ProjectTree

theorem descend_names {σ : Type} [ProjectTree σ] [NamesByPath σ] {tree tree' : σ}
    {base directory : Path} {names : List String}
    (h : descend tree base names = (.ok directory, tree')) :
    directory = names.foldl Path.join base := by
  induction names generalizing tree base with
  | nil => simp_all [descend]
  | cons name names ih =>
    rw [descend] at h
    rw [List.foldl_cons]
    split at h
    · next found hf => rw [← NamesByPath.found hf, ih h]
    · split at h
      · next created middle hc => rw [← NamesByPath.created hc, ih h]
      · simp at h

end ProjectTree

namespace Scaffolder

open ProjectTree Scaffold.Path SourceRoots

variable {settings : Settings} {file base root : Path} {roots : SourceRoots} {e : Entity}
  {k : Kind}

/-- Where the base directory is and what package it has. -/
theorem context_ofFile (hbase : (Context.ofFile file roots).baseDirectory = some base) :
    (Context.ofFile file roots).basePackage = roots.packageName base ∧
      ∃ above name, file.components = base.components ++ [above, name] := by
  obtain ⟨parent, hparent, hgrandparent⟩ := Option.bind_eq_some_iff.mp hbase
  obtain ⟨name, hfile, -⟩ := components_parent hparent
  obtain ⟨above, habove, -⟩ := components_parent hgrandparent
  refine ⟨?_, above, name, by rw [hfile, habove, List.append_assoc]; rfl⟩
  simp only [Context.ofFile] at hbase ⊢
  rw [hbase, packageName?]

/-- The root detected from a file is detected from everything else in the base directory, too. -/
theorem nearest_of_detect {above name c : Component}
    (hfile : file.components = base.components ++ [above, name])
    (hroot : root ∈ (detect file).roots) (hbelow : base.Below root) :
    nearest? (base.components ++ [c]) = nearest? file.components := by
  obtain ⟨hlead, hne⟩ := hbelow
  have hdetected : nearest? file.components = some root.components := by
    have hmem := List.mem_map_of_mem (f := components) hroot
    simpa [detect_eq_nearest] using hmem
  have hwhole : base.components ++ [above, name] = base.components ++ [above] ++ [name] := by simp
  have habove : conventionalComponents (base.components ++ [above]) = false := by
    by_contra h
    rw [hfile, hwhole, nearest_append, if_pos (by simpa using h), Option.some_inj] at hdetected
    have := hlead.length_le
    rw [← hdetected, List.length_append, List.length_singleton] at this
    omega
  have hbase : conventionalComponents base.components = false := by
    by_contra h
    rw [hfile, hwhole, nearest_append, habove, if_neg (by simp), nearest_append,
      if_pos (by simpa using h), Option.some_inj] at hdetected
    exact hne hdetected.symm
  rw [hfile, hwhole, nearest_append, nearest_append, nearest_append, habove, hbase]
  simp

/-- Each artifact is declared in the package of the directory that it goes to, which a tree in
memory always makes, when the base directory lies strictly below a root and no root is at or below
it. A root that was detected is detected from the artifact's file, too, with the same package. -/
theorem packages_match_directories {σ : Type} [ProjectTree σ] [NamesByPath σ]
    (hroots : rootsFor settings file = roots)
    (hbase : (Context.ofFile file roots).baseDirectory = some base)
    (hroot : root ∈ roots.roots) (hbelow : base.Below root)
    (hnone : ∀ r ∈ roots.roots, ¬ r.Below base)
    (hapart : ∀ r ∈ roots.roots, r.components ≠ base.components) (hname : IsName e.name) :
    ∀ a ∈ Artifact.generateAll e (Context.ofFile file roots),
      (∀ tree : MemoryTree, ∃ directory tree',
        ensureSubdirectories tree base a.relativePath = (.ok directory, tree')) ∧
      (∀ (tree tree' : σ) (directory : Path),
        ensureSubdirectories tree base a.relativePath = (.ok directory, tree') →
          roots.packageName directory = a.package) ∧
      (settings.roots = none →
        (detect (Transaction.target base a)).roots.map components = roots.roots.map components ∧
        (detect (Transaction.target base a)).packageName? (Transaction.target base a).parent? =
          a.package) := by
  intro a ha
  obtain ⟨k, -, rfl⟩ := List.mem_map.mp ha
  obtain ⟨hpackage, above, name, hfile⟩ := context_ofFile hbase
  have hnone' : ∀ r ∈ roots.roots, ¬ base.components <+: r.components := fun r hr hlead =>
    hnone r hr ⟨hlead, (hapart r hr).symm⟩
  have hdirectory {directory : Path}
      (h : directory.components = base.components ++ k.place.map .normal) :
      roots.packageName directory = (Artifact.ofKind e (Context.ofFile file roots) k).package := by
    rw [packageName_below hroot hbelow.1 hnone' k.place_ne_nil h, Artifact.ofKind,
      Context.packageOf, hpackage, Kind.subpackage]
  have hslash := hname.slashFree
  have htarget : (Transaction.target base (.ofKind e (Context.ofFile file roots) k)).components =
      base.components ++ k.place.map .normal ++ [.normal (k.fileName e.name)] := by
    rw [← Transaction.destination_eq_target hslash, Transaction.destination_ofKind,
      (k.isName_fileName hslash).components_join, components_foldl_names k.isName_place]
  refine ⟨fun tree => ?_, fun tree tree' directory h => ?_, fun hdetected => ?_⟩
  · exact ⟨_, _, Prod.ext (MemoryTree.descend_fst tree base _) rfl⟩
  · rw [ensureSubdirectories, Transaction.segments_ofKind] at h
    exact hdirectory (by rw [descend_names h, components_foldl_names k.isName_place])
  · obtain rfl : roots = detect file := by rw [← hroots, rootsFor, hdetected, Option.getD_none]
    have hsame : (detect (Transaction.target base
        (.ofKind e (Context.ofFile file (detect file)) k))).roots.map components =
          (detect file).roots.map components := by
      rw [detect_eq_nearest, detect_eq_nearest, htarget, nearest_names k.unconventional_place,
        nearest_of_detect hfile hroot hbelow]
    obtain ⟨directory, hparent, hcomponents⟩ := parent_of_components htarget (by simp)
    refine ⟨hsame, ?_⟩
    rw [hparent, packageName?, packageName_congr hsame rfl]
    exact hdirectory hcomponents

/-- The request of an entity below a detected root is in the package of its directory. -/
theorem packages_match_directories_of_order :
    ∃ directory tree',
      ensureSubdirectories ({} : MemoryTree) ⟨"/p/src/main/java/com"⟩ "web/model" =
        (.ok directory, tree') ∧
      (detect ⟨"/p/src/main/java/com/domain/Order.java"⟩).packageName directory =
        "com.web.model" ∧
      (detect ⟨"/p/src/main/java/com/web/model/OrderRequest.java"⟩).packageName?
        (Path.mk "/p/src/main/java/com/web/model/OrderRequest.java").parent? = "com.web.model" := by
  let file : Path := ⟨"/p/src/main/java/com/domain/Order.java"⟩
  let order : Entity := ⟨"Order", "com.domain.Order", [], .java⟩
  let base : Path := ⟨"/p/src/main/java/com"⟩
  let root : Path := ⟨"/p/src/main/java"⟩
  have hroots : rootsFor {} file = detect file := rfl
  have hbase : (Context.ofFile file (detect file)).baseDirectory = some base := by decide +kernel
  have hbelow : base.Below root := by decide +kernel
  have hname : IsName order.name := by decide +kernel
  obtain ⟨hmade, hpackage, hagain⟩ := packages_match_directories (σ := MemoryTree) hroots hbase
    (by decide +kernel) hbelow (by decide +kernel) (by decide +kernel) hname
    (.ofKind order (Context.ofFile file (detect file)) .request)
    (List.mem_map_of_mem (by decide))
  obtain ⟨directory, tree', hd⟩ := hmade {}
  have hdeclared : (Artifact.ofKind order (Context.ofFile file (detect file)) .request).package =
      "com.web.model" := by decide +kernel
  have htarget : Transaction.target ⟨"/p/src/main/java/com"⟩
      (.ofKind order (Context.ofFile file (detect file)) .request) =
        ⟨"/p/src/main/java/com/web/model/OrderRequest.java"⟩ := by decide +kernel
  have hagain := (hagain rfl).2
  rw [htarget, hdeclared] at hagain
  exact ⟨directory, tree', hd, (hpackage _ _ _ hd).trans hdeclared, hagain⟩

/-- Where the base directory is itself a root below another one, its own package is empty, and an
artifact is not declared in the package of its directory. -/
theorem root_at_base_splits_package :
    ∃ (settings : Settings) (file base root : Path) (e : Entity),
      (Context.ofFile file (rootsFor settings file)).baseDirectory = some base ∧
      root ∈ (rootsFor settings file).roots ∧ base.Below root ∧
      (∀ r ∈ (rootsFor settings file).roots, ¬ r.Below base) ∧ IsName e.name ∧
      ∃ a ∈ Artifact.generateAll e (Context.ofFile file (rootsFor settings file)),
        ∃ directory tree',
          ensureSubdirectories ({} : MemoryTree) base a.relativePath = (.ok directory, tree') ∧
          (rootsFor settings file).packageName directory ≠ a.package := by
  let file : Path := ⟨"/p/src/com/app/domain/Order.java"⟩
  let roots : SourceRoots := ⟨[⟨"/p/src"⟩, ⟨"/p/src/com/app"⟩]⟩
  let order : Entity := ⟨"Order", "com.app.domain.Order", [], .java⟩
  exact ⟨{ roots := some roots }, file, ⟨"/p/src/com/app"⟩, ⟨"/p/src"⟩, order,
    by decide +kernel, by decide +kernel, by decide +kernel, by decide +kernel, by decide +kernel,
    .ofKind order (Context.ofFile file roots) .mapper, List.mem_map_of_mem (by decide),
    ⟨"/p/src/com/app/mapper"⟩, _, Prod.ext (by decide +kernel) rfl, by decide +kernel⟩

end Scaffolder

end Scaffold
