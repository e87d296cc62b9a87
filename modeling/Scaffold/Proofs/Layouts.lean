import Scaffold.Proofs.DeepestRoots
import Scaffold.Proofs.Respellings

/-!
# Conventional layouts

A file that lies in packages below a conventional directory is counted from
that directory: no directory further down is conventional, since each
conventional path starts with `src` and no package is called that. Only where
`src` alone is the root could the first two packages complete a longer one.
-/

namespace Scaffold

namespace SourceRoots

open Scaffold.Path

/-- Where a project conventionally keeps its sources. -/
def layouts : List String :=
  ["src/main/java", "src/main/kotlin", "src/test/java", "src/test/kotlin", "src"]

/-- The packages start like the rest of a longer conventional path behind `src`. -/
def NestsLanguage (names : List String) : Prop :=
  ∃ set ∈ ["main", "test"], ∃ language ∈ ["java", "kotlin"], [set, language] <+: names

instance (names : List String) : Decidable (NestsLanguage names) :=
  inferInstanceAs (Decidable (∃ set ∈ _, ∃ language ∈ _, _))

variable {cs : List Component} {layout : List Component} {names : List String}

-- ---------------------------------------------------------------------------
-- Conventional paths
-- ---------------------------------------------------------------------------

theorem conventional_eq : conventional = layouts.map fun layout => (Path.mk layout).components := by
  decide +kernel

theorem src_mem_of_conventional (h : layout ∈ conventional) : .normal "src" ∈ layout := by
  revert layout
  decide

theorem conventional_ne_nil (h : layout ∈ conventional) : layout ≠ [] :=
  List.ne_nil_of_mem (src_mem_of_conventional h)

theorem getLast_of_conventional (h : layout ∈ conventional) :
    layout = [.normal "src"] ∨
      layout.getLast? ∈ [some (.normal "java"), some (.normal "kotlin")] := by
  revert layout
  decide

/-- A beginning of a conventional path ends as none does, unless it is `src`, behind which a
language in a source set follows. -/
theorem take_of_conventional (h : layout ∈ conventional) :
    ∀ n < layout.length, n ≠ 0 →
      (layout.take n).getLast? ∈ [some (.normal "main"), some (.normal "test")] ∨
      layout.take n = [.normal "src"] ∧ ∃ set ∈ ["main", "test"], ∃ language ∈ ["java", "kotlin"],
        layout.drop n = [set, language].map .normal := by
  revert layout
  decide

theorem conventional_append (cs : List Component) (h : layout ∈ conventional) :
    conventionalComponents (cs ++ layout) = true :=
  List.any_eq_true.mpr ⟨layout, h, by simp⟩

/-- No directory that packages below a conventional one lead to is conventional. -/
theorem unconventional_below (h : layout ∈ conventional) (hne : names ≠ []) (hsrc : "src" ∉ names)
    (hnests : layout = [.normal "src"] → ¬ NestsLanguage names) :
    conventionalComponents (cs ++ layout ++ names.map .normal) = false := by
  rw [Bool.eq_false_iff]
  intro hconventional
  obtain ⟨l, hl, hsuffix⟩ := List.any_eq_true.mp hconventional
  obtain ⟨front, hf⟩ : l <:+ cs ++ layout ++ names.map .normal := by simpa using hsuffix
  have hsrc' : .normal "src" ∉ names.map Component.normal := by simpa using hsrc
  obtain ⟨start, hstart, rfl⟩ | ⟨rest, -, hrest⟩ := List.append_eq_append_iff.mp hf
  · -- The conventional path starts in or above the layout, and the packages are its end.
    have hne' : start ≠ [] := by
      rintro rfl
      exact hsrc' (src_mem_of_conventional hl)
    have hlast : layout.getLast? = start.getLast? := by
      have := congrArg List.getLast? hstart
      rwa [List.getLast?_append_of_ne_nil _ (conventional_ne_nil h),
        List.getLast?_append_of_ne_nil _ hne'] at this
    have hsplit := take_of_conventional hl start.length (by simpa [List.length_pos_iff] using hne)
      (by simpa using hne')
    rw [List.take_left, List.drop_left] at hsplit
    rcases getLast_of_conventional h with rfl | hlanguage
    · obtain hset | ⟨-, set, hset, language, hlanguage, hnames⟩ := hsplit
      · simp [← hlast] at hset
      · obtain rfl := List.map_injective_iff.mpr (fun _ _ => Component.normal.inj) hnames
        exact hnests rfl ⟨set, hset, language, hlanguage, List.prefix_rfl⟩
    · rw [hlast] at hlanguage
      obtain hset | ⟨rfl, -⟩ := hsplit
      · simp only [List.mem_cons, List.not_mem_nil, or_false] at hset hlanguage
        rcases hset with hset | hset <;> simp [hset] at hlanguage
      · simp at hlanguage
  · exact hsrc' (hrest ▸ List.mem_append_right _ (src_mem_of_conventional hl))

-- ---------------------------------------------------------------------------
-- Detected roots
-- ---------------------------------------------------------------------------

/-- From wherever packages below a conventional directory lead, it is the nearest one. -/
theorem nearest_below (h : layout ∈ conventional) (hsrc : "src" ∉ names)
    (hnests : layout = [.normal "src"] → ¬ NestsLanguage names) (c : Component) :
    nearest? (cs ++ layout ++ names.map .normal ++ [c]) = some (cs ++ layout) := by
  induction names using List.reverseRecOn generalizing c with
  | nil => rw [List.map_nil, List.append_nil, nearest_append, if_pos (conventional_append cs h)]
  | append_singleton names name ih =>
    rw [nearest_append, unconventional_below h (by simp) hsrc hnests, if_neg (by simp),
      List.map_append, ← List.append_assoc]
    refine ih (fun hmem => hsrc (List.mem_append_left _ hmem)) (fun hl hn => hnests hl ?_) _
    obtain ⟨set, hset, language, hlanguage, hlead⟩ := hn
    exact ⟨set, hset, language, hlanguage, hlead.trans (List.prefix_append ..)⟩

theorem detect_eq_nil (file : Path) :
    (detect file).roots = [] ↔ ∀ ancestor ∈ file.ancestors.tail, ∀ layout ∈ layouts,
      ¬ (Path.mk layout).components <:+ ancestor.components := by
  simp [detect, isConventional, conventional_eq]

theorem components_join_layout {layout : String} (h : layout ∈ layouts) (project : Path) :
    (project.join layout).components = project.components ++ (Path.mk layout).components := by
  have hnames : ∀ layout ∈ layouts, (Path.mk layout).isAbsolute = false ∧
      (∀ name ∈ ProjectTree.segments layout, IsName name) ∧
      (ProjectTree.segments layout).map .normal = (Path.mk layout).components := by
    decide +kernel
  obtain ⟨hrelative, hname, hcomponents⟩ := hnames layout h
  rw [← ProjectTree.components_foldl_segments hrelative, components_foldl_names hname, hcomponents]

/-- A file in packages below a conventional directory is counted from this directory, under which
its own directory has the package that the names spell, however the paths are spelled and whatever
the conventional directory lies in. No root is found exactly if no directory above the file ends
like a conventional one. -/
theorem detect_inverts_layouts :
    (∀ (project file : Path) (layout name : String) (names : List String), layout ∈ layouts →
      (∀ n ∈ names, IsName n ∧ n ≠ "src") → IsName name →
      (layout = "src" → ¬ NestsLanguage names) →
      file.Respells ((names.foldl Path.join (project.join layout)).join name) →
        (detect file).Respells ⟨[project.join layout]⟩ ∧
        ∀ directory : Path, directory.Respells (names.foldl Path.join (project.join layout)) →
          (detect file).packageName directory = ".".intercalate names) ∧
    ∀ file : Path, (detect file).roots = [] ↔ ∀ ancestor ∈ file.ancestors.tail,
      ∀ layout ∈ layouts, ¬ (Path.mk layout).components <:+ ancestor.components := by
  refine ⟨fun project file layout name names hlayout hnames hname hnests hfile => ?_, detect_eq_nil⟩
  have hconventional : (Path.mk layout).components ∈ conventional := by
    rw [conventional_eq]
    exact List.mem_map_of_mem hlayout
  have hdirectory := components_foldl_names (fun n hn => (hnames n hn).1) (project.join layout)
  have hnests' : (Path.mk layout).components = [.normal "src"] → ¬ NestsLanguage names := by
    intro hsrc
    have hflat : ∀ layout ∈ layouts, (Path.mk layout).components = [.normal "src"] →
      layout = "src" := by decide +kernel
    exact hnests (hflat layout hlayout hsrc)
  have hdetected : (detect file).Respells ⟨[project.join layout]⟩ := by
    rw [SourceRoots.Respells, detect_eq_nearest, hfile, hname.components_join, hdirectory,
      components_join_layout hlayout,
      nearest_below hconventional (fun h => (hnames _ h).2 rfl) hnests']
    simp [components_join_layout hlayout]
  refine ⟨hdetected, fun directory h => ?_⟩
  have hdeepest : Deepest ⟨[project.join layout]⟩ directory (project.join layout) := by
    refine ⟨List.mem_singleton_self _, ?_, by simp⟩
    rw [Encloses, h, hdirectory]
    exact List.prefix_append ..
  rw [packageName_congr hdetected rfl, hdeepest.packageName_eq (h.trans hdirectory),
    Component.map_spelling_normal]

/-- A project that lies below a conventional directory itself, and packages that start like the
rest of another one. -/
theorem detect_inverts_layouts_of_nested :
    let file : Path := ⟨"/src/main/java/p//src/main/kotlin2/X.java"⟩
    (detect file).Respells ⟨[⟨"/src/main/java/p/src"⟩]⟩ ∧
      (detect file).packageName ⟨"/src/main/java/p/src/main/kotlin2/"⟩ = "main.kotlin2" ∧
      (detect ⟨"/tmp/Order.java"⟩).roots = [] := by
  intro file
  obtain ⟨hinverts, hnone⟩ := detect_inverts_layouts
  obtain ⟨hroot, hpackage⟩ := hinverts ⟨"/src/main/java/p"⟩ file "src" "X.java" ["main", "kotlin2"]
    (by decide) (by decide +kernel) (by decide +kernel) (by decide +kernel) (by decide +kernel)
  exact ⟨hroot, hpackage _ (by decide +kernel), (hnone _).mpr (by decide +kernel)⟩

end SourceRoots

end Scaffold
