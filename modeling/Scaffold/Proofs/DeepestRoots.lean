import Scaffold.Proofs.Packages

/-!
# The deepest enclosing root

Roots that enclose one directory lie on one way to it, so two of the same
depth are the same root. The package of a directory is therefore what is left
of it below the deepest enclosing root, whatever else the list of roots holds
and in whatever order it holds it.
-/

namespace Scaffold

namespace Path

/-- The directory is the root, or it lies below it. -/
def Encloses (root directory : Path) : Prop :=
  root.components <+: directory.components

instance (root directory : Path) : Decidable (root.Encloses directory) :=
  inferInstanceAs (Decidable (_ <+: _))

variable {root other directory : Path}

/-- Of two roots around a directory, the deeper one lies on the way from the other. -/
theorem Encloses.prefix_of_length_le (h : root.Encloses directory) (h' : other.Encloses directory)
    (hle : root.components.length ≤ other.components.length) :
    root.components <+: other.components :=
  List.prefix_of_prefix_length_le h h' hle

end Path

namespace SourceRoots

open Scaffold.Path

variable {roots roots' : SourceRoots} {directory root root' : Path}

/-- Of the roots that enclose a directory, one than which no other is deeper. -/
structure Deepest (roots : SourceRoots) (directory root : Path) : Prop where
  mem : root ∈ roots.roots
  encloses : root.Encloses directory
  deepest : ∀ r ∈ roots.roots, r.Encloses directory →
    r.components.length ≤ root.components.length

-- ---------------------------------------------------------------------------
-- The deepest root
-- ---------------------------------------------------------------------------

theorem mem_enclosing {cs : List Component} :
    cs ∈ roots.enclosing directory ↔
      ∃ r ∈ roots.roots, r.Encloses directory ∧ r.components = cs := by
  simp only [enclosing, List.mem_filter, List.mem_map, decide_eq_true_eq]
  constructor
  · rintro ⟨⟨r, hr, rfl⟩, he⟩
    exact ⟨r, hr, he, rfl⟩
  · rintro ⟨r, hr, he, rfl⟩
    exact ⟨⟨r, hr, rfl⟩, he⟩

theorem eq_nil_of_longest {α : Type} {ls : List (List α)} (h : longest? ls = none) : ls = [] := by
  cases ls with
  | nil => rfl
  | cons l ls =>
    have hmem : l ∈ l :: ls := List.mem_cons_self
    obtain ⟨m, hm⟩ := longest_isSome hmem
    simp [h] at hm

theorem length_le_longest {α : Type} {l m : List α} {ls : List (List α)}
    (h : longest? ls = some m) (hl : l ∈ ls) : l.length ≤ m.length := by
  induction ls generalizing m with
  | nil => cases hl
  | cons first ls ih =>
    rw [longest?] at h
    cases hrest : longest? ls with
    | none =>
      obtain rfl := eq_nil_of_longest hrest
      simp_all
    | some rest =>
      rw [hrest] at h
      have hboth : first.length ≤ m.length ∧ rest.length ≤ m.length := by
        simp only at h
        split at h <;> cases h <;> omega
      rcases List.mem_cons.mp hl with rfl | hmem
      · exact hboth.1
      · exact Nat.le_trans (ih hrest hmem) hboth.2

theorem exists_deepest (hmem : root ∈ roots.roots) (h : root.Encloses directory) :
    ∃ deepest, roots.Deepest directory deepest := by
  obtain ⟨m, hm⟩ := longest_isSome (mem_enclosing.mpr ⟨root, hmem, h, rfl⟩)
  obtain ⟨r, hr, he, rfl⟩ := mem_enclosing.mp (longest_mem hm)
  exact ⟨r, hr, he, fun s hs hse => length_le_longest hm (mem_enclosing.mpr ⟨s, hs, hse, rfl⟩)⟩

/-- Equally deep roots around one directory have the same components. -/
theorem Deepest.components_eq (h : roots.Deepest directory root)
    (hmem : root' ∈ roots.roots) (he : root'.Encloses directory)
    (hle : root.components.length ≤ root'.components.length) :
    root.components = root'.components :=
  (h.encloses.prefix_of_length_le he hle).eq_of_length_le (h.deepest root' hmem he)

theorem Deepest.longest (h : roots.Deepest directory root) :
    longest? (roots.enclosing directory) = some root.components := by
  have hroot := mem_enclosing.mpr ⟨root, h.mem, h.encloses, rfl⟩
  obtain ⟨m, hm⟩ := longest_isSome hroot
  obtain ⟨r, hr, he, rfl⟩ := mem_enclosing.mp (longest_mem hm)
  rw [hm, h.components_eq hr he (length_le_longest hm hroot)]

theorem Deepest.packageName_eq (h : roots.Deepest directory root) {rest : List Component}
    (hrest : directory.components = root.components ++ rest) :
    roots.packageName directory = ".".intercalate (rest.map Component.spelling) := by
  rw [packageName, h.longest]
  simp only [hrest, List.drop_left]

/-- Lists whose deepest roots have the same components give one package. -/
theorem Deepest.packageName_congr (h : roots.Deepest directory root)
    (h' : roots'.Deepest directory root') (hsame : root.components = root'.components) :
    roots.packageName directory = roots'.packageName directory := by
  obtain ⟨rest, hrest⟩ := h.encloses
  rw [h.packageName_eq hrest.symm, h'.packageName_eq (hsame ▸ hrest.symm)]

theorem packageName_of_outside (h : ∀ r ∈ roots.roots, ¬ r.Encloses directory) :
    roots.packageName directory = "" := by
  have hnil : roots.enclosing directory = [] := by
    rw [List.eq_nil_iff_forall_not_mem]
    intro cs hcs
    obtain ⟨r, hr, he, -⟩ := mem_enclosing.mp hcs
    exact h r hr he
  rw [packageName, hnil]
  rfl

-- ---------------------------------------------------------------------------
-- Other lists of roots
-- ---------------------------------------------------------------------------

/-- The enclosing roots count, each of them once and in any order. -/
theorem packageName_of_enclosing
    (h : ∀ cs, cs ∈ roots.enclosing directory ↔ cs ∈ roots'.enclosing directory) :
    roots.packageName directory = roots'.packageName directory := by
  by_cases hany : ∃ r ∈ roots.roots, r.Encloses directory
  · obtain ⟨r, hr, he⟩ := hany
    obtain ⟨root, hroot⟩ := exists_deepest hr he
    obtain ⟨root', hmem', he', hsame⟩ :=
      mem_enclosing.mp ((h _).mp (mem_enclosing.mpr ⟨root, hroot.mem, hroot.encloses, rfl⟩))
    have hroot' : roots'.Deepest directory root' := by
      refine ⟨hmem', he', fun s hs hse => ?_⟩
      obtain ⟨s', hs', hse', hss⟩ :=
        mem_enclosing.mp ((h _).mpr (mem_enclosing.mpr ⟨s, hs, hse, rfl⟩))
      rw [hsame, ← hss]
      exact hroot.deepest s' hs' hse'
    exact hroot.packageName_congr hroot' hsame.symm
  · push Not at hany
    have hany' : ∀ r ∈ roots'.roots, ¬ r.Encloses directory := by
      intro r hr he
      obtain ⟨s, hs, hse, -⟩ := mem_enclosing.mp ((h _).mpr (mem_enclosing.mpr ⟨r, hr, he, rfl⟩))
      exact hany s hs hse
    rw [packageName_of_outside hany, packageName_of_outside hany']

/-- The package of a directory is what is left of it below its deepest enclosing root, with dots
between the components, and it is empty outside every root and in that root itself. Roots that are
listed in another order, more often or in another spelling change nothing, and neither does a root
that is added anywhere in the list, unless it encloses the directory and is deeper than all that
do. -/
theorem packageName_below_deepest (roots : SourceRoots) (directory : Path) :
    ((∃ root, roots.Deepest directory root) ∨ ∀ r ∈ roots.roots, ¬ r.Encloses directory) ∧
    (∀ root, roots.Deepest directory root →
      ∃ rest, directory.components = root.components ++ rest ∧
        roots.packageName directory = ".".intercalate (rest.map Component.spelling)) ∧
    (∀ root, roots.Deepest directory root → root.components = directory.components →
      roots.packageName directory = "") ∧
    ((∀ r ∈ roots.roots, ¬ r.Encloses directory) → roots.packageName directory = "") ∧
    (∀ roots' : SourceRoots,
      (∀ cs, cs ∈ roots'.roots.map components ↔ cs ∈ roots.roots.map components) →
        roots'.packageName directory = roots.packageName directory) ∧
    (∀ front back added, roots.roots = front ++ back → ¬ added.Encloses directory →
      packageName ⟨front ++ added :: back⟩ directory = roots.packageName directory) ∧
    (∀ front back added root, roots.roots = front ++ back → roots.Deepest directory root →
      added.components.length ≤ root.components.length →
        packageName ⟨front ++ added :: back⟩ directory = roots.packageName directory) := by
  refine ⟨?_, fun root h => ?_, fun root h hself => ?_, packageName_of_outside,
    fun roots' h => ?_, fun front back added hroots hadded => ?_,
    fun front back added root hroots h hle => ?_⟩
  · by_cases hany : ∃ r ∈ roots.roots, r.Encloses directory
    · obtain ⟨r, hr, he⟩ := hany
      exact .inl (exists_deepest hr he)
    · push Not at hany
      exact .inr hany
  · obtain ⟨rest, hrest⟩ := h.encloses
    exact ⟨rest, hrest.symm, h.packageName_eq hrest.symm⟩
  · have hrest : directory.components = root.components ++ [] := by simp [hself]
    rw [h.packageName_eq hrest]
    rfl
  · exact packageName_of_enclosing fun cs => by simp only [enclosing, List.mem_filter, h cs]
  · refine packageName_of_enclosing fun cs => ?_
    have hadded : ¬ added.components <+: directory.components := hadded
    simp [enclosing, hroots, hadded]
  · have hadded : Deepest ⟨front ++ added :: back⟩ directory root := by
      have hmem := h.mem
      rw [hroots] at hmem
      refine ⟨by simp_all [or_left_comm], h.encloses, fun r hr he => ?_⟩
      rcases List.mem_append.mp hr with hr | hr
      · exact h.deepest r (by simp [hroots, hr]) he
      · rcases List.mem_cons.mp hr with rfl | hr
        · exact hle
        · exact h.deepest r (by simp [hroots, hr]) he
    exact hadded.packageName_congr h rfl

/-- The deeper of two roots counts, whichever comes first and however often the other does. -/
theorem packageName_below_deepest_of_nested :
    let roots : SourceRoots := ⟨[⟨"/p/src"⟩, ⟨"/p/src/main/java"⟩, ⟨"/q"⟩]⟩
    let others : SourceRoots := ⟨[⟨"/p/src/main/java/"⟩, ⟨"/q"⟩, ⟨"/p//src"⟩, ⟨"/p/src"⟩]⟩
    let directory : Path := ⟨"/p/src/main/java/com/x"⟩
    roots.Deepest directory ⟨"/p/src/main/java"⟩ ∧ roots.packageName directory = "com.x" ∧
      others.packageName directory = "com.x" ∧
      roots.packageName ⟨"/p/src/main/java/"⟩ = "" ∧ roots.packageName ⟨"/elsewhere/com"⟩ = "" ∧
      packageName ⟨⟨"/p/src/main/javax"⟩ :: roots.roots⟩ directory = "com.x" ∧
      packageName ⟨roots.roots ++ [⟨"/p"⟩]⟩ directory = "com.x" := by
  intro roots others directory
  have hdeepest : roots.Deepest directory ⟨"/p/src/main/java"⟩ :=
    ⟨by decide +kernel, by decide +kernel, by decide +kernel⟩
  have hself : roots.Deepest ⟨"/p/src/main/java/"⟩ ⟨"/p/src/main/java"⟩ :=
    ⟨by decide +kernel, by decide +kernel, by decide +kernel⟩
  obtain ⟨-, hbelow, -, -, hsame, houtside, hshallow⟩ := packageName_below_deepest roots directory
  obtain ⟨rest, hrest, hpackage⟩ := hbelow _ hdeepest
  obtain rfl : rest = [.normal "com", .normal "x"] := by
    have hsplit : directory.components =
        (Path.mk "/p/src/main/java").components ++ [.normal "com", .normal "x"] := by decide +kernel
    exact List.append_cancel_left (hrest.symm.trans hsplit)
  have hname : roots.packageName directory = "com.x" := hpackage.trans (by decide +kernel)
  refine ⟨hdeepest, hname, (hsame others fun cs => ?_).trans hname,
    (packageName_below_deepest roots _).2.2.1 _ hself (by decide +kernel),
    (packageName_below_deepest roots _).2.2.2.1 (by decide +kernel),
    (houtside [] roots.roots ⟨"/p/src/main/javax"⟩ rfl (by decide +kernel)).trans hname,
    (hshallow roots.roots [] ⟨"/p"⟩ _ (by simp) hdeepest (by decide +kernel)).trans hname⟩
  have hmembers : ∀ cs ∈ others.roots.map components ++ roots.roots.map components,
      cs ∈ others.roots.map components ∧ cs ∈ roots.roots.map components := by decide +kernel
  exact ⟨fun h => (hmembers cs (List.mem_append_left _ h)).2,
    fun h => (hmembers cs (List.mem_append_right _ h)).1⟩

end SourceRoots

end Scaffold
