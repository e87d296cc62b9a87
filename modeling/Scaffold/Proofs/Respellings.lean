import Mathlib.Data.List.Forall2
import Scaffold.Proofs.Packages
import Scaffold.Scaffolder

/-!
# Other spellings of a path

A path that is spelled otherwise has the same components still, and nothing
that is asked of a path or done with it looks at more: its parents, its
joins, the roots that enclose it and the context of a file are those of the
other spelling, up to how they are spelled.
-/

namespace Scaffold

namespace Path

/-- The same components, perhaps spelled otherwise. -/
def Respells (p q : Path) : Prop := p.components = q.components

variable {p q : Path}

instance : Decidable (p.Respells q) := inferInstanceAs (Decidable (_ = _))

@[refl] theorem Respells.refl (p : Path) : p.Respells p := rfl

-- ---------------------------------------------------------------------------
-- Questions
-- ---------------------------------------------------------------------------

theorem segmentComponent_ne_lead {cs : List Char} {c : Component}
    (h : segmentComponent cs = some c) : c ≠ .root ∧ c ≠ .current := by
  unfold segmentComponent at h
  split at h
  · cases h
  · split at h <;> cases h <;> simp

theorem ne_lead_of_mem_added {cs : List Char} {c : Component} (h : c ∈ added cs) :
    c ≠ .root ∧ c ≠ .current := by
  obtain ⟨piece, -, hpiece⟩ := List.mem_filterMap.mp h
  exact segmentComponent_ne_lead hpiece

/-- A path is absolute when it starts with the root, and nothing else does. -/
theorem isAbsolute_iff : p.isAbsolute = true ↔ .root ∈ p.components := by
  rw [components, componentsOf_eq, List.mem_append,
    or_iff_left fun h => (ne_lead_of_mem_added h).1 rfl, isAbsolute, decide_eq_true_eq]
  generalize p.spelling.toList = cs
  rcases cs with _ | ⟨c, cs⟩
  · simp [leadComponents]
  · by_cases hc : c = '/'
    · simp [hc, leadComponents]
    · unfold leadComponents
      split <;> simp_all

namespace Respells

theorem isAbsolute (h : p.Respells q) : p.isAbsolute = q.isAbsolute := by
  rw [Bool.eq_iff_iff, isAbsolute_iff, isAbsolute_iff, h]

theorem spelling_eq_empty (h : p.Respells q) : p.spelling = "" ↔ q.spelling = "" := by
  rw [← components_eq_nil, ← components_eq_nil, h]

-- ---------------------------------------------------------------------------
-- Other paths
-- ---------------------------------------------------------------------------

theorem join (h : p.Respells q) (name : String) : (p.join name).Respells (q.join name) :=
  components_join_congr h name

theorem upTo (h : p.Respells q) (count : Nat) : (p.upTo count).Respells (q.upTo count) := by
  rw [Respells, components_upTo, components_upTo, h]

theorem parent? (h : p.Respells q) : Option.Rel Respells p.parent? q.parent? := by
  unfold Path.parent?
  rw [h]
  split
  · exact .none
  · exact .none
  · exact .some (h.upTo _)

theorem ancestors (h : p.Respells q) : List.Forall₂ Respells p.ancestors q.ancestors := by
  unfold Path.ancestors
  rw [h, h.isAbsolute]
  refine .cons h ?_
  rw [List.forall₂_map_left_iff, List.forall₂_map_right_iff, List.forall₂_same]
  exact fun count _ => h.upTo count

end Respells

end Path

-- ---------------------------------------------------------------------------
-- Roots and contexts
-- ---------------------------------------------------------------------------

namespace SourceRoots

/-- The same roots in the same order, each perhaps spelled otherwise. -/
def Respells (roots roots' : SourceRoots) : Prop :=
  roots.roots.map Path.components = roots'.roots.map Path.components

variable {roots roots' : SourceRoots} {file file' : Path}

instance : Decidable (roots.Respells roots') := inferInstanceAs (Decidable (_ = _))

@[refl] theorem Respells.refl (roots : SourceRoots) : roots.Respells roots := rfl

theorem respells_detect (h : file.Respells file') : (detect file).Respells (detect file') := by
  rw [Respells, detect_eq_nearest, detect_eq_nearest, h]

end SourceRoots

namespace Context

variable {file file' : Path} {roots roots' : SourceRoots}

/-- The context of a file spelled otherwise has the same package. -/
theorem ofFile_respelled (hfile : file.Respells file') (hroots : roots.Respells roots') :
    (ofFile file roots).basePackage = (ofFile file' roots').basePackage ∧
      Option.Rel Path.Respells (ofFile file roots).baseDirectory
        (ofFile file' roots').baseDirectory := by
  have hbase : Option.Rel Path.Respells (file.parent?.bind Path.parent?)
      (file'.parent?.bind Path.parent?) := by
    have hparent := hfile.parent?
    generalize file.parent? = parent, file'.parent? = parent' at hparent
    cases hparent with
    | none => exact .none
    | some h => exact h.parent?
  refine ⟨?_, hbase⟩
  simp only [ofFile]
  generalize file.parent?.bind Path.parent? = base, file'.parent?.bind Path.parent? = base' at hbase
  cases hbase with
  | none => rfl
  | some h => exact SourceRoots.packageName_congr hroots h

/-- The roots count by their components alone. -/
theorem ofFile_congr (hroots : roots.Respells roots') : ofFile file roots = ofFile file roots' := by
  obtain ⟨hpackage, -⟩ := ofFile_respelled (Path.Respells.refl file) hroots
  simpa only [ofFile, Context.mk.injEq, and_true] using hpackage

end Context

/-- The same settings, with roots that are perhaps spelled otherwise. -/
structure Settings.Respells (s s' : Settings) : Prop where
  roots : Option.Rel SourceRoots.Respells s.roots s'.roots
  policy : s'.policy = s.policy
  strictTypes : s'.strictTypes = s.strictTypes
  dryRun : s'.dryRun = s.dryRun

theorem Settings.Respells.rootsFor {s s' : Settings} (h : s.Respells s') {file file' : Path}
    (hfile : file.Respells file') :
    (Scaffolder.rootsFor s file).Respells (Scaffolder.rootsFor s' file') := by
  have hroots := h.roots
  simp only [Scaffolder.rootsFor]
  generalize s.roots = roots, s'.roots = roots' at hroots
  cases hroots with
  | none => exact SourceRoots.respells_detect hfile
  | some h => exact h

end Scaffold
