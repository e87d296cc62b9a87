import Scaffold.Proofs.Effects

/-!
# Runs in either order

Runs whose targets are apart do not see each other's files, so each plans and
reports the same before and after the other. They may share directories. Which
of them comes first then decides which of them enters a directory, and so under
which spelling, but neither whether it is there in the end nor how many have
been counted.
-/

namespace Scaffold

open ProjectTree MemoryBacked

namespace MemoryTree

-- ---------------------------------------------------------------------------
-- Directories up to spelling
-- ---------------------------------------------------------------------------

/-- The same directories are there, and as many were counted. -/
structure SameDirectories (t t' : MemoryTree) : Prop where
  there : ∀ q, t.hasDirectory q = t'.hasDirectory q
  created : t.created = t'.created

variable {t t' : MemoryTree} {p q : Path} {ps qs : List Path}

theorem SameDirectories.refl (t : MemoryTree) : SameDirectories t t := ⟨fun _ => rfl, rfl⟩

theorem SameDirectories.trans {t'' : MemoryTree} (h : SameDirectories t t')
    (h' : SameDirectories t' t'') : SameDirectories t t'' :=
  ⟨fun q => (h.there q).trans (h'.there q), h.created.trans h'.created⟩

theorem created_enter_eq (t : MemoryTree) (p : Path) :
    (t.enter p).created = if t.hasDirectory p then t.created else t.created + 1 := by
  by_cases h : t.hasDirectory p = true <;> simp [enter, h]

theorem SameDirectories.enter (h : SameDirectories t t') (p : Path) :
    SameDirectories (t.enter p) (t'.enter p) where
  there q := by rw [Bool.eq_iff_iff, hasDirectory_enter, hasDirectory_enter, h.there]
  created := by rw [created_enter_eq, created_enter_eq, h.there, h.created]

theorem SameDirectories.enterAll (h : SameDirectories t t') (ps : List Path) :
    SameDirectories (t.enterAll ps) (t'.enterAll ps) := by
  induction ps generalizing t t' with
  | nil => exact h
  | cons p ps ih => exact ih (h.enter p)

theorem sameDirectories_enter_comm (t : MemoryTree) (p q : Path) :
    SameDirectories ((t.enter p).enter q) ((t.enter q).enter p) where
  there r := by
    rw [Bool.eq_iff_iff, hasDirectory_enter, hasDirectory_enter, hasDirectory_enter,
      hasDirectory_enter, or_right_comm]
  created := by
    have hq : (t.enter p).hasDirectory q = true ↔
        t.hasDirectory q = true ∨ p.components = q.components := hasDirectory_enter ..
    have hp : (t.enter q).hasDirectory p = true ↔
        t.hasDirectory p = true ∨ q.components = p.components := hasDirectory_enter ..
    by_cases hsame : p.components = q.components
    · simp [created_enter_eq, hq, hp, hsame, t.hasDirectory_congr hsame]
    · simp only [created_enter_eq, hq, hp, hsame, Ne.symm hsame, or_false]
      split <;> split <;> rfl

/-- Directories may be entered in any order. -/
theorem sameDirectories_enterAll (h : ps.Perm qs) (t : MemoryTree) :
    SameDirectories (t.enterAll ps) (t.enterAll qs) := by
  induction h generalizing t with
  | nil => exact .refl t
  | cons p _ ih => exact ih (t.enter p)
  | swap p q ps => exact (sameDirectories_enter_comm t q p).enterAll ps
  | trans _ _ ih ih' => exact (ih t).trans (ih' t)

end MemoryTree

-- ---------------------------------------------------------------------------
-- Two runs
-- ---------------------------------------------------------------------------

namespace Call

open Transaction

/-- No file is a target of both calls. -/
def Apart (c d : Call) : Prop :=
  ∀ p ∈ c.targets, ∀ q ∈ d.targets, p.components ≠ q.components

theorem Apart.symm {c d : Call} (h : c.Apart d) : d.Apart c :=
  fun q hq p hp => (h p hp q hq).symm

/-- Calls that are apart write different files. -/
theorem Apart.entries {σ : Type} [ProjectTree σ] {c d : Call} (h : c.Apart d) (tree : σ) :
    PathMap.Apart (entries c.base (c.writes tree) ++ entries d.base (d.writes tree)) := by
  rw [PathMap.Apart, List.map_append, List.nodup_append]
  refine ⟨c.apart_entries tree, d.apart_entries tree, ?_⟩
  simp only [List.mem_map]
  rintro _ ⟨entry, he, rfl⟩ _ ⟨other, ho, rfl⟩
  obtain ⟨p, hp, hpc⟩ := exists_target_of_mem_entries he
  obtain ⟨q, hq, hqc⟩ := exists_target_of_mem_entries ho
  rw [← hpc, ← hqc]
  exact h p hp q hq

end Call

namespace Scaffolder

open Transaction

variable {c d : Call}

/-- A call that is apart leaves the targets as they were. -/
theorem fileExists_call (s : Scaffolder MemoryTree) (h : c.Apart d) :
    ∀ p ∈ c.targets, fileExists (s.call d).2.tree p = fileExists s.tree p := by
  intro p hp
  have hcontent := (harmless_call s d).others p (h.symm · · p hp)
  change PathMap.contains _ p = PathMap.contains _ p
  rw [PathMap.contains_eq_isSome, PathMap.contains_eq_isSome]
  exact congrArg Option.isSome hcontent

/-- The tree that two calls leave, the second of which does not see the first. -/
theorem tree_call_call (s : Scaffolder MemoryTree) (h : c.Apart d) :
    ((s.call c).2.call d).2.tree =
      { s.tree.enterAll (ways c.base (c.writes s.tree) ++ ways d.base (d.writes s.tree)) with
        files := s.tree.files.insertAll
          (entries c.base (c.writes s.tree) ++ entries d.base (d.writes s.tree)) } := by
  rw [tree_call, Call.writes_congr (fileExists_call s h.symm), tree_call, foldl_perform,
    foldl_perform, MemoryTree.enterAll_withFiles, ← MemoryTree.enterAll_append,
    PathMap.insertAll_append]

/-- Two calls whose targets are apart answer and leave the same in either order. -/
theorem calls_commute (s : Scaffolder MemoryTree) (c d : Call) (h : c.Apart d) :
    let first := (s.call c).2.call d
    let second := (s.call d).2.call c
    (s.call c).1 = second.1 ∧ first.1 = (s.call d).1 ∧
      first.2.tree.files = second.2.tree.files ∧
      MemoryTree.SameDirectories first.2.tree second.2.tree := by
  intro first second
  have hfirst : first.2.tree = _ := tree_call_call s h
  have hsecond : second.2.tree = _ := tree_call_call s h.symm
  refine ⟨result_call_congr fun p hp => (fileExists_call s h p hp).symm,
    result_call_congr (fileExists_call s h.symm), ?_, ?_⟩
  · rw [hfirst, hsecond]
    exact PathMap.insertAll_perm (h.entries s.tree) List.perm_append_comm _
  · have hways : (ways c.base (c.writes s.tree) ++ ways d.base (d.writes s.tree)).Perm
        (ways d.base (d.writes s.tree) ++ ways c.base (c.writes s.tree)) := List.perm_append_comm
    have hsame := MemoryTree.sameDirectories_enterAll hways s.tree
    rw [hfirst, hsecond]
    exact ⟨hsame.there, hsame.created⟩

/-- A run that refuses to replace a mapper and one that skips it share the directories below `app`;
the first target of the second stands there, too. -/
theorem calls_commute_order_item :
    let s : Scaffolder MemoryTree :=
      { tree := MemoryTree.withFile {} ⟨"app/mapper/ItemMapper.java"⟩ "old" }
    let order : Call := ⟨{}, ⟨⟨"app/domain/Order.java"⟩, .java, "class Order {}"⟩⟩
    let item : Call := ⟨{ policy := .skip }, ⟨⟨"app/model/Item.kt"⟩, .kotlin, "class Item"⟩⟩
    let first := (s.call order).2.call item
    let second := (s.call item).2.call order
    order.Apart item ∧ order.targets.length = 7 ∧ item.targets.length = 7 ∧
      (s.call order).1 = second.1 ∧ first.1 = (s.call item).1 ∧
      first.2.tree.files = second.2.tree.files ∧
      MemoryTree.SameDirectories first.2.tree second.2.tree := by
  intro s order item first second
  have h : order.Apart item := by
    unfold Call.Apart
    decide +kernel
  exact ⟨h, by decide +kernel, by decide +kernel, calls_commute s order item h⟩

end Scaffolder

end Scaffold
