import Mathlib.Data.List.Nodup
import Scaffold.Proofs.MemoryLaws

/-!
# Insertions in another order

Paths are ordered by their components, so insertions of different paths
commute, entry for entry and whatever order the list is in. An insertion that
is made again later changes nothing, and erasing what was new among many
insertions leaves those that replaced something.
-/

namespace Scaffold

-- ---------------------------------------------------------------------------
-- The order of paths
-- ---------------------------------------------------------------------------

instance : Std.OrientedCmp Component.compare where
  eq_swap {a b} := by
    cases a <;> cases b <;> first | rfl | exact Std.OrientedOrd.eq_swap

instance : Std.TransCmp Component.compare where
  isLE_trans {a b c} hab hbc := by
    cases a <;> cases b <;> cases c <;>
      first | rfl | exact Std.TransOrd.isLE_trans hab hbc | cases hab | cases hbc

namespace Path

theorem compareComponents_eq_compareLex (as bs : List Component) :
    compareComponents as bs = List.compareLex Component.compare as bs := by
  induction as generalizing bs with
  | nil => cases bs <;> rfl
  | cons a as ih =>
    cases bs with
    | nil => rfl
    | cons b bs => rw [compareComponents, List.compareLex_cons_cons, ih]

theorem compare_eq_compareLex (p q : Path) :
    p.compare q = List.compareLex Component.compare p.components q.components :=
  compareComponents_eq_compareLex _ _

instance : Std.TransCmp Path.compare where
  eq_swap {p q} := by
    rw [compare_eq_compareLex, compare_eq_compareLex]
    exact Std.OrientedCmp.eq_swap
  isLE_trans {p q r} hpq hqr := by
    rw [compare_eq_compareLex] at *
    exact Std.TransCmp.isLE_trans hpq hqr

end Path

namespace PathMap

variable {α : Type} {p q : Path} {a b : α} {m : PathMap α}

-- ---------------------------------------------------------------------------
-- Two insertions
-- ---------------------------------------------------------------------------

/-- The later insertion of a path counts. -/
theorem insert_insert (p : Path) (a b : α) (m : PathMap α) :
    insert p a (insert p b m) = insert p a m := by
  have hself : p.compare p = .eq := Path.compare_eq.mpr rfl
  induction m with
  | nil => simp [insert, hself]
  | cons entry m ih => cases h : p.compare entry.1 <;> simp [insert, h, hself, ih]

theorem insert_comm_of_lt (h : p.compare q = .lt) (a b : α) (m : PathMap α) :
    insert p a (insert q b m) = insert q b (insert p a m) := by
  have hgt : q.compare p = .gt := Std.OrientedCmp.gt_iff_lt.mpr h
  induction m with
  | nil => simp [insert, h, hgt]
  | cons entry m ih =>
    -- What is not before `q` in the list is behind `p`, too.
    cases hq : q.compare entry.1 with
    | lt =>
      have hp : p.compare entry.1 = .lt := Std.TransCmp.lt_trans h hq
      simp [insert, hq, hp, h, hgt]
    | eq =>
      have hp : p.compare entry.1 = .lt := Std.TransCmp.lt_of_lt_of_eq h hq
      simp [insert, hq, hp, hgt]
    | gt => cases hp : p.compare entry.1 <;> simp [insert, hq, hp, hgt, ih]

/-- Insertions of different paths commute. -/
theorem insert_comm (h : p.components ≠ q.components) (a b : α) (m : PathMap α) :
    insert p a (insert q b m) = insert q b (insert p a m) := by
  cases hc : p.compare q with
  | lt => exact insert_comm_of_lt hc a b m
  | eq => exact absurd (Path.compare_eq.mp hc) h
  | gt => exact (insert_comm_of_lt (Std.OrientedCmp.gt_iff_lt.mp hc) b a m).symm

-- ---------------------------------------------------------------------------
-- Many insertions
-- ---------------------------------------------------------------------------

/-- The entries are for different paths. -/
def Apart (entries : List (Path × α)) : Prop :=
  (entries.map fun entry => entry.1.components).Nodup

variable {entries more : List (Path × α)} {entry : Path × α}

@[simp] theorem insertAll_nil (m : PathMap α) : m.insertAll [] = m := rfl

@[simp] theorem insertAll_cons (m : PathMap α) (entry : Path × α) (entries : List (Path × α)) :
    m.insertAll (entry :: entries) = insertAll (insert entry.1 entry.2 m) entries := rfl

theorem insertAll_append (m : PathMap α) (entries more : List (Path × α)) :
    m.insertAll (entries ++ more) = insertAll (m.insertAll entries) more :=
  List.foldl_append

theorem Apart.eq_of_components (h : Apart entries) {e f : Path × α} (he : e ∈ entries)
    (hf : f ∈ entries) (hc : e.1.components = f.1.components) : e = f :=
  List.inj_on_of_nodup_map h he hf hc

/-- Entries for different paths may be inserted in any order. -/
theorem insertAll_perm (h : Apart entries) (hp : entries.Perm more) (m : PathMap α) :
    m.insertAll entries = m.insertAll more := by
  refine hp.foldl_eq' (fun e he f hf m => ?_) m
  by_cases hc : f.1.components = e.1.components
  · rw [h.eq_of_components hf he hc]
  · exact insert_comm hc _ _ m

/-- An entry that is inserted anyway may be inserted before. -/
theorem insertAll_insert (h : Apart entries) (he : entry ∈ entries) (m : PathMap α) :
    insertAll (insert entry.1 entry.2 m) entries = m.insertAll entries := by
  obtain ⟨front, back, rfl⟩ := List.append_of_mem he
  have hp : (front ++ entry :: back).Perm (entry :: (front ++ back)) := List.perm_middle
  rw [insertAll_perm h hp, insertAll_perm h hp, insertAll_cons, insertAll_cons, insert_insert]

/-- Insertions that are all made later change nothing before. -/
theorem insertAll_insertAll (h : Apart entries) (hs : more ⊆ entries) (m : PathMap α) :
    insertAll (m.insertAll more) entries = m.insertAll entries := by
  induction more generalizing m with
  | nil => rfl
  | cons entry more ih =>
    rw [List.cons_subset] at hs
    rw [insertAll_cons, ih hs.2, insertAll_insert h hs.1]

theorem contains_insertAll (entries : List (Path × α)) (m : PathMap α) (q : Path) :
    contains (m.insertAll entries) q = (contains m q || entries.any (·.1.same q)) := by
  induction entries generalizing m with
  | nil => simp
  | cons entry entries ih =>
    rw [insertAll_cons, ih, contains_insert, List.any_cons, Bool.or_comm (entry.1.same q),
      Bool.or_assoc]

/-- Replacing changes nothing about what is there. -/
theorem contains_insertAll_of_contains (h : ∀ entry ∈ entries, contains m entry.1 = true)
    (q : Path) : contains (m.insertAll entries) q = contains m q := by
  rw [contains_insertAll, Bool.or_eq_left_iff_imp]
  intro hq
  obtain ⟨entry, he, hsame⟩ := List.any_eq_true.mp hq
  rw [← contains_congr m (Path.same_iff.mp hsame)]
  exact h entry he

/-- Erasing the new ones among the inserted paths, in the opposite order, leaves the list in which
only the others were inserted. -/
theorem eraseAll_new (h : Apart entries) (m : PathMap α) :
    eraseAll (m.insertAll entries)
        ((entries.filter fun entry => !contains m entry.1).map Prod.fst).reverse =
      m.insertAll (entries.filter fun entry => contains m entry.1) := by
  have hp := (List.filter_append_perm (fun entry => contains m entry.1) entries).symm
  rw [insertAll_perm h hp, insertAll_append]
  refine eraseAll_insertAll (h.sublist (List.filter_sublist.map _)) fun entry he => ?_
  have hnew := (List.mem_filter.mp he).2
  rw [contains_insertAll_of_contains fun e hm => (List.mem_filter.mp hm).2]
  simpa using hnew

end PathMap

end Scaffold
