import Mathlib.Data.List.Induction
import Scaffold.Proofs.PathLaws
import Scaffold.Tree.Memory

/-!
# Maps from paths

Look-ups in a map of paths see components only, whatever order its list is
in. Inserting and erasing change what is found under the components of the
path, and erasing a path that was new takes its insertion back.
-/

namespace Scaffold.PathMap

variable {α : Type} {m : PathMap α} {p q : Path}

-- ---------------------------------------------------------------------------
-- Single changes
-- ---------------------------------------------------------------------------

theorem get?_cons (entry : Path × α) (m : PathMap α) (q : Path) :
    get? (entry :: m) q = if entry.1.components = q.components then some entry.2 else get? m q := by
  by_cases h : entry.1.components = q.components <;> simp [get?, h]

theorem contains_cons (entry : Path × α) (m : PathMap α) (q : Path) :
    contains (entry :: m) q = (entry.1.same q || contains m q) := rfl

theorem contains_eq_isSome (m : PathMap α) (q : Path) : contains m q = (get? m q).isSome := by
  induction m with
  | nil => rfl
  | cons entry m ih =>
    rw [get?_cons, contains_cons, ih]
    by_cases h : entry.1.components = q.components <;> simp [Path.same, h]

theorem contains_eq_false : contains m q = false ↔ get? m q = none := by
  simp [contains_eq_isSome]

theorem get?_congr (m : PathMap α) (h : p.components = q.components) : get? m p = get? m q := by
  induction m with
  | nil => rfl
  | cons entry m ih => rw [get?_cons, get?_cons, h, ih]

theorem contains_congr (m : PathMap α) (h : p.components = q.components) :
    contains m p = contains m q := by
  rw [contains_eq_isSome, contains_eq_isSome, get?_congr m h]

theorem get?_insert (m : PathMap α) (p : Path) (a : α) (q : Path) :
    get? (insert p a m) q = if p.components = q.components then some a else get? m q := by
  induction m with
  | nil => simp [insert, get?_cons]
  | cons entry m ih =>
    simp only [insert]
    cases h : p.compare entry.1 with
    | lt => simp [get?_cons]
    | eq =>
      rw [get?_cons, get?_cons, Path.compare_eq.mp h]
      split <;> rfl
    | gt =>
      have hne : entry.1.components ≠ p.components := by
        rw [ne_comm, ne_eq, ← Path.compare_eq, h]
        simp
      rw [get?_cons, ih, get?_cons]
      by_cases hq : p.components = q.components
      · rw [if_pos hq, if_neg (hq ▸ hne), if_pos hq]
      · rw [if_neg hq, if_neg hq]

theorem contains_insert (m : PathMap α) (p : Path) (a : α) (q : Path) :
    contains (insert p a m) q = (p.same q || contains m q) := by
  rw [contains_eq_isSome, contains_eq_isSome, get?_insert]
  by_cases h : p.components = q.components <;> simp [Path.same, h]

theorem get?_erase (m : PathMap α) (p q : Path) :
    get? (erase m p) q = if p.components = q.components then none else get? m q := by
  induction m with
  | nil => simp [erase, get?]
  | cons entry m ih =>
    rw [get?_cons]
    by_cases he : entry.1.components = p.components
    · have : erase (entry :: m) p = erase m p := by simp [erase, he]
      rw [this, ih, he]
      split <;> rfl
    · have : erase (entry :: m) p = entry :: erase m p := by simp [erase, Path.same, he]
      rw [this, get?_cons, ih]
      by_cases hp : p.components = q.components
      · rw [if_pos hp, if_neg (hp ▸ he), if_pos hp]
      · rw [if_neg hp, if_neg hp]

/-- A new path is one entry more, wherever the order puts it. -/
theorem insert_perm (a : α) (h : contains m p = false) : (insert p a m).Perm ((p, a) :: m) := by
  induction m with
  | nil => exact .refl _
  | cons entry m ih =>
    rw [contains_cons, Bool.or_eq_false_iff] at h
    simp only [insert]
    cases hc : p.compare entry.1 with
    | lt => exact .refl _
    | eq => simp_all [Path.same, Path.compare_eq.mp hc]
    | gt => exact ((ih h.2).cons entry).trans (.swap ..)

theorem length_insert (a : α) (h : contains m p = false) :
    (insert p a m).length = m.length + 1 :=
  (insert_perm a h).length_eq

theorem erase_of_contains_eq_false (h : contains m p = false) : erase m p = m := by
  apply List.filter_eq_self.mpr
  intro entry he
  have := List.any_eq_false.mp h entry he
  simp_all

/-- Erasing takes the insertion of a new path back, entry for entry. -/
theorem erase_insert (a : α) (h : contains m p = false) : erase (insert p a m) p = m := by
  induction m with
  | nil => simp [insert, erase]
  | cons entry m ih =>
    have hm : contains m p = false := by
      rw [contains_cons, Bool.or_eq_false_iff] at h
      exact h.2
    simp only [insert]
    cases hc : p.compare entry.1 with
    | lt =>
      rw [erase, List.filter_cons_of_neg (by simp)]
      exact erase_of_contains_eq_false h
    | eq => simp_all [contains, Path.same, Path.compare_eq.mp hc]
    | gt =>
      have hne : entry.1.same p = false := by
        rw [contains_cons, Bool.or_eq_false_iff] at h
        exact h.1
      rw [erase, List.filter_cons_of_pos (by simp [hne])]
      exact congrArg _ (ih hm)

-- ---------------------------------------------------------------------------
-- Many changes
-- ---------------------------------------------------------------------------

def insertAll (m : PathMap α) (entries : List (Path × α)) : PathMap α :=
  entries.foldl (fun m entry => insert entry.1 entry.2 m) m

def eraseAll (m : PathMap α) (paths : List Path) : PathMap α :=
  paths.foldl erase m

theorem get?_insertAll_of_ne {entries : List (Path × α)}
    (h : ∀ entry ∈ entries, entry.1.components ≠ q.components) :
    get? (insertAll m entries) q = get? m q := by
  induction entries generalizing m with
  | nil => rfl
  | cons entry entries ih =>
    have := ih (m := insert entry.1 entry.2 m) fun e he => h e (List.mem_cons_of_mem _ he)
    rw [insertAll, List.foldl_cons]
    rw [insertAll] at this
    rw [this, get?_insert, if_neg (h entry List.mem_cons_self)]

theorem get?_insertAll_of_mem {entries : List (Path × α)} {p : Path} {a : α}
    (hd : (entries.map fun entry => entry.1.components).Nodup) (h : (p, a) ∈ entries) :
    get? (insertAll m entries) p = some a := by
  induction entries generalizing m with
  | nil => cases h
  | cons first entries ih =>
    obtain ⟨hfirst, hd⟩ := List.nodup_cons.mp hd
    rw [insertAll, List.foldl_cons, ← insertAll]
    rcases List.mem_cons.mp h with rfl | h
    · rw [get?_insertAll_of_ne, get?_insert, if_pos rfl]
      intro e hm heq
      exact hfirst (List.mem_map.mpr ⟨e, hm, heq⟩)
    · exact ih hd h

theorem get?_eraseAll (m : PathMap α) (paths : List Path) (q : Path) :
    get? (eraseAll m paths) q =
      if ∃ p ∈ paths, p.components = q.components then none else get? m q := by
  induction paths generalizing m with
  | nil => simp [eraseAll]
  | cons p paths ih =>
    rw [eraseAll, List.foldl_cons, ← eraseAll, ih, get?_erase]
    by_cases hp : p.components = q.components <;> simp [hp]

/-- New paths that are erased in the opposite order leave the list that was there. -/
theorem eraseAll_insertAll {entries : List (Path × α)}
    (hd : (entries.map fun entry => entry.1.components).Nodup)
    (hn : ∀ entry ∈ entries, contains m entry.1 = false) :
    eraseAll (insertAll m entries) (entries.map Prod.fst).reverse = m := by
  induction entries using List.reverseRecOn with
  | nil => rfl
  | append_singleton entries entry ih =>
    rw [List.map_append, List.nodup_append] at hd
    have hnew : contains (insertAll m entries) entry.1 = false := by
      rw [contains_eq_false, get?_insertAll_of_ne, ← contains_eq_false]
      · exact hn entry (by simp)
      · intro e he
        exact hd.2.2 _ (List.mem_map_of_mem he) _ (by simp)
    have hall : insertAll m (entries ++ [entry]) =
        insert entry.1 entry.2 (insertAll m entries) := by
      simp [insertAll]
    rw [hall, List.map_append, List.reverse_append]
    change eraseAll (erase _ entry.1) _ = m
    rw [erase_insert _ hnew]
    exact ih hd.1 fun e he => hn e (by simp [he])

end Scaffold.PathMap
