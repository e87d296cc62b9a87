import Scaffold.Proofs.CommitSteps
import Scaffold.Proofs.MemoryLaws
import Scaffold.Tree.Faulty

/-!
# Trees whose changes may fail

A tree is memory backed when each of its changes happens as in memory or
fails and leaves the memory as it was. No law says which changes fail or
with what failure. A walk, a write or a commit that succeeds on such a tree
succeeds in memory with the same results, so what a success does is settled
in memory alone.
-/

namespace Scaffold

open ProjectTree

variable {σ α : Type}

/-- A change went as in memory, or it failed and changed nothing. -/
def Tracks (memory : σ → MemoryTree) (tree : σ) (done : Except Failure α × σ)
    (ideal : Except Failure α × MemoryTree) : Prop :=
  (done.1 = ideal.1 ∧ memory done.2 = ideal.2) ∨
    (∃ failure, done.1 = .error failure) ∧ memory done.2 = memory tree

class MemoryBacked (σ : Type) [ProjectTree σ] where
  memory : σ → MemoryTree
  findSubdirectory_eq (tree : σ) (directory : Path) (name : String) :
    findSubdirectory tree directory name = findSubdirectory (memory tree) directory name
  fileExists_eq (tree : σ) (path : Path) : fileExists tree path = fileExists (memory tree) path
  tracks_create (tree : σ) (directory : Path) (name : String) :
    Tracks memory tree (createSubdirectory tree directory name)
      (createSubdirectory (memory tree) directory name)
  tracks_insert (tree : σ) (directory : Path) (name content : String) :
    Tracks memory tree (insertTextFile tree directory name content)
      (insertTextFile (memory tree) directory name content)
  tracks_remove (tree : σ) (path : Path) :
    Tracks memory tree (removeFile tree path) (removeFile (memory tree) path)

instance : MemoryBacked MemoryTree where
  memory := id
  findSubdirectory_eq _ _ _ := rfl
  fileExists_eq _ _ := rfl
  tracks_create _ _ _ := .inl ⟨rfl, rfl⟩
  tracks_insert _ _ _ _ := .inl ⟨rfl, rfl⟩
  tracks_remove _ _ := .inl ⟨rfl, rfl⟩

/-- Whatever the schedule, a faulty tree in memory is memory backed. -/
instance : MemoryBacked (FaultyTree MemoryTree) where
  memory := FaultyTree.tree
  findSubdirectory_eq _ _ _ := rfl
  fileExists_eq _ _ := rfl
  tracks_create t directory name := by
    simp only [createSubdirectory]
    split
    · exact .inr ⟨⟨_, rfl⟩, rfl⟩
    · exact .inl ⟨rfl, rfl⟩
  tracks_insert t directory name content := by
    simp only [insertTextFile]
    split
    · exact .inr ⟨⟨_, rfl⟩, rfl⟩
    · exact .inl ⟨rfl, rfl⟩
  tracks_remove t path := by
    simp only [removeFile]
    split
    · exact .inr ⟨⟨_, rfl⟩, rfl⟩
    · exact .inl ⟨rfl, rfl⟩

namespace MemoryBacked

-- ---------------------------------------------------------------------------
-- Walks, writes and commits
-- ---------------------------------------------------------------------------

variable [ProjectTree σ] [MemoryBacked σ] {tree tree' : σ} {base path directory : Path}
  {names : List String} {a : Artifact} {failure : Failure}

open Transaction

theorem descend_ok (h : descend tree base names = (.ok directory, tree')) :
    descend (memory tree) base names = (.ok directory, memory tree') := by
  induction names generalizing tree base with
  | nil => simp_all [descend]
  | cons name names ih =>
    simp only [descend] at h ⊢
    rw [← findSubdirectory_eq]
    cases hf : findSubdirectory tree base name with
    | some found => simp_all
    | none =>
      rw [hf] at h
      simp only at h ⊢
      rcases hc : createSubdirectory tree base name with ⟨result, middle⟩
      rw [hc] at h
      have ht := tracks_create tree base name
      rw [hc] at ht
      cases result with
      | error failure => simp at h
      | ok created =>
        obtain ⟨h1, h2⟩ | ⟨⟨_, he⟩, -⟩ := ht
        · rcases hm : createSubdirectory (memory tree) base name with ⟨result, middle'⟩
          rw [hm] at h1 h2
          subst h1 h2
          exact ih h
        · simp at he

theorem files_descend (tree : σ) (base : Path) (names : List String) :
    (memory (descend tree base names).2).files = (memory tree).files := by
  induction names generalizing tree base with
  | nil => rfl
  | cons name names ih =>
    simp only [descend]
    cases findSubdirectory tree base name with
    | some found => exact ih ..
    | none =>
      have ht : (memory (createSubdirectory tree base name).2).files = (memory tree).files := by
        obtain ⟨-, h⟩ | ⟨-, h⟩ := tracks_create tree base name
        · rw [h]
          rfl
        · rw [h]
      rcases hc : createSubdirectory tree base name with ⟨result, middle⟩
      rw [hc] at ht
      cases result with
      | error failure => exact ht
      | ok created => exact (ih ..).trans ht

theorem write_ok (h : write tree base a = (.ok path, tree')) :
    write (memory tree) base a = (.ok path, memory tree') := by
  unfold Transaction.write ensureSubdirectories at h ⊢
  rcases hd : descend tree base (segments a.relativePath) with ⟨result, middle⟩
  rw [hd] at h
  cases result with
  | error failure => simp at h
  | ok directory =>
    rw [descend_ok hd]
    simp only at h ⊢
    obtain ⟨h1, h2⟩ | ⟨⟨_, he⟩, -⟩ := tracks_insert middle directory a.fileName a.content
    · simp_all
    · simp [h] at he

theorem files_write_error (h : write tree base a = (.error failure, tree')) :
    (memory tree').files = (memory tree).files := by
  have hfiles := files_descend tree base (segments a.relativePath)
  unfold Transaction.write ensureSubdirectories at h
  rcases hd : descend tree base (segments a.relativePath) with ⟨result, middle⟩
  rw [hd] at h hfiles
  cases result with
  | error failure => simp_all
  | ok directory =>
    simp only at h
    obtain ⟨h1, -⟩ | ⟨-, hm⟩ := tracks_insert middle directory a.fileName a.content
    · rw [h] at h1
      cases h1
    · rw [h] at hm
      rw [hm, hfiles]

theorem step_memory {w : PlannedWrite} {o : Outcome} (h : Step base w tree o tree') :
    Step base w (memory tree) o (memory tree') := by
  cases h with
  | skip hd => exact .skip hd
  | create hd hw => exact .create hd (write_ok hw)
  | overwrite hd hw => exact .overwrite hd (write_ok hw)

theorem commitWrites_ok {created : List Path} {ws : List PlannedWrite} {outcomes : List Outcome}
    (h : commitWrites tree base created ws = (.ok outcomes, tree')) :
    commitWrites (memory tree) base created ws = (.ok outcomes, memory tree') := by
  induction ws generalizing tree created outcomes with
  | nil =>
    simp only [commitWrites, Prod.mk.injEq, Except.ok.injEq] at h
    simp [commitWrites, h]
  | cons w ws ih =>
    obtain ⟨o, rest, middle, rfl, hs, hr⟩ := commitWrites_cons_ok h
    rw [(step_memory hs).commitWrites_eq, ih hr]
    rfl

-- ---------------------------------------------------------------------------
-- Rolling back
-- ---------------------------------------------------------------------------

/-- A roll back erases the files whose removal succeeded. -/
theorem memory_rollBack (tree : σ) (paths : List Path) :
    memory (rollBack tree paths).2 =
      { memory tree with files := (memory tree).files.eraseAll (erased tree paths) } := by
  induction paths generalizing tree with
  | nil => rfl
  | cons path paths ih =>
    have ht := tracks_remove tree path
    rcases hr : removeFile tree path with ⟨_ | _, tree'⟩
    · obtain ⟨h1, -⟩ | ⟨-, h2⟩ := ht
      · rw [hr] at h1
        cases h1
      · rw [hr] at h2
        simp only at h2
        simp [rollBack, erased, removals, hr, ih, h2]
    · obtain ⟨-, h2⟩ | ⟨⟨_, he⟩, -⟩ := ht
      · have h2 : memory tree' =
            { memory tree with files := (memory tree).files.erase path } := by
          rw [hr] at h2
          exact h2
        simp [rollBack, erased, removals, hr, ih, h2, PathMap.eraseAll]
      · rw [hr] at he
        cases he

end MemoryBacked

end Scaffold
