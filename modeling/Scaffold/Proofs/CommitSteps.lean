import Mathlib.Data.List.Nodup
import Scaffold.Transaction

/-!
# A commit step by step

On any project tree a commit is a sequence of steps, one for each write. It
fails at the first write that cannot be carried out, and then removes what
the steps before it have created, newest first.
-/

namespace Scaffold.Transaction

open ProjectTree

variable {σ : Type} [ProjectTree σ]

-- ---------------------------------------------------------------------------
-- Steps
-- ---------------------------------------------------------------------------

/-- One write is carried out with an outcome. -/
inductive Step (base : Path) (w : PlannedWrite) : σ → Outcome → σ → Prop
  | skip {tree : σ} : w.decision = .skip → Step base w tree (PlannedWrite.outcome w .skipped) tree
  | create {tree tree' : σ} {path : Path} : w.decision = .create →
      write tree base w.artifact = (.ok path, tree') →
      Step base w tree ⟨w.artifact.kind, path, .created⟩ tree'
  | overwrite {tree tree' : σ} {path : Path} : w.decision = .overwrite →
      write tree base w.artifact = (.ok path, tree') →
      Step base w tree ⟨w.artifact.kind, path, .overwritten⟩ tree'

variable {tree tree' stuck : σ} {base : Path} {w : PlannedWrite} {ws : List PlannedWrite}
  {created : List Path} {outcomes : List Outcome} {failure cause : Failure}

/-- The files that were created, newest first. -/
def createdPaths (outcomes : List Outcome) : List Path :=
  ((outcomes.filter (·.status = .created)).map Outcome.path).reverse

theorem createdPaths_cons (o : Outcome) (os : List Outcome) :
    createdPaths (o :: os) = createdPaths os ++ createdPaths [o] := by
  by_cases h : o.status = .created <;> simp [createdPaths, h]

theorem Step.commitWrites_eq (h : Step base w tree o tree') (created : List Path)
    (ws : List PlannedWrite) :
    commitWrites tree base created (w :: ws) =
      ((commitWrites tree' base (createdPaths [o] ++ created) ws).1.map (o :: ·),
        (commitWrites tree' base (createdPaths [o] ++ created) ws).2) := by
  cases h with
  | skip hd => simp [commitWrites, hd, createdPaths, PlannedWrite.outcome]
  | create hd hw => simp [commitWrites, hd, hw, createdPaths]
  | overwrite hd hw => simp [commitWrites, hd, hw, createdPaths]

/-- The first write of a commit is either a step or the end of the commit. -/
theorem step_or_error (tree : σ) (base : Path) (w : PlannedWrite) :
    (∃ o tree', Step base w tree o tree') ∨
      w.decision ≠ .skip ∧ ∃ cause stuck, write tree base w.artifact = (.error cause, stuck) := by
  rcases hw : write tree base w.artifact with ⟨result, tree'⟩
  cases hd : w.decision with
  | skip => exact .inl ⟨_, _, .skip hd⟩
  | create =>
    cases result with
    | ok path => exact .inl ⟨_, _, .create hd hw⟩
    | error cause => exact .inr ⟨by simp, cause, tree', rfl⟩
  | overwrite =>
    cases result with
    | ok path => exact .inl ⟨_, _, .overwrite hd hw⟩
    | error cause => exact .inr ⟨by simp, cause, tree', rfl⟩

theorem commitWrites_stuck (hd : w.decision ≠ .skip)
    (hw : write tree base w.artifact = (.error cause, stuck)) (created : List Path)
    (ws : List PlannedWrite) :
    commitWrites tree base created (w :: ws) =
      (.error (.commitFailed (rollBack stuck created).1 cause), (rollBack stuck created).2) := by
  simp [commitWrites, hd, hw]

theorem commitWrites_cons_ok
    (h : commitWrites tree base created (w :: ws) = (.ok outcomes, tree')) :
    ∃ o rest middle, outcomes = o :: rest ∧ Step base w tree o middle ∧
      commitWrites middle base (createdPaths [o] ++ created) ws = (.ok rest, tree') := by
  obtain ⟨o, middle, hs⟩ | ⟨hd, cause, stuck, hw⟩ := step_or_error tree base w
  · rw [hs.commitWrites_eq] at h
    rcases hr : commitWrites middle base (createdPaths [o] ++ created) ws with ⟨result, tree''⟩
    rw [hr] at h
    cases result with
    | error failure => simp [Except.map] at h
    | ok rest =>
      simp only [Except.map, Prod.mk.injEq, Except.ok.injEq] at h
      obtain ⟨rfl, rfl⟩ := h
      exact ⟨o, rest, middle, rfl, hs, hr⟩
  · rw [commitWrites_stuck hd hw] at h
    simp at h

/-- A commit that fails has carried out the writes before some write, could not carry out that
one, and has taken back what it had created. -/
theorem commitWrites_error
    (h : commitWrites tree base created ws = (.error failure, tree')) :
    ∃ done w rest outcomes middle cause stuck,
      ws = done ++ w :: rest ∧ w.decision ≠ .skip ∧
      commitWrites tree base created done = (.ok outcomes, middle) ∧
      write middle base w.artifact = (.error cause, stuck) ∧
      failure = .commitFailed (rollBack stuck (createdPaths outcomes ++ created)).1 cause ∧
      tree' = (rollBack stuck (createdPaths outcomes ++ created)).2 := by
  induction ws generalizing tree created with
  | nil => simp [commitWrites] at h
  | cons w ws ih =>
    obtain ⟨o, middle, hs⟩ | ⟨hd, cause, stuck, hw⟩ := step_or_error tree base w
    · rw [hs.commitWrites_eq] at h
      rcases hr : commitWrites middle base (createdPaths [o] ++ created) ws with ⟨result, tree''⟩
      rw [hr] at h
      cases result with
      | ok rest => simp [Except.map] at h
      | error failure' =>
        simp only [Except.map, Prod.mk.injEq, Except.error.injEq] at h
        obtain ⟨rfl, rfl⟩ := h
        obtain ⟨done, w', rest, outcomes, last, cause, stuck, rfl, hd, hc, hw, hf, ht⟩ := ih hr
        refine ⟨w :: done, w', rest, o :: outcomes, last, cause, stuck, rfl, hd, ?_, hw, ?_, ?_⟩
        · rw [hs.commitWrites_eq, hc]
          rfl
        · rw [hf, createdPaths_cons o outcomes, List.append_assoc]
        · rw [ht, createdPaths_cons o outcomes, List.append_assoc]
    · rw [commitWrites_stuck hd hw] at h
      simp only [Prod.mk.injEq, Except.error.injEq] at h
      exact ⟨[], w, ws, [], tree, cause, stuck, rfl, hd, rfl, hw, h.1.symm, h.2.symm⟩

theorem commit_error {tx : Transaction} (hf : tx.commit tree = (.error failure, tree')) :
    ∃ rolledBack cause, failure = .commitFailed rolledBack cause := by
  unfold commit at hf
  split at hf
  · cases hf
  · obtain ⟨_, _, _, _, _, cause, _, _, _, _, _, hfail, _⟩ := commitWrites_error hf
    exact ⟨_, cause, hfail⟩

/-- The writes that a commit carries out before it ends. -/
def carriedOut (tree : σ) (base : Path) : List PlannedWrite → List PlannedWrite
  | [] => []
  | w :: ws =>
    if w.decision = .skip then w :: carriedOut tree base ws
    else
      match write tree base w.artifact with
      | (.error _, _) => []
      | (.ok _, tree) => w :: carriedOut tree base ws

theorem Step.carriedOut_eq (h : Step base w tree o tree') (ws : List PlannedWrite) :
    carriedOut tree base (w :: ws) = w :: carriedOut tree' base ws := by
  cases h with
  | skip hd => simp [carriedOut, hd]
  | create hd hw => simp [carriedOut, hd, hw]
  | overwrite hd hw => simp [carriedOut, hd, hw]

theorem carriedOut_stuck (hd : w.decision ≠ .skip)
    (hw : write tree base w.artifact = (.error cause, stuck)) (ws : List PlannedWrite) :
    carriedOut tree base (w :: ws) = [] := by
  simp [carriedOut, hd, hw]

/-- Writes whose commit succeeds are all carried out. -/
theorem carriedOut_append (h : commitWrites tree base created done = (.ok outcomes, tree'))
    (ws : List PlannedWrite) :
    carriedOut tree base (done ++ ws) = done ++ carriedOut tree' base ws := by
  induction done generalizing tree created outcomes with
  | nil =>
    simp only [commitWrites, Prod.mk.injEq] at h
    rw [h.2]
    rfl
  | cons w done ih =>
    obtain ⟨o, rest, middle, rfl, hs, hr⟩ := commitWrites_cons_ok h
    rw [List.cons_append, hs.carriedOut_eq, ih hr, List.cons_append]

theorem carriedOut_of_ok (h : commitWrites tree base created ws = (.ok outcomes, tree')) :
    carriedOut tree base ws = ws := by
  simpa [carriedOut] using carriedOut_append h []

-- ---------------------------------------------------------------------------
-- Rolling back
-- ---------------------------------------------------------------------------

/-- The removals of a roll back, each with whether it succeeded. -/
def removals (tree : σ) : List Path → List (Path × Bool)
  | [] => []
  | path :: paths =>
    match removeFile tree path with
    | (.ok (), tree) => (path, true) :: removals tree paths
    | (.error _, tree) => (path, false) :: removals tree paths

theorem removals_fst (tree : σ) (paths : List Path) :
    (removals tree paths).map Prod.fst = paths := by
  induction paths generalizing tree with
  | nil => rfl
  | cons path paths ih =>
    rcases hr : removeFile tree path with ⟨_ | _, tree'⟩ <;> simp [removals, hr, ih]

/-- The files whose removal succeeded. -/
def erased (tree : σ) (paths : List Path) : List Path :=
  ((removals tree paths).filter Prod.snd).map Prod.fst

variable {paths : List Path} {p q : Path} {gone gone' : Bool}

theorem mem_erased : p ∈ erased tree paths ↔ (p, true) ∈ removals tree paths := by
  simp [erased]

theorem mem_of_mem_erased (h : p ∈ erased tree paths) : p ∈ paths := by
  rw [← removals_fst tree paths]
  exact List.mem_map_of_mem (mem_erased.mp h)

theorem exists_mem_removals (tree : σ) (h : p ∈ paths) :
    ∃ gone, (p, gone) ∈ removals tree paths := by
  rw [← removals_fst tree paths] at h
  obtain ⟨call, hc, rfl⟩ := List.mem_map.mp h
  exact ⟨call.2, hc⟩

/-- A file is removed by one call only. -/
theorem gone_unique (hd : (paths.map Path.components).Nodup) (hp : (p, gone) ∈ removals tree paths)
    (hq : (q, gone') ∈ removals tree paths) (h : p.components = q.components) : gone = gone' := by
  rw [← removals_fst tree paths, List.map_map] at hd
  have := List.inj_on_of_nodup_map hd hp hq h
  exact congrArg Prod.snd this

theorem erased_eq_self (h : ∀ call ∈ removals tree paths, call.2 = true) :
    erased tree paths = paths := by
  rw [erased, List.filter_eq_self.mpr h, removals_fst]

/-- A roll back counts the removals that succeeded. -/
theorem rollBack_fst (tree : σ) (paths : List Path) :
    (rollBack tree paths).1 = (removals tree paths).countP Prod.snd := by
  induction paths generalizing tree with
  | nil => rfl
  | cons path paths ih =>
    rcases hr : removeFile tree path with ⟨_ | _, tree'⟩ <;> simp [removals, rollBack, hr, ih]

end Scaffold.Transaction
