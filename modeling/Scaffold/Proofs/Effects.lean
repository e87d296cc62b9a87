import Scaffold.Proofs.DryRuns
import Scaffold.Proofs.Insertions

/-!
# What a run does to the tree

In memory a run enters the directories on the way to the files it writes and
inserts the files. What it writes and what it reports is told by which of its
targets are there, and by nothing else in the tree.
-/

namespace Scaffold

open ProjectTree

namespace MemoryTree

-- ---------------------------------------------------------------------------
-- Entering directories
-- ---------------------------------------------------------------------------

/-- The tree in which all the directories are there, each added and counted if it was missing. -/
def enterAll (t : MemoryTree) (ps : List Path) : MemoryTree := ps.foldl enter t

variable {t : MemoryTree} {p q : Path} {ps qs : List Path}

@[simp] theorem enterAll_nil (t : MemoryTree) : t.enterAll [] = t := rfl

@[simp] theorem enterAll_cons (t : MemoryTree) (p : Path) (ps : List Path) :
    t.enterAll (p :: ps) = (t.enter p).enterAll ps := rfl

theorem enterAll_append (t : MemoryTree) (ps qs : List Path) :
    t.enterAll (ps ++ qs) = (t.enterAll ps).enterAll qs :=
  List.foldl_append

theorem enter_of_hasDirectory (h : t.hasDirectory p = true) : t.enter p = t := if_pos h

theorem enterAll_of_hasDirectory (h : ∀ p ∈ ps, t.hasDirectory p = true) : t.enterAll ps = t := by
  induction ps with
  | nil => rfl
  | cons p ps ih =>
    rw [List.forall_mem_cons] at h
    rw [enterAll_cons, enter_of_hasDirectory h.1, ih h.2]

theorem hasDirectory_enterAll :
    (t.enterAll ps).hasDirectory q = true ↔
      t.hasDirectory q = true ∨ ∃ p ∈ ps, p.components = q.components := by
  induction ps generalizing t with
  | nil => simp
  | cons p ps ih => simp [ih, hasDirectory_enter, or_assoc]

/-- Directories that have been entered are there. -/
theorem enterAll_enterAll (h : qs ⊆ ps) : (t.enterAll ps).enterAll qs = t.enterAll ps :=
  enterAll_of_hasDirectory fun q hq => hasDirectory_enterAll.mpr (.inr ⟨q, h hq, rfl⟩)

theorem enter_withFiles (t : MemoryTree) (m : PathMap String) (p : Path) :
    enter { t with files := m } p = { t.enter p with files := m } := by
  by_cases h : t.hasDirectory p = true <;> simp [enter, hasDirectory] at * <;> simp [h]

theorem enterAll_withFiles (t : MemoryTree) (m : PathMap String) (ps : List Path) :
    enterAll { t with files := m } ps = { t.enterAll ps with files := m } := by
  induction ps generalizing t with
  | nil => rfl
  | cons p ps ih => rw [enterAll_cons, enter_withFiles, ih, enterAll_cons]

theorem descend_snd (t : MemoryTree) (base : Path) (names : List String) :
    (descend t base names).2 = t.enterAll (passed base names) := by
  induction names generalizing t base with
  | nil => rfl
  | cons name names ih => rw [descend_cons, ih, passed, enterAll_cons]

end MemoryTree

namespace Transaction

-- ---------------------------------------------------------------------------
-- Commits
-- ---------------------------------------------------------------------------

/-- The directories on the way to the files that the writes put somewhere. -/
def ways (base : Path) (ws : List PlannedWrite) : List Path :=
  (ws.filter (·.decision ≠ .skip)).flatMap fun w => passed base (segments w.artifact.relativePath)

theorem ways_append (base : Path) (ws more : List PlannedWrite) :
    ways base (ws ++ more) = ways base ws ++ ways base more := by
  simp [ways]

theorem perform_of_skip {base : Path} {w : PlannedWrite} (h : w.decision = .skip)
    (t : MemoryTree) : perform base t w = t := if_pos h

/-- The tree that writes leave in memory. -/
theorem foldl_perform (base : Path) (t : MemoryTree) (ws : List PlannedWrite) :
    ws.foldl (perform base) t =
      { t.enterAll (ways base ws) with files := t.files.insertAll (entries base ws) } := by
  induction ws generalizing t with
  | nil => rfl
  | cons w ws ih =>
    rw [List.foldl_cons, ih]
    by_cases hd : w.decision = .skip
    · simp [perform, ways, entries, hd]
    · simp [perform, ways, entries, hd, MemoryTree.descend_snd, MemoryTree.enterAll_append,
        MemoryTree.enterAll_withFiles]

theorem foldl_perform_of_skip {base : Path} {ws : List PlannedWrite}
    (h : ∀ w ∈ ws, w.decision = .skip) (t : MemoryTree) : ws.foldl (perform base) t = t := by
  induction ws with
  | nil => rfl
  | cons w ws ih =>
    rw [List.forall_mem_cons] at h
    rw [List.foldl_cons, perform_of_skip h.1, ih h.2]

theorem entries_of_skip {base : Path} {ws : List PlannedWrite}
    (h : ∀ w ∈ ws, w.decision = .skip) : entries base ws = [] := by
  rw [entries, List.filter_eq_nil_iff.mpr fun w hw => by simp [h w hw], List.map_nil]

/-- The outcomes of a commit where no change fails. -/
def outcomes (tx : Transaction) : List Outcome :=
  match tx.baseDirectory with
  | none => tx.writes.map fun w => PlannedWrite.outcome w .skipped
  | some dir => tx.writes.map (report dir)

theorem commit_memory (tx : Transaction) (t : MemoryTree) : (tx.commit t).1 = .ok tx.outcomes := by
  unfold commit outcomes
  cases tx.baseDirectory with
  | none => rfl
  | some dir => simp only [commitWrites_memory]

theorem Separate.apart {σ : Type} [ProjectTree σ] {dir : Path} {as : List Artifact}
    (hs : Separate (some dir) as) (tree : σ) (policy : CollisionPolicy) :
    PathMap.Apart (entries dir (as.map (planWrite tree (some dir) policy))) :=
  hs.nodup_entries

end Transaction

-- ---------------------------------------------------------------------------
-- Runs
-- ---------------------------------------------------------------------------

namespace Call

open Transaction

/-- The directory that the writes of a call start from; where there is none, no write does. -/
def base (c : Call) : Path := c.context.baseDirectory.getD ⟨""⟩

/-- What a call is going to write, as far as it comes to that. -/
def writes {σ : Type} [ProjectTree σ] (c : Call) (tree : σ) : List PlannedWrite :=
  match c.entity? with
  | .error _ => []
  | .ok e =>
    match c.plan tree e with
    | .error _ => []
    | .ok tx => if c.settings.dryRun then [] else tx.writes

variable {σ τ : Type} [ProjectTree σ] [ProjectTree τ] {c : Call} {e : Entity} {tx : Transaction}

theorem writes_of_committed {tree : σ} (he : c.entity? = .ok e) (hp : c.plan tree e = .ok tx)
    (hd : c.settings.dryRun = false) : c.writes tree = tx.writes := by
  simp [writes, he, hp, hd]

/-- Plans for one entity are told by which targets are there. -/
theorem plan_congr {tree : σ} {tree' : τ} (he : c.entity? = .ok e)
    (h : ∀ p ∈ c.targets, fileExists tree p = fileExists tree' p) :
    c.plan tree e = c.plan tree' e := by
  unfold plan
  cases hb : c.context.baseDirectory with
  | none => rfl
  | some dir =>
    rw [targets_eq he hb, Artifact.targets, List.forall_mem_map] at h
    exact plan_eq_iff.mpr h

theorem writes_congr {tree : σ} {tree' : τ}
    (h : ∀ p ∈ c.targets, fileExists tree p = fileExists tree' p) :
    c.writes tree = c.writes tree' := by
  unfold writes
  cases he : c.entity? with
  | error failure => rfl
  | ok e => simp only [plan_congr he h]

/-- The writes of a call are none, or those planned for the artifacts of its entity. -/
theorem writes_eq (c : Call) (tree : σ) :
    c.writes tree = [] ∨ ∃ e, c.entity? = .ok e ∧ c.writes tree =
      (Artifact.generateAll e c.context).map
        (planWrite tree c.context.baseDirectory c.settings.policy) := by
  unfold writes
  split
  · exact .inl rfl
  · next e he =>
    split
    · exact .inl rfl
    · next tx hp =>
      split
      · exact .inl rfl
      · obtain ⟨rfl, -⟩ := plan_ok hp
        exact .inr ⟨e, he, rfl⟩

/-- What a call writes goes to its targets. -/
theorem exists_target_of_mem_entries {tree : σ} {entry : Path × String}
    (h : entry ∈ entries c.base (c.writes tree)) :
    ∃ p ∈ c.targets, p.components = entry.1.components := by
  rcases c.writes_eq tree with hw | ⟨e, he, hw⟩
  · simp [hw, entries] at h
  · rw [hw] at h
    cases hb : c.context.baseDirectory with
    | none =>
      rw [hb, entries_of_skip (List.forall_mem_map.mpr fun a _ => rfl)] at h
      cases h
    | some dir =>
      rw [base, hb, Option.getD_some] at h
      obtain ⟨a, ha, -, rfl⟩ := mem_entries_planned.mp h
      refine ⟨target dir a, ?_, ?_⟩
      · rw [targets_eq he hb]
        exact List.mem_map_of_mem ha
      · exact (components_site ((separate_generateAll none e c.context).relative a ha)).symm

theorem apart_entries (c : Call) (tree : σ) :
    PathMap.Apart (entries c.base (c.writes tree)) := by
  rcases c.writes_eq tree with hw | ⟨e, -, hw⟩
  · simp [hw, entries, PathMap.Apart]
  · rw [hw]
    cases hb : c.context.baseDirectory with
    | none =>
      rw [entries_of_skip (List.forall_mem_map.mpr fun a _ => rfl)]
      exact List.nodup_nil
    | some dir =>
      rw [base, hb]
      exact (separate_generateAll (some dir) e c.context).apart ..

end Call

namespace Scaffolder

open Transaction

variable {σ : Type} [ProjectTree σ] {s : Scaffolder σ} {c : Call} {e : Entity}
  {tx : Transaction}

theorem call_eq_place (s : Scaffolder σ) (he : c.entity? = .ok e) :
    s.call c =
      let placed := place ⟨s.tree, c.settings, .generating⟩ c.source.path e
      (placed.1, ⟨placed.2, c.settings, .idle⟩) := by
  rw [Call.entity?] at he
  simp only [call, generate, he]

theorem call_committed (he : c.entity? = .ok e) (hp : c.plan s.tree e = .ok tx)
    (hd : c.settings.dryRun = false) :
    s.call c =
      ((tx.commit s.tree).1.map (c.report e), ⟨(tx.commit s.tree).2, c.settings, .idle⟩) := by
  rw [call_eq_place s he, place_committed hp hd]

/-- In memory a call carries out its writes. -/
theorem tree_call (s : Scaffolder MemoryTree) (c : Call) :
    (s.call c).2.tree = (c.writes s.tree).foldl (perform c.base) s.tree := by
  have hends := call_ends s c
  generalize (s.call c).1 = result at hends
  generalize (s.call c).2 = after at hends
  cases hends with
  | unresolved he => simp [Call.writes, he]
  | refused he hp => simp [Call.writes, he, hp]
  | dry he hp hd => simp [Call.writes, he, hp, hd]
  | committed he hp hd =>
    rw [Call.writes_of_committed he hp hd]
    obtain ⟨rfl, -⟩ := plan_ok hp
    cases hb : c.context.baseDirectory with
    | none => exact (foldl_perform_of_skip (List.forall_mem_map.mpr fun a _ => rfl) s.tree).symm
    | some dir =>
      rw [Call.base, hb]
      exact congrArg Prod.snd (commitWrites_memory s.tree dir [] _)

theorem result_call {s : Scaffolder MemoryTree} (he : c.entity? = .ok e)
    (hp : c.plan s.tree e = .ok tx) (hd : c.settings.dryRun = false) :
    (s.call c).1 = .ok (c.report e tx.outcomes) := by
  rw [call_committed he hp hd, commit_memory]
  rfl

/-- What a call answers in memory is told by which of its targets are there. -/
theorem result_call_congr {s s' : Scaffolder MemoryTree}
    (h : ∀ p ∈ c.targets, fileExists s.tree p = fileExists s'.tree p) :
    (s.call c).1 = (s'.call c).1 := by
  cases he : c.entity? with
  | error failure => rw [call_unresolved he, call_unresolved he]
  | ok e =>
    rw [call_resolved he, call_resolved he]
    cases hp : c.plan s.tree e with
    | error failure => rw [place_refused hp, place_refused ((Call.plan_congr he h).symm.trans hp)]
    | ok tx =>
      have hp' := (Call.plan_congr he h).symm.trans hp
      cases hd : c.settings.dryRun with
      | true => rw [place_dry hp hd, place_dry hp' hd]
      | false =>
        rw [place_committed hp hd, place_committed hp' hd, commit_memory, commit_memory]

end Scaffolder

end Scaffold
