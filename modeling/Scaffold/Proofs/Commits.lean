import Mathlib.Data.List.Forall2
import Scaffold.Proofs.Destinations
import Scaffold.Proofs.MemoryBacked

/-!
# What a commit does

In memory no change fails, so a commit is a fold over its writes: the files
are those of before with the entries of the writes inserted, and the
directories those of before with the ones on the way to the written files.
`commit_exact` reads the report of a commit off this fold.
-/

namespace Scaffold

open ProjectTree

namespace ProjectTree

/-- The directories passed on the way down from `base`, without `base` itself. -/
def passed (base : Path) : List String → List Path
  | [] => []
  | name :: names => base.join name :: passed (base.join name) names

theorem passed_append (base : Path) (names more : List String) :
    passed base (names ++ more) =
      passed base names ++ passed (names.foldl Path.join base) more := by
  induction names generalizing base with
  | nil => rfl
  | cons name names ih =>
    rw [List.cons_append, passed, passed, ih, List.cons_append, List.foldl_cons]

end ProjectTree

namespace MemoryTree

variable (t : MemoryTree) (base p q : Path) (names : List String)

-- ---------------------------------------------------------------------------
-- Walking down
-- ---------------------------------------------------------------------------

/-- The tree in which a directory is there, added and counted if it was missing. -/
def enter : MemoryTree :=
  if t.hasDirectory p then t
  else { t with directories := t.directories.insert p (), created := t.created + 1 }

theorem hasDirectory_congr {p q : Path} (h : p.components = q.components) :
    t.hasDirectory p = t.hasDirectory q :=
  PathMap.contains_congr _ h

theorem hasDirectory_enter :
    (t.enter p).hasDirectory q = true ↔
      t.hasDirectory q = true ∨ p.components = q.components := by
  by_cases h : t.hasDirectory p = true
  · rw [enter, if_pos h]
    exact ⟨.inl, Or.rec id fun hq => t.hasDirectory_congr hq ▸ h⟩
  · rw [enter, if_neg h]
    simp [hasDirectory, PathMap.contains_insert, or_comm]

theorem created_enter :
    (t.enter p).created + t.directories.length =
      t.created + (t.enter p).directories.length := by
  by_cases h : t.hasDirectory p = true
  · rw [enter, if_pos h]
  · rw [enter, if_neg h]
    simp only [PathMap.length_insert () (Bool.eq_false_iff.mpr h)]
    omega

theorem descend_cons (name : String) :
    descend t base (name :: names) = descend (t.enter (base.join name)) (base.join name) names := by
  by_cases h : t.hasDirectory (base.join name) <;>
    simp [descend, findSubdirectory, createSubdirectory, enter, h]

theorem descend_fst : (descend t base names).1 = .ok (names.foldl Path.join base) := by
  induction names generalizing t base with
  | nil => rfl
  | cons name names ih => rw [descend_cons, ih, List.foldl_cons]

theorem files_descend : (descend t base names).2.files = t.files :=
  MemoryBacked.files_descend t base names

theorem hasDirectory_descend :
    (descend t base names).2.hasDirectory q = true ↔
      t.hasDirectory q = true ∨ ∃ p ∈ passed base names, p.components = q.components := by
  induction names generalizing t base with
  | nil => simp [descend, passed]
  | cons name names ih =>
    rw [descend_cons, ih, hasDirectory_enter, passed]
    simp [or_assoc]

/-- As many directories are counted as are added. -/
theorem created_descend :
    (descend t base names).2.created + t.directories.length =
      t.created + (descend t base names).2.directories.length := by
  induction names generalizing t base with
  | nil => rfl
  | cons name names ih =>
    have hstep := t.created_enter (base.join name)
    have hrest := ih (t.enter (base.join name)) (base.join name)
    rw [descend_cons]
    omega

end MemoryTree

namespace Transaction

open MemoryTree

-- ---------------------------------------------------------------------------
-- Commits in memory
-- ---------------------------------------------------------------------------

variable {σ : Type} [ProjectTree σ]

/-- The tree a write leaves in memory. -/
def perform (base : Path) (t : MemoryTree) (w : PlannedWrite) : MemoryTree :=
  if w.decision = .skip then t
  else
    { (descend t base (segments w.artifact.relativePath)).2 with
      files := t.files.insert (destination base w.artifact) w.artifact.content }

/-- The outcome a write has in memory. -/
def report (base : Path) (w : PlannedWrite) : Outcome :=
  match w.decision with
  | .skip => PlannedWrite.outcome w .skipped
  | .create => ⟨w.artifact.kind, destination base w.artifact, .created⟩
  | .overwrite => ⟨w.artifact.kind, destination base w.artifact, .overwritten⟩

/-- What the writes put into the files. -/
def entries (base : Path) (ws : List PlannedWrite) : List (Path × String) :=
  (ws.filter (·.decision ≠ .skip)).map fun w =>
    (destination base w.artifact, w.artifact.content)

theorem write_memory (t : MemoryTree) (base : Path) (a : Artifact) :
    write t base a =
      (.ok (destination base a),
        { (descend t base (segments a.relativePath)).2 with
          files := t.files.insert (destination base a) a.content }) := by
  have hd := t.descend_fst base (segments a.relativePath)
  have hf := t.files_descend base (segments a.relativePath)
  rcases h : descend t base (segments a.relativePath) with ⟨result, walked⟩
  rw [h] at hd hf
  simp only at hd hf
  simp [write, ensureSubdirectories, h, hd, insertTextFile, destination, hf]

theorem step_perform (base : Path) (t : MemoryTree) (w : PlannedWrite) :
    Step base w t (report base w) (perform base t w) := by
  cases hd : w.decision with
  | skip => simpa [perform, report, hd] using Step.skip hd
  | create => simpa [perform, report, hd] using Step.create hd (write_memory t base w.artifact)
  | overwrite =>
    simpa [perform, report, hd] using Step.overwrite hd (write_memory t base w.artifact)

theorem commitWrites_memory (t : MemoryTree) (base : Path) (created : List Path)
    (ws : List PlannedWrite) :
    commitWrites t base created ws = (.ok (ws.map (report base)), ws.foldl (perform base) t) := by
  induction ws generalizing t created with
  | nil => rfl
  | cons w ws ih =>
    rw [(step_perform base t w).commitWrites_eq, ih]
    rfl

theorem report_kind (base : Path) (w : PlannedWrite) : (report base w).kind = w.artifact.kind := by
  cases hd : w.decision <;> simp [report, hd, PlannedWrite.outcome]

theorem report_created (base : Path) (w : PlannedWrite) :
    (report base w).status = .created ↔ w.decision = .create := by
  cases hd : w.decision <;> simp [report, hd, PlannedWrite.outcome]

theorem report_overwritten (base : Path) (w : PlannedWrite) :
    (report base w).status = .overwritten ↔ w.decision = .overwrite := by
  cases hd : w.decision <;> simp [report, hd, PlannedWrite.outcome]

theorem report_skipped (base : Path) (w : PlannedWrite) :
    (report base w).status = .skipped ↔ w.decision = .skip := by
  cases hd : w.decision <;> simp [report, hd, PlannedWrite.outcome]

theorem createdPaths_report (base : Path) (ws : List PlannedWrite) :
    createdPaths (ws.map (report base)) =
      ((ws.filter (·.decision = .create)).map fun w => destination base w.artifact).reverse := by
  induction ws with
  | nil => rfl
  | cons w ws ih =>
    rw [List.map_cons, createdPaths_cons, ih]
    cases hd : w.decision <;> simp [createdPaths, report, hd, PlannedWrite.outcome]

theorem files_foldl_perform (base : Path) (t : MemoryTree) (ws : List PlannedWrite) :
    (ws.foldl (perform base) t).files = t.files.insertAll (entries base ws) := by
  induction ws generalizing t with
  | nil => rfl
  | cons w ws ih =>
    rw [List.foldl_cons, ih]
    by_cases hd : w.decision = .skip <;> simp [perform, entries, hd, PathMap.insertAll]

theorem hasDirectory_foldl_perform (base q : Path) (t : MemoryTree) (ws : List PlannedWrite) :
    (ws.foldl (perform base) t).hasDirectory q = true ↔
      t.hasDirectory q = true ∨ ∃ w ∈ ws, w.decision ≠ .skip ∧
        ∃ p ∈ passed base (segments w.artifact.relativePath), p.components = q.components := by
  induction ws generalizing t with
  | nil => simp
  | cons w ws ih =>
    have hw : (perform base t w).hasDirectory q = true ↔
        t.hasDirectory q = true ∨ w.decision ≠ .skip ∧
          ∃ p ∈ passed base (segments w.artifact.relativePath), p.components = q.components := by
      by_cases hd : w.decision = .skip
      · simp [perform, hd]
      · simpa [perform, hd, hasDirectory] using
          t.hasDirectory_descend base q (segments w.artifact.relativePath)
    rw [List.foldl_cons, ih, hw]
    simp [or_assoc]

theorem created_foldl_perform (base : Path) (t : MemoryTree) (ws : List PlannedWrite) :
    (ws.foldl (perform base) t).created + t.directories.length =
      t.created + (ws.foldl (perform base) t).directories.length := by
  induction ws generalizing t with
  | nil => rfl
  | cons w ws ih =>
    have hw : (perform base t w).created + t.directories.length =
        t.created + (perform base t w).directories.length := by
      by_cases hd : w.decision = .skip
      · simp [perform, hd]
      · simpa [perform, hd] using t.created_descend base (segments w.artifact.relativePath)
    have hrest := ih (perform base t w)
    rw [List.foldl_cons]
    omega

-- ---------------------------------------------------------------------------
-- Plans
-- ---------------------------------------------------------------------------

/-- The file planned for an artifact; without a base directory its place alone. -/
def site (base : Option Path) (a : Artifact) : Path :=
  base.elim (place a) (target · a)

/-- Artifacts that can be committed together: each goes below the base directory and no two go to
one file. Those of an entity are separate (`separate_generateAll`). -/
structure Separate (base : Option Path) (as : List Artifact) : Prop where
  relative : ∀ a ∈ as, (Path.mk a.relativePath).isAbsolute = false
  distinct : (as.map fun a => (site base a).components).Nodup

/-- The artifact is left out: there is no place for it, or a file that is to be kept. -/
def Skipped (tree : σ) (base : Option Path) (policy : CollisionPolicy) (a : Artifact) : Prop :=
  base = none ∨ fileExists tree (site base a) = true ∧ policy = .skip

section
variable {tree : σ} {base : Option Path} {policy : CollisionPolicy} {a : Artifact}
  {as : List Artifact} {tx : Transaction}

theorem planWrite_artifact : (planWrite tree base policy a).artifact = a := by
  cases base <;> rfl

theorem planWrite_path : (planWrite tree base policy a).path = site base a := by
  cases base <;> rfl

theorem decision_eq_skip :
    (planWrite tree base policy a).decision = .skip ↔ Skipped tree base policy a := by
  cases base with
  | none => simp [planWrite, Skipped]
  | some dir =>
    by_cases he : fileExists tree (target dir a) <;> by_cases hp : policy = .skip <;>
      simp [planWrite, decisionFor, Skipped, site, he, hp]

theorem decision_eq_create :
    (planWrite tree base policy a).decision = .create ↔
      base ≠ none ∧ fileExists tree (site base a) = false := by
  cases base with
  | none => simp [planWrite]
  | some dir =>
    by_cases he : fileExists tree (target dir a) <;> by_cases hp : policy = .skip <;>
      simp [planWrite, decisionFor, site, he, hp]

theorem decision_eq_overwrite :
    (planWrite tree base policy a).decision = .overwrite ↔
      base ≠ none ∧ fileExists tree (site base a) = true ∧ policy ≠ .skip := by
  cases base with
  | none => simp [planWrite]
  | some dir =>
    by_cases he : fileExists tree (target dir a) <;> by_cases hp : policy = .skip <;>
      simp [planWrite, decisionFor, site, he, hp]

theorem plan_ok (h : plan tree base as policy = .ok tx) :
    tx = ⟨base, as.map (planWrite tree base policy)⟩ ∧
      (policy = .error → ∀ a ∈ as, (planWrite tree base policy a).decision ≠ .overwrite) := by
  simp only [plan] at h
  split at h
  · cases h
  · rename_i hc
    cases h
    refine ⟨rfl, fun hp a ha hd => hc ⟨hp, fun he => ?_⟩⟩
    simp only [collisions, List.map_eq_nil_iff, List.filter_eq_nil_iff] at he
    exact he _ (List.mem_map_of_mem ha) (by simpa using hd)

/-- Only the overwriting policy plans to replace a file. -/
theorem overwrite_of_plan (h : plan tree base as policy = .ok tx) (ha : a ∈ as)
    (hd : (planWrite tree base policy a).decision = .overwrite) : policy = .overwrite := by
  cases policy with
  | error => exact absurd hd ((plan_ok h).2 rfl a ha)
  | skip => exact absurd rfl (decision_eq_overwrite.mp hd).2.2
  | overwrite => rfl

/-- Only the error policy refuses to plan, and it tells the files that are there. -/
theorem plan_error {failure : Failure} (h : plan tree base as policy = .error failure) :
    ∃ dir paths, base = some dir ∧ policy = .error ∧ failure = .artifactsExist paths ∧
      paths ≠ [] ∧ paths = (as.map (target dir)).filter (fileExists tree) := by
  simp only [plan] at h
  split at h
  · rename_i hc
    cases h
    obtain ⟨rfl, hne⟩ := hc
    cases base with
    | none => simp [collisions, planWrite, List.filter_map, Function.comp_def] at hne
    | some dir =>
      have hd : ∀ a, decide ((planWrite tree (some dir) .error a).decision = .overwrite) =
          fileExists tree (target dir a) := fun a => by
        rw [Bool.eq_iff_iff, decide_eq_true_iff, decision_eq_overwrite]
        simp [site]
      refine ⟨dir, _, rfl, rfl, rfl, hne, ?_⟩
      simp [collisions, List.filter_map, Function.comp_def, hd, planWrite_path, site]
  · cases h

variable {dir q : Path}

/-- Plans differ only where the trees do not agree on which files are there. -/
theorem plan_eq_iff {τ : Type} [ProjectTree τ] {tree' : τ} :
    plan tree (some dir) as policy = plan tree' (some dir) as policy ↔
      ∀ a ∈ as, fileExists tree (target dir a) = fileExists tree' (target dir a) := by
  constructor
  · intro h a ha
    cases hp : plan tree (some dir) as policy with
    | ok tx =>
      have hwrites := congrArg Transaction.writes
        ((plan_ok hp).1.symm.trans (plan_ok (h.symm.trans hp)).1)
      have hwrite := List.map_inj_left.mp hwrites a ha
      have hcreate := congrArg (fun w : PlannedWrite => w.decision = .create) hwrite
      simpa [decision_eq_create, site] using hcreate
    | error failure =>
      obtain ⟨_, paths, ⟨⟩, -, rfl, -, hpaths⟩ := plan_error hp
      obtain ⟨_, _, ⟨⟩, -, ⟨⟩, -, hpaths'⟩ := plan_error (h.symm.trans hp)
      have hmem : target dir a ∈ as.map (target dir) := List.mem_map_of_mem ha
      have hlisted := congrArg (target dir a ∈ ·) (hpaths.symm.trans hpaths')
      simp only [List.mem_filter, hmem, true_and] at hlisted
      exact Bool.eq_iff_iff.mpr hlisted.to_iff
  · intro h
    have hwrites : as.map (planWrite tree (some dir) policy) =
        as.map (planWrite tree' (some dir) policy) :=
      List.map_congr_left fun a ha => by simp only [planWrite, h a ha]
    simp only [plan, hwrites]

theorem components_site (h : (Path.mk a.relativePath).isAbsolute = false) :
    (destination dir a).components = (site (some dir) a).components :=
  components_destination h dir

theorem entries_planned :
    entries dir (as.map (planWrite tree (some dir) policy)) =
      (as.filter fun a => (planWrite tree (some dir) policy a).decision ≠ .skip).map
        fun a => (destination dir a, a.content) := by
  simp [entries, List.filter_map, Function.comp_def, planWrite_artifact]

theorem mem_entries_planned {entry : Path × String} :
    entry ∈ entries dir (as.map (planWrite tree (some dir) policy)) ↔
      ∃ a ∈ as, ¬ Skipped tree (some dir) policy a ∧ (destination dir a, a.content) = entry := by
  simp [entries_planned, ← decision_eq_skip, and_assoc]

theorem Separate.nodup_entries (hs : Separate (some dir) as) :
    ((entries dir (as.map (planWrite tree (some dir) policy))).map
      fun entry => entry.1.components).Nodup := by
  have hsite : ∀ a ∈ as.filter fun a => (planWrite tree (some dir) policy a).decision ≠ .skip,
      (destination dir a).components = (site (some dir) a).components := fun a ha =>
    components_site (hs.relative a (List.mem_filter.mp ha).1)
  rw [entries_planned, List.map_map]
  change (List.map (fun a => (destination dir a).components) _).Nodup
  rw [List.map_congr_left hsite]
  exact hs.distinct.sublist (List.filter_sublist.map _)

/-- The files written by artifacts that are committed together hold what was written. -/
theorem get?_entries (hs : Separate (some dir) as) (ha : a ∈ as)
    (hk : ¬ Skipped tree (some dir) policy a) (m : PathMap String) :
    (m.insertAll (entries dir (as.map (planWrite tree (some dir) policy)))).get?
      (site (some dir) a) = some a.content := by
  rw [← PathMap.get?_congr _ (components_site (hs.relative a ha))]
  exact PathMap.get?_insertAll_of_mem hs.nodup_entries (mem_entries_planned.mpr ⟨a, ha, hk, rfl⟩)

theorem get?_entries_of_ne (hr : ∀ a ∈ as, (Path.mk a.relativePath).isAbsolute = false)
    (hq : ∀ a ∈ as, ¬ Skipped tree (some dir) policy a →
      (site (some dir) a).components ≠ q.components) (m : PathMap String) :
    (m.insertAll (entries dir (as.map (planWrite tree (some dir) policy)))).get? q = m.get? q := by
  refine PathMap.get?_insertAll_of_ne fun entry hmem => ?_
  obtain ⟨a, ha, hk, rfl⟩ := mem_entries_planned.mp hmem
  rw [components_site (hr a ha)]
  exact hq a ha hk

end

-- ---------------------------------------------------------------------------
-- Exactness
-- ---------------------------------------------------------------------------

/-- The outcome of an artifact, told from the tree that its commit was planned on. -/
structure Reported (t : MemoryTree) (base : Option Path) (policy : CollisionPolicy) (a : Artifact)
    (o : Outcome) : Prop where
  kind : o.kind = a.kind
  path : o.path.components = (site base a).components
  created : o.status = .created ↔ base ≠ none ∧ fileExists t (site base a) = false
  overwritten : o.status = .overwritten ↔
    base ≠ none ∧ fileExists t (site base a) = true ∧ policy = .overwrite
  skipped : o.status = .skipped ↔ Skipped t base policy a

/-- The tree after a commit, told from the tree that the commit was planned on. -/
structure Committed (t t' : MemoryTree) (base : Option Path) (policy : CollisionPolicy)
    (as : List Artifact) : Prop where
  written : ∀ a ∈ as, ¬ Skipped t base policy a → t'.content? (site base a) = some a.content
  others : ∀ q : Path,
    (∀ a ∈ as, ¬ Skipped t base policy a → (site base a).components ≠ q.components) →
      t'.content? q = t.content? q
  directories : ∀ q : Path, t'.hasDirectory q = true ↔ t.hasDirectory q = true ∨
    ∃ dir, base = some dir ∧ ∃ a ∈ as, ¬ Skipped t base policy a ∧
      ∃ p ∈ passed dir (segments a.relativePath), p.components = q.components
  counted : t'.created + t.directories.length = t.created + t'.directories.length

theorem reported_skip (t : MemoryTree) (policy : CollisionPolicy) (a : Artifact) :
    Reported t none policy a
      (PlannedWrite.outcome (planWrite t none policy a) .skipped) where
  kind := rfl
  path := rfl
  created := by simp [PlannedWrite.outcome]
  overwritten := by simp [PlannedWrite.outcome]
  skipped := by simp [PlannedWrite.outcome, Skipped]

theorem reported_report {t : MemoryTree} {dir : Path} {policy : CollisionPolicy} {a : Artifact}
    (hr : (Path.mk a.relativePath).isAbsolute = false)
    (hp : (planWrite t (some dir) policy a).decision = .overwrite → policy = .overwrite) :
    Reported t (some dir) policy a (report dir (planWrite t (some dir) policy a)) where
  kind := by rw [report_kind, planWrite_artifact]
  path := by
    rw [← components_site hr]
    cases hd : (planWrite t (some dir) policy a).decision with
    | skip => simp only [report, hd, PlannedWrite.outcome, planWrite_path, components_site hr]
    | create => simp only [report, hd, planWrite_artifact]
    | overwrite => simp only [report, hd, planWrite_artifact]
  created := by rw [report_created, decision_eq_create]
  overwritten := by
    rw [report_overwritten]
    constructor
    · intro hd
      obtain ⟨hb, he, -⟩ := decision_eq_overwrite.mp hd
      exact ⟨hb, he, hp hd⟩
    · rintro ⟨hb, he, rfl⟩
      exact decision_eq_overwrite.mpr ⟨hb, he, by simp⟩
  skipped := by rw [report_skipped, decision_eq_skip]

theorem committed_perform {t : MemoryTree} {dir : Path} {policy : CollisionPolicy}
    {as : List Artifact} (hs : Separate (some dir) as) :
    Committed t ((as.map (planWrite t (some dir) policy)).foldl (perform dir) t) (some dir) policy
      as where
  written a ha hw := by
    rw [MemoryTree.content?, files_foldl_perform, get?_entries hs ha hw]
  others q h := by
    rw [MemoryTree.content?, files_foldl_perform, get?_entries_of_ne hs.relative h]
    rfl
  directories q := by
    rw [hasDirectory_foldl_perform]
    simp [planWrite_artifact, ← decision_eq_skip]
  counted := created_foldl_perform dir t _

/-- A commit on the tree it was planned on succeeds in memory and does what it reports. -/
theorem commit_exact (t : MemoryTree) (base : Option Path) (policy : CollisionPolicy)
    (as : List Artifact) (tx : Transaction) (hs : Separate base as)
    (hp : plan t base as policy = .ok tx) :
    ∃ outcomes t', tx.commit t = (.ok outcomes, t') ∧
      List.Forall₂ (Reported t base policy) as outcomes ∧ Committed t t' base policy as := by
  obtain ⟨rfl, -⟩ := plan_ok hp
  cases base with
  | none =>
    refine ⟨_, t, rfl, ?_, ?_⟩
    · simp only [List.map_map, List.forall₂_map_right_iff, List.forall₂_same]
      exact fun a _ => reported_skip t policy a
    · constructor <;> simp [Skipped]
  | some dir =>
    refine ⟨_, _, commitWrites_memory t dir [] _, ?_, committed_perform hs⟩
    simp only [List.map_map, List.forall₂_map_right_iff, List.forall₂_same]
    exact fun a ha => reported_report (hs.relative a ha) (overwrite_of_plan hp ha)

theorem commit_exact_skipping_service :
    let t := MemoryTree.withFile {} ⟨"app/service/AService.java"⟩ "old"
    let as : List Artifact :=
      [⟨.dto, "app.service.model", "service/model", "ADto.java", "new dto"⟩,
        ⟨.service, "app.service", "service", "AService.java", "new service"⟩]
    ∃ tx outcomes t', plan t (some ⟨"app"⟩) as .skip = .ok tx ∧ tx.commit t = (.ok outcomes, t') ∧
      List.Forall₂ (Reported t (some ⟨"app"⟩) .skip) as outcomes ∧
        Committed t t' (some ⟨"app"⟩) .skip as := by
  intro t as
  have hs : Separate (some ⟨"app"⟩) as := ⟨by decide +kernel, by decide +kernel⟩
  obtain ⟨outcomes, t', h⟩ := commit_exact t (some ⟨"app"⟩) .skip as _ hs rfl
  exact ⟨_, outcomes, t', rfl, h⟩

end Transaction

end Scaffold
