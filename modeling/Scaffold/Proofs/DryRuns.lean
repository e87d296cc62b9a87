import Scaffold.Proofs.Runs

/-!
# Dry runs foretell

A dry run and the run it stands for look at the tree once, in the same plan.
Where the dry run fails, so does the other, for the same reason; where it
succeeds, the other reports the same files in the same order, or its commit
fails on the way.
-/

namespace Scaffold

open ProjectTree MemoryBacked Transaction

/-- What a dry run says of an artifact, beside what came of it. -/
structure Outcome.Foretells (dry done : Outcome) : Prop where
  kind : dry.kind = done.kind
  path : dry.path.components = done.path.components
  planned : dry.status = .planned ↔ done.status = .created ∨ done.status = .overwritten
  skipped : dry.status = .skipped ↔ done.status = .skipped

namespace Transaction

variable {σ : Type} [ProjectTree σ] {tree tree' : σ} {base : Option Path}
  {policy : CollisionPolicy} {as : List Artifact} {tx : Transaction} {outcomes : List Outcome}

theorem preview_foretells_report {dir : Path} {a : Artifact}
    (hr : (Path.mk a.relativePath).isAbsolute = false) :
    Outcome.Foretells
      (PlannedWrite.outcome (planWrite tree (some dir) policy a)
        (if (planWrite tree (some dir) policy a).decision = .skip then .skipped else .planned))
      (report dir (planWrite tree (some dir) policy a)) := by
  have hsite : (destination dir a).components = (site (some dir) a).components :=
    components_site hr
  cases hd : (planWrite tree (some dir) policy a).decision with
  | skip =>
    simp only [report, hd]
    constructor <;> simp [PlannedWrite.outcome]
  | create =>
    simp only [report, hd]
    constructor <;> simp [PlannedWrite.outcome, planWrite_artifact, planWrite_path, hsite]
  | overwrite =>
    simp only [report, hd]
    constructor <;> simp [PlannedWrite.outcome, planWrite_artifact, planWrite_path, hsite]

/-- A commit that succeeds on the tree it was planned on bears its preview out. -/
theorem preview_foretells [MemoryBacked σ]
    (hr : ∀ a ∈ as, (Path.mk a.relativePath).isAbsolute = false)
    (hp : plan tree base as policy = .ok tx) (hc : tx.commit tree = (.ok outcomes, tree')) :
    List.Forall₂ Outcome.Foretells tx.preview outcomes := by
  obtain ⟨rfl, -⟩ := plan_ok hp
  cases base with
  | none =>
    simp only [commit, Prod.mk.injEq, Except.ok.injEq] at hc
    obtain ⟨rfl, -⟩ := hc
    simp only [preview, List.map_map, List.forall₂_map_left_iff, List.forall₂_map_right_iff,
      List.forall₂_same]
    intro a ha
    constructor <;> simp [PlannedWrite.outcome, planWrite]
  | some dir =>
    have hmemory := commitWrites_ok hc
    rw [commitWrites_memory, Prod.mk.injEq, Except.ok.injEq] at hmemory
    obtain ⟨rfl, -⟩ := hmemory
    simp only [preview, List.map_map, List.forall₂_map_left_iff, List.forall₂_map_right_iff,
      List.forall₂_same]
    exact fun a ha => preview_foretells_report (hr a ha)

end Transaction

namespace Call

/-- The same call with or without the writing. -/
def withDry (c : Call) (dry : Bool) : Call :=
  { c with settings := { c.settings with dryRun := dry } }

end Call

namespace Scaffolder

/-- How a run may end when its dry run has ended: with the same failure; or, where the dry run
finds nothing in the way, in a failed commit or with the outcomes foretold. -/
inductive Predicts : Except Failure Report → Except Failure Report → Prop
  | refused {failure} : Predicts (.error failure) (.error failure)
  | failed {dry rolledBack cause} : Predicts (.ok dry) (.error (.commitFailed rolledBack cause))
  | succeeded {dry done : Report} : dry.entity = done.entity →
      dry.basePackage = done.basePackage → dry.baseDirectory = done.baseDirectory →
      List.Forall₂ Outcome.Foretells dry.outcomes done.outcomes → Predicts (.ok dry) (.ok done)

variable {σ : Type} [ProjectTree σ] {e : Entity} {failure : Failure}

theorem call_unresolved {s : Scaffolder σ} {c : Call} (he : c.entity? = .error failure) :
    (s.call c).1 = .error failure := by
  rw [Call.entity?] at he
  simp only [call, generate, he]

theorem call_resolved {s : Scaffolder σ} {c : Call} (he : c.entity? = .ok e) :
    (s.call c).1 = (place ⟨s.tree, c.settings, .generating⟩ c.source.path e).1 := by
  rw [Call.entity?] at he
  simp only [call, generate, he]

variable [MemoryBacked σ]

/-- A dry run predicts the run from the same tree, whichever changes of the tree fail. -/
theorem dry_run_predicts (s : Scaffolder σ) (c : Call) :
    Predicts (s.call (c.withDry true)).1 (s.call (c.withDry false)).1 := by
  cases he : c.entity? with
  | error failure =>
    rw [call_unresolved (c := c.withDry true) he, call_unresolved (c := c.withDry false) he]
    exact .refused
  | ok e =>
    rw [call_resolved (c := c.withDry true) he, call_resolved (c := c.withDry false) he]
    cases hp : c.plan s.tree e with
    | error failure =>
      rw [place_refused (c := c.withDry true) hp, place_refused (c := c.withDry false) hp]
      exact .refused
    | ok tx =>
      rw [place_dry (c := c.withDry true) hp rfl, place_committed (c := c.withDry false) hp rfl]
      have hrelative := (separate_generateAll c.context.baseDirectory e c.context).relative
      rcases hc : tx.commit s.tree with ⟨failure | outcomes, tree'⟩
      · obtain ⟨rolledBack, cause, rfl⟩ := commit_error hc
        exact .failed
      · exact .succeeded rfl rfl rfl (preview_foretells hrelative hp hc)

end Scaffolder

end Scaffold
