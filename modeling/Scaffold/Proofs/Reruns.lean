import Scaffold.Proofs.Effects

/-!
# Runs that are made again

After a run all its targets are there, under the paths where the next run
looks them up. So the next run skips all of them, refuses, or overwrites all
of them with what they hold already, and the tree stays as it is.
-/

namespace Scaffold

open ProjectTree MemoryBacked

namespace Transaction

variable {σ : Type} [ProjectTree σ] {tree : σ} {t : MemoryTree} {dir : Path}
  {policy policy' : CollisionPolicy} {a : Artifact} {as : List Artifact}

-- ---------------------------------------------------------------------------
-- Plans where all files are there
-- ---------------------------------------------------------------------------

theorem plan_error_of_exists (hne : as ≠ [])
    (h : ∀ a ∈ as, fileExists tree (target dir a) = true) :
    plan tree (some dir) as .error = .error (.artifactsExist (as.map (target dir))) := by
  have hover : ∀ a ∈ as, (planWrite tree (some dir) .error a).decision = .overwrite :=
    fun a ha => decision_eq_overwrite.mpr ⟨by simp, h a ha, by simp⟩
  cases hp : plan tree (some dir) as .error with
  | ok tx =>
    obtain ⟨a, ha⟩ := List.exists_mem_of_ne_nil as hne
    exact absurd (hover a ha) ((plan_ok hp).2 rfl a ha)
  | error failure =>
    obtain ⟨_, paths, ⟨⟩, -, rfl, -, rfl⟩ := plan_error hp
    rw [List.filter_eq_self.mpr (List.forall_mem_map.mpr h)]

theorem statuses_outcomes {status : Status}
    (h : ∀ a ∈ as, (report dir (planWrite tree (some dir) policy a)).status = status) :
    (outcomes ⟨some dir, as.map (planWrite tree (some dir) policy)⟩).map
        (fun o => (o.kind, o.status)) =
      as.map fun a => (a.kind, status) := by
  simp only [outcomes, List.map_map]
  refine List.map_congr_left fun a ha => ?_
  simp only [Function.comp_apply, h a ha, report_kind, planWrite_artifact]

-- ---------------------------------------------------------------------------
-- Commits made again
-- ---------------------------------------------------------------------------

/-- After a commit every artifact is there, whether it was written or left out. -/
theorem fileExists_foldl_perform (hr : ∀ a ∈ as, (Path.mk a.relativePath).isAbsolute = false)
    (ha : a ∈ as) :
    fileExists ((as.map (planWrite t (some dir) policy)).foldl (perform dir) t) (target dir a) =
      true := by
  rw [foldl_perform]
  change PathMap.contains (PathMap.insertAll _ _) _ = true
  rw [PathMap.contains_insertAll, Bool.or_eq_true, List.any_eq_true]
  by_cases hk : Skipped t (some dir) policy a
  · obtain hnone | ⟨hthere, -⟩ := hk
    · cases hnone
    · exact .inl hthere
  · exact .inr ⟨_, mem_entries_planned.mpr ⟨a, ha, hk, rfl⟩,
      Path.same_iff.mpr (components_site (hr a ha))⟩

/-- What is written does not depend on the tree, where nothing is left out. -/
theorem entries_of_not_skip (h : ∀ a ∈ as, (planWrite tree (some dir) policy a).decision ≠ .skip) :
    entries dir (as.map (planWrite tree (some dir) policy)) =
      as.map fun a => (destination dir a, a.content) := by
  rw [entries_planned, List.filter_eq_self.mpr fun a ha => by simpa using h a ha]

theorem ways_of_not_skip (h : ∀ a ∈ as, (planWrite tree (some dir) policy a).decision ≠ .skip) :
    ways dir (as.map (planWrite tree (some dir) policy)) =
      as.flatMap fun a => passed dir (segments a.relativePath) := by
  have hall : (as.map (planWrite tree (some dir) policy)).filter (·.decision ≠ .skip) =
      as.map (planWrite tree (some dir) policy) :=
    List.filter_eq_self.mpr (List.forall_mem_map.mpr fun a ha => by simpa using h a ha)
  rw [ways, hall, List.flatMap_map]
  simp only [planWrite_artifact]

/-- Writing all artifacts again, on whatever plan, changes nothing. -/
theorem foldl_perform_again (hs : Separate (some dir) as)
    (h : ∀ a ∈ as, (planWrite t (some dir) policy a).decision ≠ .skip)
    (h' : ∀ a ∈ as, (planWrite tree (some dir) policy' a).decision ≠ .skip) :
    let after := (as.map (planWrite t (some dir) policy)).foldl (perform dir) t
    (as.map (planWrite tree (some dir) policy')).foldl (perform dir) after = after := by
  have happart := hs.apart t policy
  rw [entries_of_not_skip h] at happart
  simp only [foldl_perform, entries_of_not_skip h, entries_of_not_skip h', ways_of_not_skip h,
    ways_of_not_skip h', MemoryTree.enterAll_withFiles,
    MemoryTree.enterAll_enterAll (List.Subset.refl _),
    PathMap.insertAll_insertAll happart (List.Subset.refl _)]

end Transaction

-- ---------------------------------------------------------------------------
-- Runs made again
-- ---------------------------------------------------------------------------

/-- The report lists each artifact with the same status. -/
def Report.Uniform (r : Report) (status : Status) : Prop :=
  r.outcomes.map (fun o => (o.kind, o.status)) = Kind.all.map fun k => (k, status)

namespace Call

/-- The same call with another policy. -/
def withPolicy (c : Call) (policy : CollisionPolicy) : Call :=
  { c with settings := { c.settings with policy := policy } }

variable {σ : Type} [ProjectTree σ] {c : Call} {dir : Path}

/-- Only the error policy refuses. -/
theorem plan_of_ne_error (tree : σ) (e : Entity) (hb : c.context.baseDirectory = some dir)
    (hpol : c.settings.policy ≠ .error) :
    c.plan tree e = .ok ⟨some dir, (Artifact.generateAll e c.context).map
      (Transaction.planWrite tree (some dir) c.settings.policy)⟩ := by
  rw [plan, hb]
  exact if_neg fun hp => hpol hp.1

end Call

namespace Scaffolder

open Transaction

variable {s : Scaffolder MemoryTree} {c : Call} {r : Report} {dir : Path}

/-- A run that writes and succeeds has made a plan. -/
theorem planned_of_ok {σ : Type} [ProjectTree σ] {s : Scaffolder σ}
    (hd : c.settings.dryRun = false) (hok : (s.call c).1 = .ok r) :
    ∃ tx, c.entity? = .ok r.entity ∧ c.plan s.tree r.entity = .ok tx := by
  have hends := call_ends s c
  rw [hok] at hends
  generalize (s.call c).2 = after at hends
  generalize hr : Except.ok r = result at hends
  cases hends with
  | unresolved he => cases hr
  | refused he hp => cases hr
  | dry he hp hdry => rw [hd] at hdry; cases hdry
  | @committed e tx he hp _ =>
    rcases hc : tx.commit s.tree with ⟨failure | outcomes, tree'⟩
    · rw [hc] at hr
      cases hr
    · rw [hc] at hr
      cases hr
      exact ⟨tx, he, hp⟩

/-- The tree after a run that has made a plan. -/
theorem tree_call_of_plan {e : Entity} {tx : Transaction}
    (hb : c.context.baseDirectory = some dir) (hd : c.settings.dryRun = false)
    (he : c.entity? = .ok e) (hp : c.plan s.tree e = .ok tx) :
    (s.call c).2.tree =
      ((Artifact.generateAll e c.context).map
        (planWrite s.tree (some dir) c.settings.policy)).foldl (perform dir) s.tree := by
  rw [tree_call, Call.writes_of_committed he hp hd, (plan_ok hp).1, Call.base, hb]
  rfl

section
variable {e : Entity} (hb : c.context.baseDirectory = some dir) (he : c.entity? = .ok e)
  (h : ∀ a ∈ Artifact.generateAll e c.context, fileExists s.tree (target dir a) = true)
include hb he h

theorem call_skip (hd : c.settings.dryRun = false) (hpol : c.settings.policy = .skip) :
    (∃ r, (s.call c).1 = .ok r ∧ r.Uniform .skipped) ∧ (s.call c).2.tree = s.tree := by
  have hp := Call.plan_of_ne_error s.tree e hb (by simp [hpol])
  rw [hpol] at hp
  have hskip : ∀ a ∈ Artifact.generateAll e c.context,
      (planWrite s.tree (some dir) .skip a).decision = .skip :=
    fun a ha => decision_eq_skip.mpr (.inr ⟨h a ha, rfl⟩)
  refine ⟨⟨_, result_call he hp hd, ?_⟩, ?_⟩
  · exact (statuses_outcomes fun a ha => (report_skipped _ _).mpr (hskip a ha)).trans
      (List.map_map ..)
  · rw [tree_call_of_plan hb hd he hp, hpol,
      foldl_perform_of_skip (List.forall_mem_map.mpr hskip)]

theorem call_error (hpol : c.settings.policy = .error) :
    (s.call c).1 = .error (.artifactsExist ((Artifact.generateAll e c.context).map (target dir))) ∧
      (s.call c).2.tree = s.tree := by
  have hp : c.plan s.tree e =
      .error (.artifactsExist ((Artifact.generateAll e c.context).map (target dir))) := by
    rw [Call.plan, hb, hpol]
    exact plan_error_of_exists (by simp [Artifact.generateAll, Kind.all]) h
  constructor
  · rw [call_resolved he, place_refused hp]
  · simp [tree_call, Call.writes, he, hp]

theorem call_overwrite (hd : c.settings.dryRun = false) (hpol : c.settings.policy = .overwrite) :
    (∃ r, (s.call c).1 = .ok r ∧ r.Uniform .overwritten) ∧
      (s.call c).2.tree = ((Artifact.generateAll e c.context).map
        (planWrite s.tree (some dir) .overwrite)).foldl (perform dir) s.tree := by
  have hp := Call.plan_of_ne_error s.tree e hb (by simp [hpol])
  rw [hpol] at hp
  refine ⟨⟨_, result_call he hp hd, ?_⟩, by rw [tree_call_of_plan hb hd he hp, hpol]⟩
  refine (statuses_outcomes fun a ha => (report_overwritten _ _).mpr ?_).trans (List.map_map ..)
  exact decision_eq_overwrite.mpr ⟨by simp, h a ha, by simp⟩

end

/-- A run that has written from a base directory can be made again under each policy, and the tree
stays as it is. -/
theorem rerun_idempotent (s : Scaffolder MemoryTree) (c : Call) (r : Report) (dir : Path)
    (hb : c.context.baseDirectory = some dir) (hd : c.settings.dryRun = false)
    (hok : (s.call c).1 = .ok r) :
    let after := (s.call c).2
    let again (policy : CollisionPolicy) := after.call (c.withPolicy policy)
    ((∃ r', (again .skip).1 = .ok r' ∧ r'.Uniform .skipped) ∧
        (again .skip).2.tree = after.tree) ∧
      ((again .error).1 = .error (.artifactsExist
          (Kind.all.map fun k => target dir (.ofKind r.entity c.context k))) ∧
        (again .error).2.tree = after.tree) ∧
      (c.settings.policy ≠ .skip →
        (∃ r', (again .overwrite).1 = .ok r' ∧ r'.Uniform .overwritten) ∧
          (again .overwrite).2.tree = after.tree) := by
  intro after again
  obtain ⟨tx, he, hp⟩ := planned_of_ok hd hok
  have hs := separate_generateAll (some dir) r.entity c.context
  have hafter : after.tree = _ := tree_call_of_plan hb hd he hp
  have hthere : ∀ a ∈ Artifact.generateAll r.entity c.context,
      fileExists after.tree (target dir a) = true := by
    rw [hafter]
    exact fun a ha => fileExists_foldl_perform hs.relative ha
  refine ⟨call_skip hb he hthere hd rfl, ?_, fun hpol => ?_⟩
  · obtain ⟨hresult, htree⟩ := call_error (c := c.withPolicy .error) hb he hthere rfl
    exact ⟨hresult.trans (by rw [Artifact.generateAll, List.map_map]; rfl), htree⟩
  · obtain ⟨hresult, htree⟩ := call_overwrite (c := c.withPolicy .overwrite) hb he hthere hd rfl
    refine ⟨hresult, htree.trans ?_⟩
    -- Neither the first run nor this one leaves an artifact out.
    have hkept (t : MemoryTree) {policy : CollisionPolicy} (hne : policy ≠ .skip) (a : Artifact) :
        (planWrite t (some dir) policy a).decision ≠ .skip := by
      rw [ne_eq, decision_eq_skip]
      simp [Skipped, hne]
    rw [hafter]
    exact foldl_perform_again hs (fun a _ => hkept _ hpol a) fun a _ => hkept _ (by simp) a

/-- The first run replaces a mapper that was there. -/
theorem rerun_idempotent_order :
    let s : Scaffolder MemoryTree :=
      { tree := MemoryTree.withFile {} ⟨"app/mapper/OrderMapper.java"⟩ "old" }
    let order : Call :=
      ⟨{ policy := .overwrite }, ⟨⟨"app/domain/Order.java"⟩, .java, "class Order {}"⟩⟩
    let after := (s.call order).2
    let again (policy : CollisionPolicy) := after.call (order.withPolicy policy)
    order.context.baseDirectory = some ⟨"app"⟩ ∧ order.settings.dryRun = false ∧
      ∃ r, (s.call order).1 = .ok r ∧
        ((∃ r', (again .skip).1 = .ok r' ∧ r'.Uniform .skipped) ∧
          (again .skip).2.tree = after.tree) ∧
        ((again .error).1 = .error (.artifactsExist
            (Kind.all.map fun k => target ⟨"app"⟩ (.ofKind r.entity order.context k))) ∧
          (again .error).2.tree = after.tree) ∧
        (∃ r', (again .overwrite).1 = .ok r' ∧ r'.Uniform .overwritten) ∧
          (again .overwrite).2.tree = after.tree := by
  intro s order after again
  have hb : order.context.baseDirectory = some ⟨"app"⟩ := by decide +kernel
  let e : Entity := ⟨"Order", "Order", [], .java⟩
  have he : order.entity? = .ok e := by decide +kernel
  have hp := Call.plan_of_ne_error s.tree e hb (by decide)
  have hok := result_call he hp rfl
  obtain ⟨hskip, herror, hover⟩ := rerun_idempotent s order _ ⟨"app"⟩ hb rfl hok
  exact ⟨hb, rfl, _, hok, hskip, herror, hover (by decide)⟩

end Scaffolder

end Scaffold
