import Scaffold.Proofs.Entities
import Scaffold.Proofs.RollBacks
import Scaffold.Scaffolder

/-!
# What a run leaves alone

Whatever sources and settings follow each other on one tree, a run touches no
file but the targets of its own artifacts, and without the overwriting policy
no file that was there before it. A run that fails without a commit, or is
dry, leaves the tree as it was.
-/

namespace Scaffold

open ProjectTree MemoryBacked Transaction

/-- A source to generate from under settings. -/
structure Call where
  settings : Settings
  source : SourceFile

namespace Call

def context (c : Call) : Context :=
  .ofFile c.source.path (Scaffolder.rootsFor c.settings c.source.path)

def entity? (c : Call) : Except Failure Entity :=
  c.source.resolve c.settings.strictTypes

/-- The files the artifacts go to; without an entity or a base directory there are none. -/
def targets (c : Call) : List Path :=
  match c.entity?, c.context.baseDirectory with
  | .ok e, some dir => Artifact.targets e c.context dir
  | _, _ => []

theorem targets_eq {c : Call} (he : c.entity? = .ok e) (hd : c.context.baseDirectory = some dir) :
    c.targets = Artifact.targets e c.context dir := by
  rw [targets, he, hd]

theorem entity?_ne_artifactsExist {c : Call} : c.entity? ≠ .error (.artifactsExist paths) := by
  unfold entity? SourceFile.resolve
  split
  · simp
  · split <;> simp

variable {σ : Type} [ProjectTree σ]

def plan (c : Call) (tree : σ) (e : Entity) : Except Failure Transaction :=
  Transaction.plan tree c.context.baseDirectory (Artifact.generateAll e c.context)
    c.settings.policy

def report (c : Call) (e : Entity) (outcomes : List Outcome) : Report :=
  ⟨e, c.context.basePackage, c.context.baseDirectory, c.settings.dryRun, outcomes⟩

end Call

/-- A call with what came of it. -/
structure Run (σ : Type) where
  before : Scaffolder σ
  call : Call
  result : Except Failure Report
  after : Scaffolder σ

namespace Scaffolder

variable {σ : Type} [ProjectTree σ]

def call (s : Scaffolder σ) (c : Call) : Except Failure Report × Scaffolder σ :=
  { s with settings := c.settings }.generate c.source

/-- The runs of some calls, each on what the one before has left. -/
def runs (s : Scaffolder σ) : List Call → List (Run σ)
  | [] => []
  | c :: cs => ⟨s, c, (s.call c).1, (s.call c).2⟩ :: runs (s.call c).2 cs

-- ---------------------------------------------------------------------------
-- One call
-- ---------------------------------------------------------------------------

section
variable {s : Scaffolder σ} {c : Call} {e : Entity} {phase : Phase} {tx : Transaction}
  {failure : Failure}

theorem place_refused (hp : c.plan s.tree e = .error failure) :
    place ⟨s.tree, c.settings, phase⟩ c.source.path e = (.error failure, s.tree) := by
  rw [Call.plan, Call.context] at hp
  simp only [place, hp]

theorem place_dry (hp : c.plan s.tree e = .ok tx) (hd : c.settings.dryRun = true) :
    place ⟨s.tree, c.settings, phase⟩ c.source.path e =
      (.ok (c.report e tx.preview), s.tree) := by
  rw [Call.plan, Call.context] at hp
  simp only [place, hp, if_pos hd]
  rfl

theorem place_committed (hp : c.plan s.tree e = .ok tx) (hd : c.settings.dryRun = false) :
    place ⟨s.tree, c.settings, phase⟩ c.source.path e =
      ((tx.commit s.tree).1.map (c.report e), (tx.commit s.tree).2) := by
  rw [Call.plan, Call.context] at hp
  simp only [place, hp, if_neg (Bool.eq_false_iff.mp hd)]
  rfl

end

/-- The ways a call can end: no entity, a refused plan, a preview or a commit. -/
inductive Ends (s : Scaffolder σ) (c : Call) : Except Failure Report → Scaffolder σ → Prop
  | unresolved {failure} : c.entity? = .error failure →
      Ends s c (.error failure) { s with settings := c.settings }
  | refused {e failure} : c.entity? = .ok e → c.plan s.tree e = .error failure →
      Ends s c (.error failure) ⟨s.tree, c.settings, .idle⟩
  | dry {e tx} : c.entity? = .ok e → c.plan s.tree e = .ok tx → c.settings.dryRun = true →
      Ends s c (.ok (c.report e tx.preview)) ⟨s.tree, c.settings, .idle⟩
  | committed {e tx} : c.entity? = .ok e → c.plan s.tree e = .ok tx → c.settings.dryRun = false →
      Ends s c ((tx.commit s.tree).1.map (c.report e)) ⟨(tx.commit s.tree).2, c.settings, .idle⟩

theorem call_ends (s : Scaffolder σ) (c : Call) : Ends s c (s.call c).1 (s.call c).2 := by
  cases he : c.entity? with
  | error failure =>
    have hcall : s.call c = (.error failure, { s with settings := c.settings }) := by
      rw [Call.entity?] at he
      simp only [call, generate, he]
    rw [hcall]
    exact .unresolved he
  | ok e =>
    have hcall : s.call c =
        let placed := place { s with settings := c.settings, phase := .generating } c.source.path e
        (placed.1, ⟨placed.2, c.settings, .idle⟩) := by
      rw [Call.entity?] at he
      simp only [call, generate, he]
    rw [hcall]
    cases hp : c.plan s.tree e with
    | error failure =>
      rw [place_refused hp]
      exact .refused he hp
    | ok tx =>
      cases hd : c.settings.dryRun with
      | true =>
        rw [place_dry hp hd]
        exact .dry he hp hd
      | false =>
        rw [place_committed hp hd]
        exact .committed he hp hd

theorem call_idle {s : Scaffolder σ} (h : s.phase = .idle) (c : Call) :
    (s.call c).2.phase = .idle := by
  have hends := call_ends s c
  generalize (s.call c).1 = result at hends
  generalize (s.call c).2 = after at hends
  cases hends with
  | unresolved he => exact h
  | refused he hp => rfl
  | dry he hp hd => rfl
  | committed he hp hd => rfl

-- ---------------------------------------------------------------------------
-- All calls
-- ---------------------------------------------------------------------------

variable [MemoryBacked σ]

/-- A run that did no harm. -/
structure Harmless (r : Run σ) : Prop where
  refused : ∀ failure, r.result = .error failure →
    (∀ rolledBack cause, failure ≠ .commitFailed rolledBack cause) → r.after.tree = r.before.tree
  dry : r.call.settings.dryRun = true → r.after.tree = r.before.tree
  collisions : ∀ paths, r.result = .error (.artifactsExist paths) →
    paths ≠ [] ∧ paths = r.call.targets.filter (fileExists r.before.tree)
  others : ∀ q : Path, (∀ p ∈ r.call.targets, p.components ≠ q.components) →
    (memory r.after.tree).content? q = (memory r.before.tree).content? q
  kept : r.call.settings.policy ≠ .overwrite → ∀ q : Path,
    fileExists r.before.tree q = true →
      (memory r.after.tree).content? q = (memory r.before.tree).content? q

theorem Harmless.of_tree_eq {r : Run σ} (ht : r.after.tree = r.before.tree)
    (hc : ∀ paths, r.result = .error (.artifactsExist paths) →
      paths ≠ [] ∧ paths = r.call.targets.filter (fileExists r.before.tree)) : Harmless r where
  refused _ _ _ := ht
  dry _ := ht
  collisions := hc
  others q _ := by rw [ht]
  kept _ q _ := by rw [ht]

theorem harmless_call (s : Scaffolder σ) (c : Call) :
    Harmless ⟨s, c, (s.call c).1, (s.call c).2⟩ := by
  have hends := call_ends s c
  generalize (s.call c).1 = result at hends
  generalize (s.call c).2 = after at hends
  cases hends with
  | unresolved he =>
    refine .of_tree_eq rfl fun paths hr => ?_
    cases hr
    exact absurd he Call.entity?_ne_artifactsExist
  | refused he hp =>
    refine .of_tree_eq rfl fun paths hr => ?_
    obtain ⟨dir, _, hdir, -, rfl, hne, heq⟩ := plan_error hp
    cases hr
    exact ⟨hne, by rw [heq, Call.targets_eq he hdir, Artifact.targets]⟩
  | dry he hp hd => exact .of_tree_eq rfl fun paths hr => by cases hr
  | @committed e tx he hp hd =>
    have hs := separate_generateAll c.context.baseDirectory e c.context
    have hfailed : ∀ failure, (tx.commit s.tree).1.map (c.report e) = .error failure →
        ∃ rolledBack cause, failure = .commitFailed rolledBack cause := by
      intro failure hr
      rcases hc : tx.commit s.tree with ⟨_ | _, tree'⟩
      · rw [hc] at hr
        cases hr
        exact commit_error hc
      · rw [hc] at hr
        cases hr
    constructor
    case refused =>
      intro failure hr hne
      obtain ⟨rolledBack, cause, hf⟩ := hfailed failure hr
      exact absurd hf (hne rolledBack cause)
    case dry =>
      intro hdry
      rw [hd] at hdry
      cases hdry
    case collisions =>
      intro paths hr
      obtain ⟨_, _, hf⟩ := hfailed _ hr
      cases hf
    case others =>
      intro q hq
      refine content?_commit hp hs.relative fun a ha hk => ?_
      cases hdir : c.context.baseDirectory with
      | none => exact absurd (.inl hdir) hk
      | some dir =>
        refine hq _ ?_
        rw [Call.targets_eq he hdir]
        exact List.mem_map_of_mem ha
    case kept => exact fun hpol q hq => content?_commit_of_exists hp hs.relative hpol hq

/-- Whatever calls follow each other on an idle scaffolder, and whichever changes of its tree fail,
each run ends idle and does no harm. -/
theorem harmless_of_mem_runs {s : Scaffolder σ} (h : s.phase = .idle) (hr : r ∈ runs s cs) :
    r.after.phase = .idle ∧ Harmless r := by
  induction cs generalizing s with
  | nil => cases hr
  | cons c cs ih =>
    have hc := call_idle h c
    rcases List.mem_cons.mp hr with rfl | hr
    · exact ⟨hc, harmless_call s c⟩
    · exact ih hc hr

/-- From a new scaffolder on, no run does harm. -/
theorem runs_harmless (tree : σ) (cs : List Call) :
    ∀ r ∈ runs ({ tree := tree } : Scaffolder σ) cs, r.after.phase = .idle ∧ Harmless r :=
  fun _ hr => harmless_of_mem_runs rfl hr

/-- The third insertion of the first run fails. -/
theorem runs_harmless_after_failure :
    let tree : FaultyTree MemoryTree :=
      { tree := {}, schedule := ⟨(· == 2), fun _ => false, fun _ => false⟩ }
    let order : Call := ⟨{}, ⟨⟨"app/domain/Order.java"⟩, .java, "class Order {}"⟩⟩
    ∃ r ∈ runs ({ tree := tree } : Scaffolder (FaultyTree MemoryTree)) [order, order],
      r.result = .error (.commitFailed 2
        (.notWritten ⟨"app/web/model/OrderRequest.java"⟩ "disk full")) ∧
      r.after.phase = .idle ∧ Harmless r := by
  intro tree order
  refine ⟨_, List.mem_cons_self, by decide +kernel, ?_⟩
  exact runs_harmless tree [order, order] _ List.mem_cons_self

end Scaffolder

end Scaffold
