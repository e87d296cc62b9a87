import Scaffold.Proofs.Effects

/-!
# Retries

A commit that fails while every removal succeeds leaves a tree on the way to
the one that it was to make: some of its directories are there already, and
some of the files that it replaces are replaced. The plan for what is left is
the same, and carrying it out makes up what was missing.
-/

namespace Scaffold

open ProjectTree MemoryBacked

-- ---------------------------------------------------------------------------
-- What no change takes away
-- ---------------------------------------------------------------------------

/-- A property of trees that lasts, whether changes succeed or fail. -/
structure Lasting {σ : Type} [ProjectTree σ] (P : σ → Prop) : Prop where
  create : ∀ {tree} directory name, P tree → P (createSubdirectory tree directory name).2
  insert : ∀ {tree} directory name content, P tree →
    P (insertTextFile tree directory name content).2
  remove : ∀ {tree} path, P tree → P (removeFile tree path).2

namespace Lasting

open Transaction

variable {σ : Type} [ProjectTree σ] {P : σ → Prop} {tree tree' : σ} {base : Path}
  {created : List Path} {ws : List PlannedWrite} {outcomes : List Outcome}

theorem descend (hP : Lasting P) (h : P tree) (base : Path) (names : List String) :
    P (descend tree base names).2 := by
  induction names generalizing tree base with
  | nil => exact h
  | cons name names ih =>
    simp only [ProjectTree.descend]
    cases findSubdirectory tree base name with
    | some found => exact ih h found
    | none =>
      have hmiddle := hP.create base name h
      rcases hc : createSubdirectory tree base name with ⟨failure | created, middle⟩
      · rwa [hc] at hmiddle
      · rw [hc] at hmiddle
        exact ih hmiddle created

theorem write (hP : Lasting P) (h : P tree) (base : Path) (a : Artifact) :
    P (write tree base a).2 := by
  have hwalked := hP.descend h base (segments a.relativePath)
  unfold Transaction.write ensureSubdirectories
  rcases hd : ProjectTree.descend tree base (segments a.relativePath) with
    ⟨failure | directory, walked⟩
  · rwa [hd] at hwalked
  · rw [hd] at hwalked
    exact hP.insert directory a.fileName a.content hwalked

theorem step (hP : Lasting P) (h : P tree) (hs : Step base w tree o tree') : P tree' := by
  have hwrite := hP.write h base w.artifact
  cases hs with
  | skip _ => exact h
  | create _ hw => rwa [hw] at hwrite
  | overwrite _ hw => rwa [hw] at hwrite

theorem commitWrites_ok (hP : Lasting P) (h : P tree)
    (hc : commitWrites tree base created ws = (.ok outcomes, tree')) : P tree' := by
  induction ws generalizing tree created outcomes with
  | nil =>
    simp only [commitWrites, Prod.mk.injEq] at hc
    rwa [← hc.2]
  | cons w ws ih =>
    obtain ⟨o, rest, middle, -, hs, hrest⟩ := commitWrites_cons_ok hc
    exact ih (hP.step h hs) hrest

theorem removals (hP : Lasting P) (hok : ∀ {tree} path, P tree → (removeFile tree path).1 = .ok ())
    (h : P tree) (paths : List Path) : ∀ call ∈ removals tree paths, call.2 = true := by
  induction paths generalizing tree with
  | nil => simp [Transaction.removals]
  | cons path paths ih =>
    have hpath := hok path h
    have hrest := hP.remove path h
    rcases hr : removeFile tree path with ⟨result, tree'⟩
    rw [hr] at hpath hrest
    obtain rfl : result = .ok () := hpath
    rw [Transaction.removals, hr]
    exact List.forall_mem_cons.mpr ⟨rfl, ih hrest⟩

end Lasting

namespace FaultyTree

theorem lasting_schedule (schedule : Schedule) :
    Lasting fun tree : FaultyTree MemoryTree => tree.schedule = schedule where
  create _ _ h := by simp only [createSubdirectory]; split <;> exact h
  insert _ _ _ h := by simp only [insertTextFile]; split <;> exact h
  remove _ h := by simp only [removeFile]; split <;> exact h

theorem removeFile_ok {tree : FaultyTree MemoryTree} (h : ∀ n, tree.schedule.removes n = false)
    (path : Path) : (removeFile tree path).1 = .ok () := by
  simp only [removeFile, h, Bool.false_eq_true, if_false]

end FaultyTree

-- ---------------------------------------------------------------------------
-- What is left of a failed commit
-- ---------------------------------------------------------------------------

namespace MemoryBacked

variable {σ : Type} [ProjectTree σ] [MemoryBacked σ] {tree tree' : σ} {base : Path}

/-- A walk has entered every directory on its way, or it has ended where a missing one could not be
created. -/
inductive Walked (tree : σ) (base : Path) (names : List String) : Except Failure Path → σ → Prop
  | arrived {tree' : σ} : memory tree' = (memory tree).enterAll (passed base names) →
      Walked tree base names (.ok (names.foldl Path.join base)) tree'
  | stopped (done : List String) {rest : List String} {name : String} {middle tree' : σ}
      {failure : Failure} : names = done ++ name :: rest →
      memory middle = (memory tree).enterAll (passed base done) →
      (memory middle).hasDirectory ((done.foldl Path.join base).join name) = false →
      createSubdirectory middle (done.foldl Path.join base) name = (.error failure, tree') →
      memory tree' = memory middle → Walked tree base names (.error failure) tree'

/-- What a walk from the next directory does, the walk that starts with this directory does. -/
theorem Walked.cons {middle : σ} {name : String} {names : List String}
    {result : Except Failure Path}
    (h : Walked middle (base.join name) names result tree')
    (hmiddle : memory middle = (memory tree).enter (base.join name)) :
    Walked tree base (name :: names) result tree' := by
  cases h with
  | arrived hmemory =>
    refine .arrived ?_
    rw [hmemory, hmiddle]
    rfl
  | stopped done hnames hlast hmissing hcreate hmemory =>
    refine .stopped (name :: done) (by rw [hnames]; rfl) ?_ hmissing hcreate hmemory
    rw [hlast, hmiddle]
    rfl

theorem walked_descend (tree : σ) (base : Path) (names : List String) :
    Walked tree base names (descend tree base names).1 (descend tree base names).2 := by
  induction names generalizing tree base with
  | nil => exact .arrived rfl
  | cons name names ih =>
    simp only [descend]
    cases hf : findSubdirectory tree base name with
    | some found =>
      rw [findSubdirectory_eq] at hf
      obtain ⟨hdir, rfl⟩ : (memory tree).hasDirectory (base.join name) = true ∧
          base.join name = found := by simpa [findSubdirectory] using hf
      exact (ih tree _).cons (MemoryTree.enter_of_hasDirectory hdir).symm
    | none =>
      rw [findSubdirectory_eq] at hf
      have hdir : (memory tree).hasDirectory (base.join name) = false := by
        simpa [findSubdirectory] using hf
      have htracks := tracks_create tree base name
      rcases hc : createSubdirectory tree base name with ⟨result, middle⟩
      rw [hc] at htracks
      obtain ⟨rfl, hmiddle⟩ | ⟨⟨failure, rfl⟩, hmiddle⟩ := htracks
      · refine (ih middle _).cons ?_
        rw [hmiddle, MemoryTree.enter, if_neg (by simp [hdir])]
        rfl
      · exact .stopped [] rfl rfl hdir hc hmiddle

/-- A walk enters the directories up to the one where it ends. -/
theorem memory_descend (tree : σ) (base : Path) (names : List String) :
    ∃ ps, ps <+: passed base names ∧
      memory (descend tree base names).2 = (memory tree).enterAll ps := by
  have h := walked_descend tree base names
  generalize (descend tree base names).1 = result, (descend tree base names).2 = tree' at h
  cases h with
  | arrived hmemory => exact ⟨_, List.prefix_rfl, hmemory⟩
  | stopped _ hnames hmiddle _ _ hmemory =>
    refine ⟨_, ?_, hmemory.trans hmiddle⟩
    rw [hnames, passed_append]
    exact List.prefix_append ..

theorem memory_write_error {a : Artifact} {failure : Failure}
    (h : Transaction.write tree base a = (.error failure, tree')) :
    ∃ ps, ps <+: passed base (segments a.relativePath) ∧
      memory tree' = (memory tree).enterAll ps := by
  obtain ⟨ps, hps, hwalked⟩ := memory_descend tree base (segments a.relativePath)
  refine ⟨ps, hps, ?_⟩
  rw [← hwalked]
  unfold Transaction.write ensureSubdirectories at h
  rcases hd : descend tree base (segments a.relativePath) with ⟨_ | directory, walked⟩
  · rw [hd] at h
    cases h
    rfl
  · rw [hd] at h
    simp only at h
    obtain ⟨hok, -⟩ | ⟨-, hsame⟩ := tracks_insert walked directory a.fileName a.content
    · rw [h] at hok
      cases hok
    · rwa [h] at hsame

end MemoryBacked

namespace Transaction

variable {σ : Type} [ProjectTree σ] [MemoryBacked σ] {tree tree' : σ} {dir : Path}
  {policy : CollisionPolicy} {as done : List Artifact} {failure : Failure}

theorem contains_destination {a : Artifact} (hr : (Path.mk a.relativePath).isAbsolute = false) :
    (memory tree).files.contains (destination dir a) = fileExists tree (target dir a) := by
  rw [fileExists_eq, PathMap.contains_congr _ (components_destination hr dir)]
  rfl

/-- The new files are those of the entries that are not there. -/
theorem newFiles_eq (policy : CollisionPolicy)
    (hr : ∀ a ∈ done, (Path.mk a.relativePath).isAbsolute = false) :
    newFiles tree dir done =
      (((entries dir (done.map (planWrite tree (some dir) policy))).filter
        fun entry => !(memory tree).files.contains entry.1).map Prod.fst).reverse := by
  rw [newFiles, entries_planned, List.filter_map, List.map_map, List.filter_filter]
  congr 2
  refine List.filter_congr fun a ha => ?_
  rw [Function.comp_apply, contains_destination (hr a ha)]
  by_cases he : fileExists tree (target dir a) = true
  · simp [he]
  · have hkept : (planWrite tree (some dir) policy a).decision ≠ .skip := by
      rw [ne_eq, decision_eq_skip]
      simp [Skipped, site, he]
    simp [he, hkept]

/-- The tree on the way to the one that the writes make. -/
def Partial (t t' : MemoryTree) (base : Path) (ws : List PlannedWrite) : Prop :=
  ∃ front kept, front <+: ways base ws ∧ kept ⊆ entries base ws ∧
    (∀ entry ∈ kept, t.files.contains entry.1 = true) ∧
    t' = { t.enterAll front with files := t.files.insertAll kept }

/-- What is there is the same all the way. -/
theorem Partial.contains {t t' : MemoryTree} {ws : List PlannedWrite} (h : Partial t t' dir ws)
    (q : Path) : t'.files.contains q = t.files.contains q := by
  obtain ⟨front, kept, -, -, hkept, rfl⟩ := h
  exact PathMap.contains_insertAll_of_contains hkept q

/-- From anywhere on the way the writes lead to the same tree. -/
theorem Partial.foldl_perform {t t' : MemoryTree} {ws : List PlannedWrite} (h : Partial t t' dir ws)
    (hw : PathMap.Apart (entries dir ws)) :
    ws.foldl (perform dir) t' = ws.foldl (perform dir) t := by
  obtain ⟨front, kept, ⟨back, hways⟩, hsub, -, rfl⟩ := h
  have henter : (t.enterAll front).enterAll (ways dir ws) = t.enterAll (ways dir ws) := by
    rw [← hways, MemoryTree.enterAll_append,
      MemoryTree.enterAll_enterAll (List.Subset.refl front), ← MemoryTree.enterAll_append]
  rw [Transaction.foldl_perform, Transaction.foldl_perform, MemoryTree.enterAll_withFiles, henter,
    PathMap.insertAll_insertAll hw hsub]

/-- A commit that fails on the tree it was planned on, and takes back all it can, leaves the tree
on the way. -/
theorem partial_of_commit_error {P : σ → Prop} (hP : Lasting P)
    (hok : ∀ {tree} path, P tree → (removeFile tree path).1 = .ok ()) (h : P tree)
    (hs : Separate (some dir) as)
    (hf : commitWrites tree dir [] (as.map (planWrite tree (some dir) policy)) =
      (.error failure, tree')) :
    Partial (memory tree) (memory tree') dir (as.map (planWrite tree (some dir) policy)) := by
  obtain ⟨done', w, rest', outcomes, middle, cause, stuck, hws, hd, hc, hw, -, rfl⟩ :=
    commitWrites_error hf
  obtain ⟨done, rest, rfl, rfl, -⟩ := List.map_eq_append_iff.mp hws
  have hdone := commitWrites_ok hc
  rw [commitWrites_memory, Prod.mk.injEq, Except.ok.injEq, Transaction.foldl_perform] at hdone
  obtain ⟨rfl, hmiddle⟩ := hdone
  obtain ⟨ps, ⟨qs, hqs⟩, hstuck⟩ := memory_write_error hw
  have hlast : P stuck := by simpa [hw] using hP.write (hP.commitWrites_ok h hc) dir w.artifact
  have hgone := hP.removals hok hlast (newFiles tree dir done)
  refine ⟨ways dir (done.map (planWrite tree (some dir) policy)) ++ ps,
    (entries dir (done.map (planWrite tree (some dir) policy))).filter
      fun entry => (memory tree).files.contains entry.1, ?_, ?_, ?_, ?_⟩
  · refine ⟨qs ++ ways dir rest', ?_⟩
    rw [hws, ways_append, List.append_assoc, ← List.append_assoc ps, hqs]
    simp [ways, hd]
  · rw [List.map_append]
    refine List.Subset.trans (List.filter_subset_self _) ?_
    simp [entries]
  · intro entry hentry
    exact (List.mem_filter.mp hentry).2
  · rw [List.append_nil, createdPaths_planned, memory_rollBack, erased_eq_self hgone, hstuck,
      ← hmiddle, MemoryTree.enterAll_withFiles, newFiles_eq policy hs.of_append.relative,
      PathMap.eraseAll_new (hs.of_append.apart tree policy), MemoryTree.enterAll_append]

end Transaction

-- ---------------------------------------------------------------------------
-- Retries
-- ---------------------------------------------------------------------------

namespace Scaffolder

open Transaction

variable {n : Nat} {cause : Failure}

/-- Only a commit fails as one. -/
theorem committed_of_commitFailed {σ : Type} [ProjectTree σ] {s : Scaffolder σ} {c : Call}
    (h : (s.call c).1 = .error (.commitFailed n cause)) :
    ∃ e tx, c.entity? = .ok e ∧ c.plan s.tree e = .ok tx ∧ c.settings.dryRun = false := by
  have hends := call_ends s c
  rw [h] at hends
  generalize (s.call c).2 = after at hends
  generalize hr : Except.error (Failure.commitFailed n cause) = result at hends
  cases hends with
  | unresolved he =>
    cases hr
    unfold Call.entity? SourceFile.resolve at he
    split at he
    · cases he
    · split at he <;> cases he
  | refused he hp =>
    obtain ⟨_, _, -, -, rfl, -⟩ := plan_error hp
    cases hr
  | dry he hp hd => cases hr
  | committed he hp hd => exact ⟨_, _, he, hp, hd⟩

/-- A failed run leaves the tree on the way to the one that the run was to make. -/
theorem partial_call {s : Scaffolder (FaultyTree MemoryTree)} {c : Call}
    (hr : ∀ n, s.tree.schedule.removes n = false)
    (hf : (s.call c).1 = .error (.commitFailed n cause)) :
    Partial s.tree.tree (s.call c).2.tree.tree c.base (c.writes s.tree) := by
  obtain ⟨e, tx, he, hp, hd⟩ := committed_of_commitFailed hf
  have hs := separate_generateAll c.context.baseDirectory e c.context
  rw [Call.writes_of_committed he hp hd]
  rw [call_committed he hp hd] at hf ⊢
  obtain ⟨rfl, -⟩ := plan_ok hp
  cases hb : c.context.baseDirectory with
  | none => simp [hb, commit, Except.map] at hf
  | some dir =>
    rw [hb] at hs hf
    rw [Call.base, hb, Option.getD_some]
    rcases hc : commit ⟨some dir, (Artifact.generateAll e c.context).map
      (planWrite s.tree (some dir) c.settings.policy)⟩ s.tree with ⟨failure | outcomes, tree'⟩
    · exact partial_of_commit_error (FaultyTree.lasting_schedule s.tree.schedule)
        (fun path h => FaultyTree.removeFile_ok (h ▸ hr) path) rfl hs hc
    · rw [hc] at hf
      cases hf

/-- A run that failed in its commit, where every removal succeeded, can be made again as if it had
never been made: in the end it reports and leaves what one run does when nothing fails. -/
theorem retry_after_failed_commit (s : Scaffolder (FaultyTree MemoryTree)) (c : Call)
    (hr : ∀ n, s.tree.schedule.removes n = false)
    (hf : (s.call c).1 = .error (.commitFailed n cause)) :
    let retry := ({ tree := (s.call c).2.tree.tree } : Scaffolder MemoryTree).call c
    let single := ({ tree := s.tree.tree } : Scaffolder MemoryTree).call c
    (∃ report, single.1 = .ok report) ∧ retry.1 = single.1 ∧ retry.2.tree = single.2.tree := by
  have hpartial := partial_call hr hf
  have hthere : ∀ p ∈ c.targets, fileExists (s.call c).2.tree.tree p = fileExists s.tree.tree p :=
    fun p _ => hpartial.contains p
  refine ⟨?_, result_call_congr hthere, ?_⟩
  · obtain ⟨e, tx, he, hp, hd⟩ := committed_of_commitFailed hf
    exact ⟨_, result_call he ((Call.plan_congr he fun _ _ => rfl).trans hp) hd⟩
  · have hwrites : c.writes s.tree = c.writes s.tree.tree := Call.writes_congr fun _ _ => rfl
    rw [hwrites] at hpartial
    rw [tree_call, tree_call, Call.writes_congr hthere]
    exact hpartial.foldl_perform (c.apart_entries s.tree.tree)

/-- One file has been created and one replaced when the third directory cannot be created. -/
theorem retry_after_failed_directory :
    let tree : FaultyTree MemoryTree :=
      { tree := MemoryTree.withFile {} ⟨"app/service/model/OrderDto.java"⟩ "old"
        schedule := ⟨fun _ => false, (· == 2), fun _ => false⟩ }
    let s : Scaffolder (FaultyTree MemoryTree) := { tree := tree }
    let order : Call :=
      ⟨{ policy := .overwrite }, ⟨⟨"app/domain/Order.java"⟩, .java, "class Order {}"⟩⟩
    (∀ n, tree.schedule.removes n = false) ∧
      (s.call order).1 = .error (.commitFailed 1
        (.directoryNotCreated ⟨"app/web"⟩ "no more directories")) ∧
      (s.call order).2.tree.tree.content? ⟨"app/service/model/OrderDto.java"⟩ ≠ some "old" ∧
      let retry := ({ tree := (s.call order).2.tree.tree } : Scaffolder MemoryTree).call order
      let single := ({ tree := tree.tree } : Scaffolder MemoryTree).call order
      (∃ report, single.1 = .ok report) ∧ retry.1 = single.1 ∧ retry.2.tree = single.2.tree := by
  intro tree s order
  have hf : (s.call order).1 = .error (.commitFailed 1
      (.directoryNotCreated ⟨"app/web"⟩ "no more directories")) := by decide +kernel
  exact ⟨fun _ => rfl, hf, by decide +kernel, retry_after_failed_commit s order (fun _ => rfl) hf⟩

end Scaffolder

end Scaffold
