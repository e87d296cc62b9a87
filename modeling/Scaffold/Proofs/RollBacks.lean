import Mathlib.Data.List.Nodup
import Scaffold.Proofs.Commits

/-!
# What a failed commit leaves

A commit that fails has inserted the entries of the writes before the one it
is stuck at, and then erases the files among them that were new, newest
first, as far as they can be removed. So replaced files keep their new
content, new files are gone unless their removal failed, and every other
file is as it was.
-/

namespace Scaffold.Transaction

open ProjectTree MemoryBacked

variable {σ : Type} [ProjectTree σ] {tree tree' stuck : σ} {dir : Path}
  {policy : CollisionPolicy} {as done : List Artifact}

-- ---------------------------------------------------------------------------
-- New files
-- ---------------------------------------------------------------------------

/-- The files that carrying out the artifacts creates, newest first. -/
def newFiles (tree : σ) (dir : Path) (done : List Artifact) : List Path :=
  ((done.filter fun a => !fileExists tree (target dir a)).map (destination dir)).reverse

theorem Separate.of_append {base : Option Path} {rest : List Artifact}
    (hs : Separate base (done ++ rest)) : Separate base done where
  relative a ha := hs.relative a (List.mem_append_left _ ha)
  distinct := hs.distinct.sublist ((List.sublist_append_left done rest).map _)

theorem createdPaths_planned :
    createdPaths ((done.map (planWrite tree (some dir) policy)).map (report dir)) =
      newFiles tree dir done := by
  have hf : ∀ a ∈ done, decide ((planWrite tree (some dir) policy a).decision = .create) =
      !fileExists tree (target dir a) := by
    intro a _
    rw [Bool.eq_iff_iff, decide_eq_true_iff, decision_eq_create]
    simp [site]
  rw [createdPaths_report, newFiles, List.filter_map, List.map_map,
    ← List.filter_congr hf]
  simp only [Function.comp_def, planWrite_artifact]

theorem mem_newFiles {p : Path} :
    p ∈ newFiles tree dir done ↔
      ∃ a ∈ done, fileExists tree (target dir a) = false ∧ destination dir a = p := by
  simp [newFiles, and_assoc]

/-- No two new files are the same. -/
theorem Separate.nodup_newFiles (hs : Separate (some dir) done) :
    ((newFiles tree dir done).map Path.components).Nodup := by
  rw [newFiles, List.map_reverse, List.nodup_reverse, List.map_map]
  have hsite : ∀ a ∈ done.filter fun a => !fileExists tree (target dir a),
      (Path.components ∘ destination dir) a = (site (some dir) a).components := fun a ha =>
    components_site (hs.relative a (List.mem_filter.mp ha).1)
  rw [List.map_congr_left hsite]
  exact hs.distinct.sublist (List.filter_sublist.map _)

/-- When nothing is replaced, the entries of the writes are those of the new files. -/
theorem entries_of_not_overwrite
    (hd : ∀ a ∈ done, (planWrite tree (some dir) policy a).decision ≠ .overwrite) :
    ((entries dir (done.map (planWrite tree (some dir) policy))).map Prod.fst).reverse =
      newFiles tree dir done := by
  have hf : ∀ a ∈ done, decide ((planWrite tree (some dir) policy a).decision ≠ .skip) =
      !fileExists tree (target dir a) := by
    intro a ha
    cases hw : (planWrite tree (some dir) policy a).decision with
    | skip =>
      obtain h | h := decision_eq_skip.mp hw
      · cases h
      · simpa [site] using h.1
    | create => simpa [site] using (decision_eq_create.mp hw).2
    | overwrite => exact absurd hw (hd a ha)
  rw [entries_planned, List.map_map, List.filter_congr hf]
  rfl

theorem eq_destination_of_erased {p : Path} (h : p ∈ erased stuck (newFiles tree dir done)) :
    ∃ a ∈ done, fileExists tree (target dir a) = false ∧ destination dir a = p :=
  mem_newFiles.mp (mem_of_mem_erased h)

-- ---------------------------------------------------------------------------
-- The tree after a roll back
-- ---------------------------------------------------------------------------

variable [MemoryBacked σ]

/-- What is left of the artifacts that were carried out, when the removals ended as told. -/
structure RolledBack (tree tree' : σ) (dir : Path) (policy : CollisionPolicy)
    (done : List Artifact) (removed : List (Path × Bool)) : Prop where
  replaced : ∀ a ∈ done, fileExists tree (target dir a) = true → policy ≠ .skip →
    (memory tree').content? (target dir a) = some a.content
  created : ∀ a ∈ done, fileExists tree (target dir a) = false →
    ∃ gone, (destination dir a, gone) ∈ removed ∧
      (memory tree').content? (target dir a) = if gone then none else some a.content
  others : ∀ q : Path,
    (∀ a ∈ done, ¬ Skipped tree (some dir) policy a →
      (target dir a).components ≠ q.components) →
      (memory tree').content? q = (memory tree).content? q
  restored : policy ≠ .overwrite → (∀ call ∈ removed, call.2 = true) →
    (memory tree').files = (memory tree).files

theorem rolledBack (hs : Separate (some dir) done)
    (hp : ∀ a ∈ done, (planWrite tree (some dir) policy a).decision = .overwrite →
      policy = .overwrite)
    (hstuck : (memory stuck).files = (memory tree).files.insertAll
      (entries dir (done.map (planWrite tree (some dir) policy)))) :
    RolledBack tree (rollBack stuck (newFiles tree dir done)).2 dir policy done
      (removals stuck (newFiles tree dir done)) := by
  have hfiles := congrArg MemoryTree.files (memory_rollBack stuck (newFiles tree dir done))
  simp only [hstuck] at hfiles
  generalize (rollBack stuck (newFiles tree dir done)).2 = tree' at hfiles ⊢
  have hcontent : ∀ q, (memory tree').content? q = _ := fun q => by
    rw [MemoryTree.content?, hfiles, PathMap.get?_eraseAll]
  have hsite : ∀ a ∈ done, (destination dir a).components = (target dir a).components :=
    fun a ha => components_destination (hs.relative a ha) dir
  constructor
  case replaced =>
    intro a ha he hpol
    have hk : ¬ Skipped tree (some dir) policy a := by
      simp [Skipped, hpol]
    rw [hcontent, if_neg]
    · exact get?_entries hs ha hk _
    · rintro ⟨p, hmem, hq⟩
      obtain ⟨b, hb, hfresh, rfl⟩ := eq_destination_of_erased hmem
      rw [hsite b hb] at hq
      have := List.inj_on_of_nodup_map hs.distinct hb ha hq
      rw [this, he] at hfresh
      cases hfresh
  case created =>
    intro a ha he
    have hk : ¬ Skipped tree (some dir) policy a := by
      simp [Skipped, site, he]
    obtain ⟨gone, hmem⟩ := exists_mem_removals stuck (mem_newFiles.mpr ⟨a, ha, he, rfl⟩)
    refine ⟨gone, hmem, ?_⟩
    cases gone with
    | true =>
      rw [hcontent, if_pos ⟨_, mem_erased.mpr hmem, hsite a ha⟩]
      rfl
    | false =>
      rw [hcontent, if_neg]
      · exact get?_entries hs ha hk _
      · rintro ⟨p, hp, hq⟩
        have := gone_unique hs.nodup_newFiles (mem_erased.mp hp) hmem (hq.trans (hsite a ha).symm)
        cases this
  case others =>
    intro q hq
    rw [hcontent, if_neg, get?_entries_of_ne hs.relative hq]
    · rfl
    · rintro ⟨p, hmem, hpq⟩
      obtain ⟨b, hb, hfresh, rfl⟩ := eq_destination_of_erased hmem
      refine hq b hb ?_ ((hsite b hb).symm.trans hpq)
      simp [Skipped, site, hfresh]
  case restored =>
    intro hpol hall
    have hover : ∀ a ∈ done, (planWrite tree (some dir) policy a).decision ≠ .overwrite :=
      fun a ha hd => hpol (hp a ha hd)
    rw [hfiles, erased_eq_self hall, ← entries_of_not_overwrite hover]
    refine PathMap.eraseAll_insertAll hs.nodup_entries fun entry hmem => ?_
    have hfresh : entry.1 ∈ newFiles tree dir done := by
      rw [← entries_of_not_overwrite hover, List.mem_reverse]
      exact List.mem_map_of_mem hmem
    obtain ⟨b, hb, he, hbe⟩ := mem_newFiles.mp hfresh
    rw [← hbe, PathMap.contains_congr _ (hsite b hb)]
    rwa [fileExists_eq] at he

/-- Whether it succeeds or fails, a commit inserts the entries of the writes it carries out and
erases some of the files that it has created. -/
theorem files_commitWrites (tree : σ) (base : Path) (ws : List PlannedWrite) :
    ∃ gone, carriedOut tree base ws <+: ws ∧
      (∀ p ∈ gone, ∃ w ∈ carriedOut tree base ws,
        w.decision = .create ∧ destination base w.artifact = p) ∧
      (memory (commitWrites tree base [] ws).2).files =
        ((memory tree).files.insertAll (entries base (carriedOut tree base ws))).eraseAll gone := by
  rcases hc : commitWrites tree base [] ws with ⟨result, tree'⟩
  cases result with
  | ok outcomes =>
    have hm := commitWrites_ok hc
    rw [commitWrites_memory] at hm
    simp only [Prod.mk.injEq] at hm
    rw [carriedOut_of_ok hc]
    refine ⟨[], List.prefix_refl ws, by simp, ?_⟩
    rw [← hm.2, files_foldl_perform]
    rfl
  | error failure =>
    obtain ⟨done, w, rest, outcomes, middle, cause, stuck, rfl, hd, hok, hw, -, htree⟩ :=
      commitWrites_error hc
    have hm := commitWrites_ok hok
    rw [commitWrites_memory] at hm
    simp only [Prod.mk.injEq, Except.ok.injEq] at hm
    rw [List.append_nil, ← hm.1, createdPaths_report] at htree
    rw [carriedOut_append hok, carriedOut_stuck hd hw, List.append_nil]
    generalize hcreated : List.reverse _ = created at htree
    refine ⟨erased stuck created, List.prefix_append done _, fun p hp => ?_, ?_⟩
    · have hmem := mem_of_mem_erased hp
      simpa [← hcreated, and_assoc] using hmem
    · rw [htree, memory_rollBack, files_write_error hw, ← hm.2, files_foldl_perform]

theorem files_commit (tree : σ) (dir : Path) (policy : CollisionPolicy) (as : List Artifact) :
    ∃ done gone, done <+: as ∧ (∀ p ∈ gone, p ∈ newFiles tree dir done) ∧
      (memory (commit ⟨some dir, as.map (planWrite tree (some dir) policy)⟩ tree).2).files =
        ((memory tree).files.insertAll
          (entries dir (done.map (planWrite tree (some dir) policy)))).eraseAll gone := by
  obtain ⟨gone, ⟨rest', hws⟩, hgone, hfiles⟩ :=
    files_commitWrites tree dir (as.map (planWrite tree (some dir) policy))
  obtain ⟨done, rest, rfl, hdone, -⟩ := List.map_eq_append_iff.mp hws.symm
  rw [← hdone] at hgone hfiles
  refine ⟨done, gone, List.prefix_append done rest, fun p hp => ?_, hfiles⟩
  obtain ⟨w, hw, hd, rfl⟩ := hgone p hp
  obtain ⟨a, ha, rfl⟩ := List.mem_map.mp hw
  rw [planWrite_artifact]
  exact mem_newFiles.mpr ⟨a, ha, (decision_eq_create.mp hd).2, rfl⟩

/-- A commit touches no file but those of the artifacts it does not skip. -/
theorem content?_commit {base : Option Path} {tx : Transaction} {q : Path}
    (hp : plan tree base as policy = .ok tx)
    (hr : ∀ a ∈ as, (Path.mk a.relativePath).isAbsolute = false)
    (hq : ∀ a ∈ as, ¬ Skipped tree base policy a → (site base a).components ≠ q.components) :
    (memory (tx.commit tree).2).content? q = (memory tree).content? q := by
  obtain ⟨rfl, -⟩ := plan_ok hp
  cases base with
  | none => rfl
  | some dir =>
    obtain ⟨done, gone, hdone, hgone, hfiles⟩ := files_commit tree dir policy as
    rw [MemoryTree.content?, hfiles, PathMap.get?_eraseAll, if_neg,
      get?_entries_of_ne (fun a ha => hr a (hdone.subset ha)) fun a ha => hq a (hdone.subset ha)]
    · rfl
    · rintro ⟨p, hmem, hpq⟩
      obtain ⟨b, hb, hfresh, rfl⟩ := mem_newFiles.mp (hgone p hmem)
      rw [components_site (hr b (hdone.subset hb))] at hpq
      refine hq b (hdone.subset hb) ?_ hpq
      simp [Skipped, site, hfresh]

/-- Without the overwriting policy a commit changes no file that was there. -/
theorem content?_commit_of_exists {base : Option Path} {tx : Transaction} {q : Path}
    (hp : plan tree base as policy = .ok tx)
    (hr : ∀ a ∈ as, (Path.mk a.relativePath).isAbsolute = false) (hpol : policy ≠ .overwrite)
    (hq : fileExists tree q = true) :
    (memory (tx.commit tree).2).content? q = (memory tree).content? q := by
  refine content?_commit hp hr fun a ha hk hsite => hpol ?_
  have he : fileExists tree (site base a) = true := by
    rw [fileExists_eq] at hq ⊢
    exact (PathMap.contains_congr _ hsite).trans hq
  refine overwrite_of_plan hp ha (decision_eq_overwrite.mpr ⟨?_, he, ?_⟩)
  · exact fun hb => hk (.inl hb)
  · exact fun hs => hk (.inr ⟨he, hs⟩)

/-- A commit that fails on the tree it was planned on was stuck at one artifact. Its failure wraps
what stopped it there, and what was carried out before is rolled back. -/
theorem commit_failure_rolls_back (tree tree' : σ) (base : Option Path) (policy : CollisionPolicy)
    (as : List Artifact) (tx : Transaction) (failure : Failure) (hs : Separate base as)
    (hp : plan tree base as policy = .ok tx) (hf : tx.commit tree = (.error failure, tree')) :
    ∃ dir done a rest, base = some dir ∧ as = done ++ a :: rest ∧
      ¬ Skipped tree base policy a ∧
      ∃ outcomes middle cause stuck,
        Transaction.commit ⟨base, tx.writes.take done.length⟩ tree = (.ok outcomes, middle) ∧
        write middle dir a = (.error cause, stuck) ∧
        let removed := removals stuck (newFiles tree dir done)
        failure = .commitFailed (removed.countP Prod.snd) cause ∧
          RolledBack tree tree' dir policy done removed := by
  obtain ⟨rfl, -⟩ := plan_ok hp
  cases base with
  | none => simp [commit] at hf
  | some dir =>
    obtain ⟨done', w, rest', outcomes, middle, cause, stuck, hws, hd, hc, hw, hfail, htree⟩ :=
      commitWrites_error hf
    obtain ⟨done, more, rfl, rfl, hmore⟩ := List.map_eq_append_iff.mp hws
    obtain ⟨a, rest, rfl, rfl, rfl⟩ := List.map_eq_cons_iff.mp hmore
    rw [planWrite_artifact] at hw
    have hmem := commitWrites_ok hc
    rw [commitWrites_memory] at hmem
    simp only [Prod.mk.injEq, Except.ok.injEq] at hmem
    rw [List.append_nil, ← hmem.1, createdPaths_planned] at hfail htree
    refine ⟨dir, done, a, rest, rfl, rfl, fun hk => hd (decision_eq_skip.mpr hk), outcomes, middle,
      cause, stuck, ?_, hw, ?_, ?_⟩
    · simpa [commit] using hc
    · rw [hfail, rollBack_fst]
    · rw [htree]
      refine rolledBack hs.of_append (fun b hb => overwrite_of_plan hp (by simp [hb])) ?_
      rw [files_write_error hw, ← hmem.2, files_foldl_perform]

/-- One file is replaced; the fourth insertion and the first removal fail. -/
theorem commit_failure_rolls_back_at_controller :
    let tree : FaultyTree MemoryTree :=
      { tree := MemoryTree.withFile {} ⟨"app/service/AService.java"⟩ "old"
        schedule := ⟨(· == 3), fun _ => false, (· == 0)⟩ }
    let as : List Artifact :=
      [⟨.dto, "app.service.model", "service/model", "ADto.java", "new dto"⟩,
        ⟨.service, "app.service", "service", "AService.java", "new service"⟩,
        ⟨.mapper, "app.mapper", "mapper", "AMapper.java", "new mapper"⟩,
        ⟨.controller, "app.web", "web", "AController.java", "new controller"⟩]
    ∃ tx tree' done removed, plan tree (some ⟨"app"⟩) as .overwrite = .ok tx ∧
      tx.commit tree =
        (.error (.commitFailed 1 (.notWritten ⟨"app/web/AController.java"⟩ "disk full")), tree') ∧
      RolledBack tree tree' ⟨"app"⟩ .overwrite done removed := by
  intro tree as
  have hs : Separate (some ⟨"app"⟩) as := ⟨by decide +kernel, by decide +kernel⟩
  let tx : Transaction := ⟨some ⟨"app"⟩, as.map (planWrite tree (some ⟨"app"⟩) .overwrite)⟩
  have hf : (tx.commit tree).1 =
      .error (.commitFailed 1 (.notWritten ⟨"app/web/AController.java"⟩ "disk full")) := by
    decide +kernel
  obtain ⟨dir, done, a, rest, hdir, -, -, _, _, _, _, -, -, -, hr⟩ :=
    commit_failure_rolls_back tree _ (some ⟨"app"⟩) .overwrite as tx _ hs rfl (Prod.ext hf rfl)
  cases hdir
  exact ⟨tx, _, done, _, rfl, Prod.ext hf rfl, hr⟩

end Scaffold.Transaction
