import Scaffold.Proofs.RollBacks

/-!
# Plans that have gone stale

A plan looks at the tree once, so a commit may meet a tree that has changed
since. A file that has come to where the plan creates one is replaced, and is
gone when the commit is rolled back after that. Every other file is safe from
a commit that was planned without the overwriting policy, whatever happened
in between and whichever changes fail.
-/

namespace Scaffold

open ProjectTree MemoryBacked

/-- What may happen to a tree between a plan and its commit. -/
inductive Change
  | addDirectory (path : Path)
  | addFile (path : Path) (content : String)
  | create (directory : Path) (name : String)
  | insert (directory : Path) (name content : String)
  | remove (path : Path)

def Change.apply (t : MemoryTree) : Change → MemoryTree
  | addDirectory path => t.withDirectory path
  | addFile path content => t.withFile path content
  | create directory name => (createSubdirectory t directory name).2
  | insert directory name content => (insertTextFile t directory name content).2
  | remove path => (removeFile t path).2

namespace Transaction

/-- The writes of a plan that do not overwrite go where no file stood. -/
theorem absent_of_plan {σ : Type} [ProjectTree σ] {tree : σ} {base : Option Path}
    {as : List Artifact} {policy : CollisionPolicy} {tx : Transaction} {w : PlannedWrite}
    (hp : plan tree base as policy = .ok tx) (hpol : policy ≠ .overwrite) (hw : w ∈ tx.writes)
    (hd : w.decision ≠ .skip) : fileExists tree w.path = false := by
  obtain ⟨rfl, -⟩ := plan_ok hp
  obtain ⟨a, ha, rfl⟩ := List.mem_map.mp hw
  rw [planWrite_path]
  cases hdec : (planWrite tree base policy a).decision with
  | skip => exact absurd hdec hd
  | create => exact (decision_eq_create.mp hdec).2
  | overwrite => exact absurd (overwrite_of_plan hp ha hdec) hpol

section
variable {σ : Type} [ProjectTree σ] [MemoryBacked σ] {tree : σ} {base q : Path}
  {ws : List PlannedWrite}

/-- A commit touches no file but those of the writes it carries out, whatever they were planned
on. -/
theorem content?_commitWrites
    (hq : ∀ w ∈ carriedOut tree base ws, w.decision ≠ .skip →
      (destination base w.artifact).components ≠ q.components) :
    (memory (commitWrites tree base [] ws).2).content? q = (memory tree).content? q := by
  obtain ⟨gone, -, hgone, hfiles⟩ := files_commitWrites tree base ws
  rw [MemoryTree.content?, hfiles, PathMap.get?_eraseAll, if_neg]
  · refine PathMap.get?_insertAll_of_ne fun entry hmem => ?_
    obtain ⟨w, hw, rfl⟩ := List.mem_map.mp hmem
    obtain ⟨hw, hd⟩ := List.mem_filter.mp hw
    exact hq w hw (by simpa using hd)
  · rintro ⟨p, hp, hpq⟩
    obtain ⟨w, hw, hd, rfl⟩ := hgone p hp
    exact hq w hw (by simp [hd]) hpq

end

/-- Whatever happens after a plan that does not overwrite, and whichever changes of its commit
fail, the files there when the commit starts are kept. Only those go that stand where the commit
has written and the plan had found no file. -/
theorem stale_commit_keeps (t : MemoryTree) (base : Option Path) (as : List Artifact)
    (policy : CollisionPolicy) (tx : Transaction) (hpol : policy ≠ .overwrite)
    (hp : plan t base as policy = .ok tx) (changes : List Change) (schedule : Schedule) :
    let tree : FaultyTree MemoryTree :=
      { tree := changes.foldl Change.apply t, schedule := schedule }
    ∀ q content, tree.tree.content? q = some content →
      (∀ dir, base = some dir → ∀ w ∈ carriedOut tree dir tx.writes,
        fileExists t w.path = false → (destination dir w.artifact).components ≠ q.components) →
      (tx.commit tree).2.tree.content? q = some content := by
  intro tree q content hq hfresh
  rw [← hq]
  obtain ⟨rfl, -⟩ := plan_ok hp
  cases base with
  | none => rfl
  | some dir =>
    obtain ⟨-, hfront, -⟩ := files_commitWrites tree dir (as.map (planWrite t (some dir) policy))
    have hother : ∀ w ∈ carriedOut tree dir (as.map (planWrite t (some dir) policy)),
        w.decision ≠ .skip → (destination dir w.artifact).components ≠ q.components :=
      fun w hw hd => hfresh dir rfl w hw (absent_of_plan hp hpol (hfront.subset hw) hd)
    exact content?_commitWrites hother

/-- The service is edited and a mapper appears after the plan, and the second insertion fails. -/
theorem stale_commit_keeps_mapper :
    let t := MemoryTree.withFile {} ⟨"app/service/AService.java"⟩ "old"
    let as : List Artifact :=
      [⟨.dto, "app.service.model", "service/model", "ADto.java", "new dto"⟩,
        ⟨.service, "app.service", "service", "AService.java", "new service"⟩,
        ⟨.mapper, "app.mapper", "mapper", "AMapper.java", "new mapper"⟩]
    let changes : List Change :=
      [.addFile ⟨"app/service/AService.java"⟩ "edited", .create ⟨"app"⟩ "mapper",
        .insert ⟨"app/mapper"⟩ "AMapper.java" "mine"]
    let tree : FaultyTree MemoryTree :=
      { tree := changes.foldl Change.apply t
        schedule := ⟨(· == 1), fun _ => false, fun _ => false⟩ }
    ∃ tx, plan t (some ⟨"app"⟩) as .skip = .ok tx ∧
      (tx.commit tree).1 = .error (.commitFailed 1
        (.notWritten ⟨"app/mapper/AMapper.java"⟩ "disk full")) ∧
      (tx.commit tree).2.tree.content? ⟨"app/service/AService.java"⟩ = some "edited" ∧
      (tx.commit tree).2.tree.content? ⟨"app/mapper/AMapper.java"⟩ = some "mine" := by
  intro t as changes tree
  let tx : Transaction := ⟨some ⟨"app"⟩, as.map (planWrite t (some ⟨"app"⟩) .skip)⟩
  have hkeeps := stale_commit_keeps t (some ⟨"app"⟩) as .skip tx (by decide) rfl changes
    tree.schedule
  refine ⟨tx, rfl, by decide +kernel, ?_, ?_⟩
  · refine hkeeps _ _ (by decide +kernel) ?_
    rintro dir ⟨⟩
    decide +kernel
  · refine hkeeps _ _ (by decide +kernel) ?_
    rintro dir ⟨⟩
    decide +kernel

/-- A mapper that appears after the plan is replaced, and it is gone when a later insertion
fails. -/
theorem stale_commit_replaces_mapper :
    let as : List Artifact :=
      [⟨.mapper, "app.mapper", "mapper", "AMapper.java", "new mapper"⟩,
        ⟨.service, "app.service", "service", "AService.java", "new service"⟩]
    let changes : List Change :=
      [.create ⟨"app"⟩ "mapper", .insert ⟨"app/mapper"⟩ "AMapper.java" "mine"]
    let tree : FaultyTree MemoryTree := { tree := changes.foldl Change.apply {} }
    let failing := tree.withSchedule ⟨(· == 1), fun _ => false, fun _ => false⟩
    ∃ tx, plan ({} : MemoryTree) (some ⟨"app"⟩) as .error = .ok tx ∧
      tree.tree.content? ⟨"app/mapper/AMapper.java"⟩ = some "mine" ∧
      (tx.commit tree).2.tree.content? ⟨"app/mapper/AMapper.java"⟩ = some "new mapper" ∧
      (tx.commit failing).2.tree.content? ⟨"app/mapper/AMapper.java"⟩ = none := by
  intro as changes tree failing
  exact ⟨⟨some ⟨"app"⟩, as.map (planWrite ({} : MemoryTree) (some ⟨"app"⟩) .error)⟩, rfl,
    by decide +kernel, by decide +kernel, by decide +kernel⟩

end Transaction

end Scaffold
