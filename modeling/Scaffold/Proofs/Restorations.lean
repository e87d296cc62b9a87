import Scaffold.Proofs.DiskWrites
import Scaffold.Proofs.RollBacks

/-!
# Failed commits on the disk

On the disk a change fails where something is in its way. While a commit that
does not overwrite is under way, the disk has grown by the files written and
by directories on the way to them. A write that fails adds directories only,
and every file that was written can be removed again, so all files are as
they were before the commit.
-/

namespace Scaffold.Disk

open ProjectTree Transaction

variable {d d' middle stuck : Disk} {base path : Path} {b l : Location} {e : Entity} {c : Context}
  {k : Kind} {written kinds : List Kind} {policy : CollisionPolicy} {outcomes : List Outcome}

/-- The places on the way to the files of the kinds. -/
def Roads (d : Disk) (base : Path) (kinds : List Kind) (l : Location) : Prop :=
  ∃ k ∈ kinds, OnWay d base k.place l

theorem Roads.subset {kinds' : List Kind} (h : Roads d base kinds l) (hk : kinds ⊆ kinds') :
    Roads d base kinds' l := by
  obtain ⟨k, hmem, hway⟩ := h
  exact ⟨k, hk hmem, hway⟩

/-- A commit has written the files of the kinds, newest first, and nothing else. -/
structure Underway (d middle : Disk) (base : Path) (b : Location) (e : Entity) (c : Context)
    (written : List Kind) : Prop where
  sound : Sound middle
  clear : Clear middle base e.name
  reach : ∀ l, middle.reach base = .ok l → d.reach base = .ok l ∧ l = b
  grown : Grown d middle (Roads d base written) (written.map fun k => standing b (.ofKind e c k))
  locate : ∀ k ∈ written,
    middle.locate (destination base (.ofKind e c k)) = .ok (standing b (.ofKind e c k))

namespace Underway

theorem start (hs : Sound d) (hc : Clear d base e.name) (c : Context) :
    ∃ b, Underway d d base b e c [] := by
  have hreach : ∃ b, ∀ l, d.reach base = .ok l → d.reach base = .ok l ∧ l = b := by
    cases d.reach base with
    | error error => exact ⟨[], fun l hl => by cases hl⟩
    | ok l => exact ⟨l, fun m hm => ⟨hm, (Except.ok.inj hm).symm⟩⟩
  obtain ⟨b, hb⟩ := hreach
  exact ⟨b, hs, hc, hb, .refl d _, by simp⟩

/-- Directories that are added on the way of one more kind. -/
theorem descended (h : Underway d middle base b e c written)
    (hg : Grown middle d' (OnWay middle base k.place) []) :
    Grown d d' (Roads d base (k :: written)) (written.map fun k => standing b (.ofKind e c k)) := by
  refine (h.grown.mono fun l hl => hl.subset (List.subset_cons_self k written)).trans
    (hg.mono fun l hl => ?_)
  obtain ⟨b', passed, hb', hway⟩ := hl
  exact ⟨k, List.mem_cons_self, b', passed, (h.reach b' hb').1, hway⟩

/-- Nothing stands where a file goes that was missing before the commit. -/
theorem absent (h : Underway d middle base b e c written) (hs : Sound d)
    (hn : '/' ∉ e.name.toList) (hb : d.reach base = .ok b) (hk : k ∉ written)
    (hfile : d.isFile (destination base (.ofKind e c k)) = false)
    (hg : Grown middle d' (OnWay middle base k.place) [])
    (hl : d'.locate (destination base (.ofKind e c k)) = .ok (standing b (.ofKind e c k)))
    (hdir : d'.entry? (standing b (.ofKind e c k)) ≠ some .directory) :
    d'.entry? (standing b (.ofKind e c k)) = none := by
  cases he : d'.entry? (standing b (.ofKind e c k)) with
  | none => rfl
  | some entry =>
    cases entry with
    | directory => exact absurd he hdir
    | file content =>
      have hfresh : standing b (.ofKind e c k) ∉ written.map fun k => standing b (.ofKind e c k) := by
        intro hmem
        obtain ⟨k', hk', heq⟩ := List.mem_map.mp hmem
        exact hk (standing_inj heq ▸ hk')
      -- No file was added, so this one was there before the commit, and a plan sees it.
      obtain heq | ⟨-, hdirectory, -⟩ := (h.descended hg).other _ hfresh
      · rw [heq] at he
        have hread := ((locate_destination hn).mp hl).1
        have hthere : d.entry? (standing b (.ofKind e c k)) ≠ none := by simp [he]
        have hreach := reach_destination hs hn hb hthere
        rw [(isFile_destination hn).mpr ⟨hread, _, content, hreach, he⟩] at hfile
        cases hfile
      · exact absurd hdirectory hdir

/-- One more file is written. -/
theorem write (h : Underway d middle base b e c written) (hs : Sound d)
    (hn : '/' ∉ e.name.toList) (hk : k ∉ written)
    (hfile : d.isFile (destination base (.ofKind e c k)) = false)
    (hw : Writes middle base (.ofKind e c k) (.ok path) d') :
    Underway d d' base b e c (k :: written) := by
  have hkeeps := hw.keeps
  obtain ⟨b', hb'⟩ := hw.reach
  obtain ⟨hb, rfl⟩ := h.reach b' hb'
  constructor
  case sound => exact hw.sound hn
  case clear => exact hw.clear h.clear
  case reach =>
    intro l hl
    obtain rfl : b' = l := Except.ok.inj ((hkeeps.reach hb').symm.trans hl)
    exact ⟨hb, rfl⟩
  case grown =>
    cases hw with
    | @stored b'' _ walked _ hb'' _ _ hgrown hl hdir halike =>
      obtain rfl : b'' = b' := Except.ok.inj (hb''.symm.trans hb')
      rw [segments_ofKind] at hgrown
      have hnone := h.absent hs hn hb hk hfile hgrown hl hdir
      exact ((h.descended hgrown).put_file hnone _).congr halike
  case locate =>
    intro l hl
    rcases List.mem_cons.mp hl with rfl | hl
    · exact hw.locate hb'
    · exact hkeeps.locate (h.locate l hl)

/-- All files that were written can be removed. -/
theorem rollBack_written {roads : Location → Prop}
    (hg : Grown d stuck roads (written.map fun k => standing b (.ofKind e c k)))
    (hn : '/' ∉ e.name.toList)
    (hl : ∀ k ∈ written,
      stuck.locate (destination base (.ofKind e c k)) = .ok (standing b (.ofKind e c k))) :
    (rollBack stuck (written.map fun k => destination base (.ofKind e c k))).1 = written.length ∧
      Grown d (rollBack stuck (written.map fun k => destination base (.ofKind e c k))).2 roads
        [] := by
  induction written generalizing stuck with
  | nil => exact ⟨rfl, hg⟩
  | cons k written ih =>
    rw [List.map_cons] at hg
    obtain ⟨-, content, hfile⟩ := hg.new _ List.mem_cons_self
    have hslash := endsInSlash_destination hn base c k
    have hdelete : stuck.deleteFile (destination base (.ofKind e c k)) =
        .ok (stuck.remove (standing b (.ofKind e c k))) :=
      deleteFile_ok.mpr ⟨_, content, hl k List.mem_cons_self, hfile, hslash, rfl⟩
    have hkeeps : KeepsDirectories stuck (stuck.remove (standing b (.ofKind e c k))) :=
      keeps_remove (by simp [hfile])
    obtain ⟨hcount, hrest⟩ := ih hg.remove fun k' hk' =>
      hkeeps.locate (hl k' (List.mem_cons_of_mem k hk'))
    have hremove : removeFile stuck (destination base (.ofKind e c k)) =
        (.ok (), stuck.remove (standing b (.ofKind e c k))) := by
      simp only [removeFile, hdelete]
    simp only [List.map_cons, rollBack, hremove, List.length_cons, hcount]
    exact ⟨trivial, hrest⟩

/-- Whatever the plan, the writes of kinds that are not overwritten keep the commit under way. -/
theorem run {created : List Path} (h : Underway d middle base b e c written) (hs : Sound d)
    (hn : '/' ∉ e.name.toList) (hk : (kinds.reverse ++ written).Nodup)
    (hp : ∀ k ∈ kinds, (planWrite d (some base) policy (.ofKind e c k)).decision ≠ .overwrite)
    (hrun : commitWrites middle base created
      (kinds.map fun k => planWrite d (some base) policy (.ofKind e c k)) = (.ok outcomes, d')) :
    ∃ more, (∀ k ∈ more, k ∈ kinds ∧ ¬ Skipped d (some base) policy (.ofKind e c k)) ∧
      createdPaths outcomes = more.map (fun k => destination base (.ofKind e c k)) ∧
      Underway d d' base b e c (more ++ written) := by
  induction kinds generalizing middle written created outcomes with
  | nil =>
    simp only [List.map_nil, commitWrites, Prod.mk.injEq, Except.ok.injEq] at hrun
    obtain ⟨rfl, rfl⟩ := hrun
    exact ⟨[], by simp, rfl, h⟩
  | cons k kinds ih =>
    have hp' := fun l hl => hp l (List.mem_cons_of_mem k hl)
    obtain ⟨o, rest, next, rfl, hstep, hrest⟩ := commitWrites_cons_ok hrun
    rw [List.reverse_cons, List.append_assoc, List.singleton_append] at hk
    rw [createdPaths_cons]
    cases hstep with
    | skip hd =>
      have hk' := hk.sublist ((List.sublist_cons_self k written).append_left _)
      obtain ⟨more, hmore, hpaths, hnext⟩ := ih h hk' hp' hrest
      refine ⟨more, fun l hl => ⟨List.mem_cons_of_mem k (hmore l hl).1, (hmore l hl).2⟩, ?_, hnext⟩
      rw [hpaths]
      exact List.append_nil _
    | @create _ path hd hw =>
      have hfresh : k ∉ written := (List.nodup_cons.mp (List.nodup_append.mp hk).2.1).1
      have hfile : d.isFile (destination base (.ofKind e c k)) = false := by
        rw [destination_eq_target hn]
        exact (decision_eq_create.mp hd).2
      have hwrites := write_writes h.sound hn h.clear c k
      rw [planWrite_artifact] at hw
      rw [hw] at hwrites
      obtain ⟨more, hmore, hpaths, hnext⟩ :=
        ih (h.write hs hn hfresh hfile hwrites) hk hp' hrest
      refine ⟨more ++ [k], fun l hl => ?_, ?_, ?_⟩
      · rcases List.mem_append.mp hl with hl | hl
        · exact ⟨List.mem_cons_of_mem k (hmore l hl).1, (hmore l hl).2⟩
        · rw [List.mem_singleton.mp hl]
          exact ⟨List.mem_cons_self, fun hskip => by simp [decision_eq_skip.mpr hskip] at hd⟩
      · rw [hpaths, List.map_append, List.map_singleton, ← hwrites.path_eq]
        rfl
      · rwa [List.append_assoc]
    | overwrite hd _ => exact absurd hd (hp k List.mem_cons_self)

end Underway

/-- All files are as before, none has come, and what else has come are directories on the roads. -/
structure Restored (d d' : Disk) (roads : Location → Prop) : Prop where
  files : ∀ l content, d'.entry? l = some (.file content) ↔ d.entry? l = some (.file content)
  others : ∀ l, d'.entry? l = d.entry? l ∨
    d.entry? l = none ∧ d'.entry? l = some .directory ∧ roads l

theorem Grown.restored {roads : Location → Prop} (h : Grown d d' roads []) :
    Restored d d' roads where
  files l content := by
    obtain heq | ⟨hnone, hdir, -⟩ := h.other l (by simp)
    · rw [heq]
    · simp [hnone, hdir]
  others l := h.other l (by simp)

/-- A commit that does not overwrite and fails on the disk it was planned on was stuck at one
artifact. It removes all files it has written, and leaves at most directories on their ways. -/
theorem failed_commit_restores (d d' : Disk) (base : Option Path) (policy : CollisionPolicy)
    (e : Entity) (c : Context) (tx : Transaction) (failure : Failure) (hs : Sound d)
    (hn : '/' ∉ e.name.toList) (hc : ∀ dir, base = some dir → Clear d dir e.name)
    (hpol : policy ≠ .overwrite)
    (hp : plan d base (Artifact.generateAll e c) policy = .ok tx)
    (hf : tx.commit d = (.error failure, d')) :
    ∃ dir done k rest, base = some dir ∧ Kind.all = done ++ k :: rest ∧
      ¬ Skipped d base policy (.ofKind e c k) ∧
      ∃ outcomes middle cause stuck,
        Transaction.commit ⟨base, tx.writes.take done.length⟩ d = (.ok outcomes, middle) ∧
        Transaction.write middle dir (.ofKind e c k) = (.error cause, stuck) ∧
        ∃ files : List Location, files.Nodup ∧
          (∀ l, l ∈ files ↔ d.entry? l = none ∧ ∃ content, middle.entry? l = some (.file content)) ∧
          failure = .commitFailed files.length cause ∧
          Restored d d' fun l => ∃ k' ∈ done ++ [k],
            ¬ Skipped d base policy (.ofKind e c k') ∧ OnWay d dir k'.place l := by
  have hdecision : ∀ a ∈ Artifact.generateAll e c,
      (planWrite d base policy a).decision ≠ .overwrite :=
    fun a ha hd => hpol (overwrite_of_plan hp ha hd)
  obtain ⟨rfl, -⟩ := plan_ok hp
  cases base with
  | none => simp [commit] at hf
  | some dir =>
    obtain ⟨done', w, rest', outcomes, middle, cause, stuck, hws, hd, hok, hw, hfail, hd'⟩ :=
      commitWrites_error hf
    rw [Artifact.generateAll, List.map_map] at hws
    obtain ⟨done, more, hall, rfl, hmore⟩ := List.map_eq_append_iff.mp hws
    obtain ⟨k, rest, rfl, rfl, rfl⟩ := List.map_eq_cons_iff.mp hmore
    rw [Function.comp_apply, planWrite_artifact] at hw
    have hskipped : ¬ Skipped d (some dir) policy (.ofKind e c k) :=
      fun hk => hd (decision_eq_skip.mpr hk)
    obtain ⟨b, hstart⟩ := Underway.start hs (hc dir rfl) c
    have hdone : done.Sublist Kind.all := hall ▸ List.sublist_append_left done _
    have hnodup : (done.reverse ++ []).Nodup := by
      have hkinds : Kind.all.Nodup := by decide
      simpa using hkinds.sublist hdone
    obtain ⟨written, hwritten, hpaths, hunder⟩ := hstart.run hs hn hnodup
      (fun l hl => hdecision _ (List.mem_map_of_mem (hdone.subset hl))) hok
    rw [List.append_nil] at hunder
    rw [List.append_nil, hpaths] at hfail hd'
    have hrefused := write_writes hunder.sound hn hunder.clear c k
    rw [hw] at hrefused
    cases hrefused with
    | refused hsound hgrown =>
      rw [segments_ofKind] at hgrown
      obtain ⟨hcount, hrest⟩ := Underway.rollBack_written (hunder.descended hgrown) hn
        fun l hl => hgrown.keeps.locate (hunder.locate l hl)
      refine ⟨dir, done, k, rest, rfl, hall, hskipped, outcomes, middle, cause, stuck, ?_, hw,
        written.map fun k => standing b (.ofKind e c k), hunder.grown.nodup,
        fun l => hunder.grown.mem_files, ?_, ?_⟩
      · simpa [commit, Artifact.generateAll, hall] using hok
      · rw [hfail, hcount, List.length_map]
      · rw [hd']
        refine (hrest.mono fun l hl => ?_).restored
        obtain ⟨k', hk', hway⟩ := hl
        rcases List.mem_cons.mp hk' with rfl | hk'
        · exact ⟨k', by simp, hskipped, hway⟩
        · exact ⟨k', List.mem_append_left _ (hwritten k' hk').1, (hwritten k' hk').2, hway⟩

/-- A file stands where the directory of the second artifact has to be made. -/
theorem failed_commit_restores_at_dto :
    let d := (({} : Disk).put ["app"] .directory).put ["app", "service"] (.file "mine".toUTF8)
    let e : Entity := ⟨"A", "app.A", [], .java⟩
    let c : Context := ⟨"app", some ⟨"app"⟩⟩
    ∃ tx d', plan d (some ⟨"app"⟩) (Artifact.generateAll e c) .skip = .ok tx ∧
      tx.commit d = (.error (.commitFailed 1
        (.directoryNotCreated ⟨"app/service"⟩ "File exists (os error 17)")), d') ∧
      ∀ l content, d'.entry? l = some (.file content) ↔ d.entry? l = some (.file content) := by
  intro d e c
  have happ : Sound (({} : Disk).put ["app"] .directory) :=
    sound_empty.put (l := []) rfl (by decide) (by decide) fun _ => rfl
  have hs : Sound d := happ.put (l := ["app"]) rfl (by decide) (by decide) (by decide)
  have hreach : d.reach ⟨"app"⟩ = .ok ["app"] := by decide +kernel
  have hc : ∀ dir, some (Path.mk "app") = some dir → Clear d dir e.name := by
    rintro dir ⟨⟩ b hb k
    obtain rfl : ["app"] = b := Except.ok.inj (hreach.symm.trans hb)
    cases k <;> decide +kernel
  let tx : Transaction :=
    ⟨some ⟨"app"⟩, (Artifact.generateAll e c).map (planWrite d (some ⟨"app"⟩) .skip)⟩
  have hf : (tx.commit d).1 = .error (.commitFailed 1
      (.directoryNotCreated ⟨"app/service"⟩ "File exists (os error 17)")) := by decide +kernel
  rcases hcommit : tx.commit d with ⟨result, d'⟩
  obtain rfl : result = _ := (congrArg Prod.fst hcommit).symm.trans hf
  obtain ⟨_, _, _, _, -, -, -, _, _, _, _, -, -, _, -, -, -, hrestored⟩ :=
    failed_commit_restores d d' _ .skip e c tx _ hs (by decide) hc (by decide) rfl hcommit
  exact ⟨tx, d', rfl, hcommit, hrestored.files⟩

end Scaffold.Disk
