import Scaffold.Proofs.DiskWrites

/-!
# The tree in memory agrees with the disk

A tree in memory agrees with a disk when it has the same directories and
files under the paths that are spelled with names only, read from the root or
from the working directory. A commit that succeeds on the disk succeeds in
memory as well, with the same outcomes, and leaves trees that agree. Plans
differ in one case only: the disk does not see a file under a path that is
spelled too long.
-/

namespace Scaffold

open ProjectTree Transaction Scaffold.Path

variable {rooted : Bool} {names more : List String} {name : String} {p q base : Path}

-- ---------------------------------------------------------------------------
-- Paths of names
-- ---------------------------------------------------------------------------

namespace Path

/-- The components are the names, behind the root when the path is read from there. -/
def Normal (rooted : Bool) (names : List String) (p : Path) : Prop :=
  p.components = (if rooted then [.root] else []) ++ names.map .normal

instance : Decidable (Normal rooted names p) :=
  inferInstanceAs (Decidable (_ = _))

theorem Normal.join (hp : Normal rooted names p) (h : IsName name) :
    Normal rooted (names ++ [name]) (p.join name) := by
  rw [Normal, h.components_join, hp]
  simp

theorem Normal.foldl (hp : Normal rooted names p) (h : ∀ name ∈ more, IsName name) :
    Normal rooted (names ++ more) (more.foldl Path.join p) := by
  rw [Normal, components_foldl_names h, hp]
  simp

theorem Normal.congr (hp : Normal rooted names p) (h : p.components = q.components) :
    Normal rooted names q :=
  h.symm.trans hp

theorem Normal.components_inj (hp : Normal rooted names p) (hq : Normal rooted more q) :
    p.components = q.components ↔ names = more := by
  rw [hp, hq, List.append_cancel_left_eq]
  exact List.map_inj_right fun _ _ h => Component.normal.inj h

/-- A character of a spelling stands in a name, unless it is a slash or a dot. -/
theorem exists_normal_of_mem {c : Char} (h : c ∈ p.spelling.toList) (hslash : c ≠ '/')
    (hdot : c ≠ '.') : ∃ name, .normal name ∈ p.components ∧ c ∈ name.toList := by
  obtain ⟨name, hname, hc⟩ := exists_normal_of_mem_text h hslash hdot
  exact ⟨name, List.mem_append_right _ hname, hc⟩

/-- A name with slashes behind it. -/
def slashed (name : String) (n : Nat) : Path :=
  ⟨name ++ String.ofList (List.replicate n '/')⟩

theorem added_slashes (n : Nat) : added (List.replicate n '/') = [] := by
  induction n with
  | zero => exact added_nil
  | succ n ih =>
    have h := added_slash [] (List.replicate n '/')
    rwa [added_nil, ih] at h

theorem normal_slashed (h : IsName name) (n : Nat) : Normal false [name] (slashed name (n + 1)) := by
  have hspelling : (slashed name (n + 1)).spelling.toList =
      name.toList ++ '/' :: List.replicate n '/' := by
    simp [slashed, List.replicate_succ]
  rw [Normal, components, componentsOf_eq, hspelling, leadComponents_slash _ h.ne_empty,
    h.leadComponents, added_slash, h.added, added_slashes]
  simp

theorem utf8ByteSize_slashes (n : Nat) :
    (String.ofList (List.replicate n '/')).utf8ByteSize = n := by
  induction n with
  | zero => rfl
  | succ n ih =>
    have h : String.ofList (List.replicate (n + 1) '/') =
        "/" ++ String.ofList (List.replicate n '/') := by
      rw [← String.toList_inj]
      simp [List.replicate_succ]
    have hone : "/".utf8ByteSize = 1 := by decide
    rw [h, String.utf8ByteSize_append, ih, hone, Nat.add_comm]

theorem le_utf8ByteSize_slashed (name : String) (n : Nat) :
    n ≤ (slashed name n).spelling.utf8ByteSize := by
  rw [slashed, String.utf8ByteSize_append, utf8ByteSize_slashes]
  exact Nat.le_add_left _ _

theorem le_utf8ByteSize_joinPath (p : Path) (hq : q.isAbsolute = false) :
    p.spelling.utf8ByteSize ≤ (p.joinPath q).spelling.utf8ByteSize := by
  simp only [isAbsolute, decide_eq_false_iff_not] at hq
  rw [joinPath, Path.join, if_neg hq]
  cases hl : p.spelling.toList.getLast? with
  | none => simp_all
  | some c =>
    split
    · simp_all
    · simp only [String.utf8ByteSize_append]
      omega
    · simp only [String.utf8ByteSize_append]
      omega

end Path

namespace Disk

variable {d : Disk} {l m : Location}

/-- The place from which the names of a path are read. -/
def origin (d : Disk) (rooted : Bool) : Location :=
  if rooted then [] else d.here

/-- What is found by name after something is put under a name. -/
theorem entry?_put_names (hl : d.origin rooted ++ names ≠ []) (e : Entry) (more : List String) :
    Disk.entry? (d.put (d.origin rooted ++ names) e)
        (Disk.origin (d.put (d.origin rooted ++ names) e) rooted ++ more) =
      if names = more then some e else d.entry? (d.origin rooted ++ more) := by
  have horigin : Disk.origin (d.put (d.origin rooted ++ names) e) rooted = d.origin rooted := rfl
  rw [horigin, entry?_put d hl]
  by_cases h : names = more <;> simp [h]

theorem eq_of_walk_names (h : d.walk l (names.map .normal) = .ok m) : m = l ++ names := by
  induction names generalizing l with
  | nil =>
    cases h
    simp
  | cons name names ih =>
    rw [List.map_cons, ← List.singleton_append, walk_append] at h
    obtain ⟨middle, hmiddle, h⟩ := bind_ok.mp h
    obtain ⟨-, -, rfl⟩ := walk_name.mp hmiddle
    rw [ih h, List.append_assoc, List.singleton_append]

theorem eq_of_reach_normal (hp : Normal rooted names p) (h : d.reach p = .ok l) :
    l = d.origin rooted ++ names := by
  rw [reach, hp] at h
  cases rooted with
  | false => exact eq_of_walk_names h
  | true =>
    simp only [if_true, List.singleton_append, walk] at h
    split at h
    · cases h
    · cases h
    · exact eq_of_walk_names h

theorem Sound.reach_normal (hs : Sound d) (hhere : d.entry? d.here = some .directory)
    (hp : Normal rooted names p) (he : d.entry? (d.origin rooted ++ names) ≠ none) :
    d.reach p = .ok (d.origin rooted ++ names) := by
  rw [reach, hp]
  cases rooted with
  | false => exact hs.walk_names he
  | true =>
    simp only [if_true, List.singleton_append, walk, hhere]
    exact hs.walk_names he

theorem Sound.nulFree_names (hs : Sound d) (he : d.entry? (l ++ names) ≠ none) :
    ∀ name ∈ names, '\x00' ∉ name.toList := by
  induction names using List.reverseRecOn with
  | nil => simp
  | append_singleton names last ih =>
    rw [← List.append_assoc] at he
    intro name hname
    rcases List.mem_append.mp hname with h | h
    · exact ih (by simp [hs.parent _ _ he]) name h
    · exact List.mem_singleton.mp h ▸ hs.nulFree _ _ he

/-- A path of names to something that is there has only to be short. -/
theorem Sound.readable (hs : Sound d) (hp : Normal rooted names p) (hne : names ≠ [])
    (he : d.entry? (d.origin rooted ++ names) ≠ none)
    (hshort : p.spelling.utf8ByteSize ≤ longestPath) : Readable p where
  nulFree hmem := by
    obtain ⟨name, hcomponent, hnul⟩ := exists_normal_of_mem hmem (by decide) (by decide)
    rw [hp] at hcomponent
    have hname : name ∈ names := by cases rooted <;> simpa using hcomponent
    exact hs.nulFree_names he name hname hnul
  nonempty hempty := by
    have hnil := components_eq_nil.mpr hempty
    rw [hp] at hnil
    exact hne (List.map_eq_nil_iff.mp (List.append_eq_nil_iff.mp hnil).2)
  short := hshort

end Disk

-- ---------------------------------------------------------------------------
-- Agreement
-- ---------------------------------------------------------------------------

open Disk

/-- The tree holds the directories and files of the disk and nothing else. It need not hold the
place itself from which the names are read. -/
structure Agrees (rooted : Bool) (d : Disk) (t : MemoryTree) : Prop where
  here : d.entry? d.here = some .directory
  normal : ∀ p, t.hasDirectory p = true ∨ t.content? p ≠ none → ∃ names, Normal rooted names p
  directories : ∀ p names, Normal rooted names p → names ≠ [] →
    (t.hasDirectory p = true ↔ d.entry? (d.origin rooted ++ names) = some .directory)
  files : ∀ p names, Normal rooted names p → ∀ content,
    d.entry? (d.origin rooted ++ names) = some (.file content) ↔
      ∃ text, t.content? p = some text ∧ content = text.toUTF8

theorem MemoryTree.content?_enter (t : MemoryTree) (p q : Path) :
    (t.enter p).content? q = t.content? q := by
  unfold enter
  split <;> rfl

namespace Agrees

variable {d d' middle : Disk} {t : MemoryTree} {l : Location} {e : Entity} {c : Context}
  {k : Kind} {path : Path}

theorem congr (h : Agrees rooted d t) (ha : Alike d d') : Agrees rooted d' t := by
  have horigin : d'.origin rooted = d.origin rooted := by rw [origin, origin, ha.here]
  constructor
  case here => rw [ha.here, ha.same, h.here]
  case normal => exact h.normal
  case directories =>
    intro p names hp hne
    rw [horigin, ha.same]
    exact h.directories p names hp hne
  case files =>
    intro p names hp
    rw [horigin, ha.same]
    exact h.files p names hp

/-- A directory is added to both. -/
theorem put_directory (h : Agrees rooted d t) (hp : Normal rooted names p)
    (hnone : d.entry? (d.origin rooted ++ names) = none) :
    Agrees rooted (d.put (d.origin rooted ++ names) .directory) (t.enter p) := by
  have hput := entry?_put_names (ne_root_of_none hnone) .directory
  constructor
  case here => exact (keeps_put (by simp [hnone]) _).directory _ h.here
  case normal =>
    intro q hq
    rw [MemoryTree.content?_enter, MemoryTree.hasDirectory_enter, or_right_comm] at hq
    rcases hq with hq | hq
    · exact h.normal q hq
    · exact ⟨names, hp.congr hq⟩
  case directories =>
    intro q more hq hne
    rw [MemoryTree.hasDirectory_enter, h.directories q more hq hne, hp.components_inj hq, hput]
    by_cases hmore : names = more
    · simp [hmore]
    · simp [hmore]
  case files =>
    intro q more hq content
    rw [MemoryTree.content?_enter, ← h.files q more hq, hput]
    by_cases hmore : names = more
    · simp [← hmore, hnone]
    · simp [hmore]

/-- A file is put into both. -/
theorem put_file (h : Agrees rooted d t) (hp : Normal rooted names p)
    (hdir : d.entry? (d.origin rooted ++ names) ≠ some .directory) (text : String) :
    Agrees rooted (d.put (d.origin rooted ++ names) (.file text.toUTF8))
      { t with files := t.files.insert p text } := by
  have hput := entry?_put_names (ne_root hdir) (.file text.toUTF8)
  have hcontent : ∀ q, MemoryTree.content? { t with files := t.files.insert p text } q =
      if p.components = q.components then some text else t.content? q := PathMap.get?_insert _ p text
  constructor
  case here => exact (keeps_put hdir _).directory _ h.here
  case normal =>
    intro q hq
    rw [hcontent] at hq
    split at hq
    · rename_i heq
      exact ⟨names, hp.congr heq⟩
    · exact h.normal q hq
  case directories =>
    intro q more hq hne
    rw [hput]
    by_cases hmore : names = more
    · subst hmore
      have hno := (h.directories q names hq hne).not.mpr hdir
      rw [if_pos rfl]
      exact ⟨fun hq' => absurd hq' hno, fun hq' => by cases hq'⟩
    · rw [if_neg hmore]
      exact h.directories q more hq hne
  case files =>
    intro q more hq content
    rw [hcontent, hput]
    by_cases hmore : names = more
    · simp [hmore, (hp.components_inj hq).mpr hmore, eq_comm]
    · simpa [hmore, hp.components_inj hq] using h.files q more hq content

/-- A directory that is found or made on the disk is there or added in memory. -/
theorem enter (h : Agrees rooted d t) (hp : Normal rooted names p) (hne : names ≠ [])
    (he : Enters d p (d.origin rooted ++ names) d') : Agrees rooted d' (t.enter p) := by
  cases he with
  | found hl hdir =>
    rwa [MemoryTree.enter, if_pos ((h.directories p names hp hne).mpr hdir)]
  | made hl hnone => exact h.put_directory hp hnone

theorem descend (h : Agrees rooted d t) (hb : Normal rooted names base)
    (hn : ∀ name ∈ more, IsName name)
    (hd : ProjectTree.descend d base more = (.ok path, d')) :
    Agrees rooted d' (ProjectTree.descend t base more).2 := by
  induction more generalizing d t base names with
  | nil =>
    cases hd
    exact h
  | cons name more ih =>
    have hname := hn name List.mem_cons_self
    obtain ⟨l, middle, henters, heq⟩ | ⟨failure, heq⟩ := descend_cons_cases d base name more
    · obtain ⟨b, hreach, rfl, -⟩ := henters.reach hname
      rw [eq_of_reach_normal hb hreach, List.append_assoc] at henters
      rw [MemoryTree.descend_cons]
      exact ih (h.enter (hb.join hname) (by simp) henters) (hb.join hname)
        (fun n hmem => hn n (List.mem_cons_of_mem _ hmem)) (heq ▸ hd)
    · rw [heq] at hd
      cases hd

theorem normal_destination (hb : Normal rooted names base) (hn : '/' ∉ e.name.toList)
    (c : Context) (k : Kind) :
    Normal rooted (names ++ k.place ++ [k.fileName e.name]) (destination base (.ofKind e c k)) := by
  rw [destination_ofKind]
  exact (hb.foldl k.isName_place).join (k.isName_fileName hn)

/-- A write that succeeds on the disk does the same in memory. -/
theorem write (h : Agrees rooted d t) (hb : Normal rooted names base) (hn : '/' ∉ e.name.toList)
    (hw : Writes d base (.ofKind e c k) (.ok path) d') :
    Agrees rooted d' (Transaction.write t base (.ofKind e c k)).2 := by
  cases hw with
  | @stored b directory middle _ hreach hd _ hgrown _ hdir halike =>
    have hwalked := h.descend hb (fun n hmem => k.isName_place n (segments_ofKind e c k ▸ hmem)) hd
    have horigin : middle.origin rooted = d.origin rooted := by rw [origin, origin, hgrown.here]
    have hstanding : standing b (.ofKind e c k) =
        middle.origin rooted ++ (names ++ k.place ++ [k.fileName e.name]) := by
      rw [standing_ofKind, eq_of_reach_normal hb hreach, horigin]
      simp only [List.append_assoc]
    rw [hstanding] at hdir halike
    rw [write_memory, ← t.files_descend base (segments (Artifact.ofKind e c k).relativePath)]
    exact (hwalked.put_file (normal_destination hb hn c k) hdir _).congr halike

-- ---------------------------------------------------------------------------
-- Commits
-- ---------------------------------------------------------------------------

/-- A step on the disk is reported as in memory and leaves trees that agree. -/
theorem step {w : PlannedWrite} {o : Outcome} (h : Agrees rooted d t) (hs : Sound d)
    (hb : Normal rooted names base) (hn : '/' ∉ e.name.toList) (hc : Clear d base e.name)
    (hw : w.artifact = .ofKind e c k) (hstep : Step base w d o d') :
    o = report base w ∧ Agrees rooted d' (perform base t w) ∧ Sound d' ∧ Clear d' base e.name ∧
      (w.decision ≠ .skip → Readable (destination base w.artifact)) := by
  by_cases hd : w.decision = .skip
  · obtain ⟨rfl, rfl⟩ : o = PlannedWrite.outcome w .skipped ∧ d' = d := by
      cases hstep with
      | skip => exact ⟨rfl, rfl⟩
      | create hcreate => simp [hd] at hcreate
      | overwrite hover => simp [hd] at hover
    exact ⟨by simp [report, hd], by simpa [perform, hd] using h, hs, hc, fun hne => absurd hd hne⟩
  · obtain ⟨path, hwrite, ho⟩ : ∃ path, Transaction.write d base w.artifact = (.ok path, d') ∧
        (path = destination base w.artifact → o = report base w) := by
      cases hstep with
      | skip hskip => exact absurd hskip hd
      | create hcreate hwrite => exact ⟨_, hwrite, by simp [report, hcreate]⟩
      | overwrite hover hwrite => exact ⟨_, hwrite, by simp [report, hover]⟩
    have hwrites := write_writes hs hn hc c k
    rw [← hw, hwrite] at hwrites
    have hperform : perform base t w = (Transaction.write t base w.artifact).2 := by
      rw [perform, if_neg hd, write_memory]
    rw [hperform, hw]
    rw [hw] at hwrites ho
    obtain ⟨b, hreach⟩ := hwrites.reach
    refine ⟨ho hwrites.path_eq, h.write hb hn hwrites, hwrites.sound hn, hwrites.clear hc,
      fun _ => ?_⟩
    exact ((locate_destination hn).mp (hwrites.locate hreach)).1

theorem run {ws : List PlannedWrite} {created : List Path} {outcomes : List Outcome}
    (h : Agrees rooted d t) (hs : Sound d) (hb : Normal rooted names base)
    (hn : '/' ∉ e.name.toList) (hc : Clear d base e.name)
    (hws : ∀ w ∈ ws, ∃ k, w.artifact = .ofKind e c k)
    (hrun : commitWrites d base created ws = (.ok outcomes, d')) :
    outcomes = ws.map (report base) ∧ Agrees rooted d' (ws.foldl (perform base) t) ∧
      ∀ w ∈ ws, w.decision ≠ .skip → Readable (destination base w.artifact) := by
  induction ws generalizing d t created outcomes with
  | nil =>
    simp only [commitWrites, Prod.mk.injEq, Except.ok.injEq] at hrun
    obtain ⟨rfl, rfl⟩ := hrun
    exact ⟨rfl, h, by simp⟩
  | cons w ws ih =>
    obtain ⟨o, rest, middle, rfl, hstep, hrest⟩ := commitWrites_cons_ok hrun
    obtain ⟨k, hk⟩ := hws w List.mem_cons_self
    obtain ⟨rfl, hagrees, hsound, hclear, hread⟩ := h.step hs hb hn hc hk hstep
    obtain ⟨rfl, hagrees', hread'⟩ := ih hagrees hsound hclear
      (fun w hw => hws w (List.mem_cons_of_mem _ hw)) hrest
    refine ⟨rfl, hagrees', fun w' hw' => ?_⟩
    rcases List.mem_cons.mp hw' with rfl | hw'
    · exact hread
    · exact hread' w' hw'

-- ---------------------------------------------------------------------------
-- Plans
-- ---------------------------------------------------------------------------

theorem fileExists_iff (h : Agrees rooted d t) (hp : Normal rooted names p) :
    fileExists t p = true ↔ ∃ content, d.entry? (d.origin rooted ++ names) = some (.file content) := by
  have hexists : fileExists t p = (t.content? p).isSome := PathMap.contains_eq_isSome _ _
  rw [hexists, Option.isSome_iff_exists]
  simp only [h.files p names hp]
  constructor
  · rintro ⟨text, htext⟩
    exact ⟨_, text, htext, rfl⟩
  · rintro ⟨_, text, htext, -⟩
    exact ⟨text, htext⟩

/-- The disk sees the file of an artifact when it is in memory and its path is not too long. -/
theorem isFile_iff (h : Agrees rooted d t) (hs : Sound d) (hb : Normal rooted names base)
    (hn : '/' ∉ e.name.toList) (c : Context) (k : Kind) :
    fileExists d (target base (.ofKind e c k)) = true ↔
      fileExists t (target base (.ofKind e c k)) = true ∧
        (target base (.ofKind e c k)).spelling.utf8ByteSize ≤ longestPath := by
  have hp := normal_destination hb hn c k
  rw [← destination_eq_target hn, h.fileExists_iff hp]
  change Disk.isFile d _ = true ↔ _
  rw [isFile_destination hn]
  constructor
  · rintro ⟨hread, l, content, hreach, he⟩
    rw [eq_of_reach_normal hp hreach] at he
    exact ⟨⟨content, he⟩, hread.short⟩
  · rintro ⟨⟨content, he⟩, hshort⟩
    have hexists : d.entry? (d.origin rooted ++ (names ++ k.place ++ [k.fileName e.name])) ≠ none := by
      rw [he]
      simp
    exact ⟨hs.readable hp (by simp) hexists hshort, _, content, hs.reach_normal h.here hp hexists, he⟩

-- ---------------------------------------------------------------------------
-- The simulation
-- ---------------------------------------------------------------------------

/-- Plans on the disk and in memory are the same but for files that are there under a path that is
spelled longer than the disk takes. A commit that succeeds on the disk was planned as in memory,
succeeds in memory with the same outcomes and leaves trees that agree. -/
theorem agreeing_commit (d : Disk) (t : MemoryTree) (base : Path) (rooted : Bool)
    (names : List String) (policy : CollisionPolicy) (e : Entity) (c : Context) (hs : Sound d)
    (hm : Agrees rooted d t) (hb : Normal rooted names base) (hn : '/' ∉ e.name.toList)
    (hc : Clear d base e.name) :
    (plan d (some base) (Artifact.generateAll e c) policy =
        plan t (some base) (Artifact.generateAll e c) policy ↔
      ∀ k, fileExists t (target base (.ofKind e c k)) = true →
        (target base (.ofKind e c k)).spelling.utf8ByteSize ≤ longestPath) ∧
    ∀ tx outcomes d', plan d (some base) (Artifact.generateAll e c) policy = .ok tx →
      tx.commit d = (.ok outcomes, d') →
      plan t (some base) (Artifact.generateAll e c) policy = .ok tx ∧
        ∃ t', tx.commit t = (.ok outcomes, t') ∧ Agrees rooted d' t' := by
  have hfile := hm.isFile_iff hs hb hn c
  have hmem : ∀ k, Artifact.ofKind e c k ∈ Artifact.generateAll e c :=
    fun k => List.mem_map_of_mem (by cases k <;> decide)
  refine ⟨?_, ?_⟩
  · rw [plan_eq_iff]
    constructor
    · intro h k hk
      exact ((hfile k).mp ((h _ (hmem k)).trans hk)).2
    · intro h a ha
      obtain ⟨k, -, rfl⟩ := List.mem_map.mp ha
      exact Bool.eq_iff_iff.mpr ((hfile k).trans ⟨And.left, fun hk => ⟨hk, h k hk⟩⟩)
  · intro tx outcomes d' hp hf
    obtain ⟨rfl, -⟩ := plan_ok hp
    have hws : ∀ w ∈ (Artifact.generateAll e c).map (planWrite d (some base) policy),
        ∃ k, w.artifact = .ofKind e c k := by
      intro w hw
      obtain ⟨a, ha, rfl⟩ := List.mem_map.mp hw
      obtain ⟨k, -, rfl⟩ := List.mem_map.mp ha
      exact ⟨k, planWrite_artifact⟩
    obtain ⟨rfl, hagrees, hread⟩ := hm.run hs hb hn hc hws hf
    have hplans : plan d (some base) (Artifact.generateAll e c) policy =
        plan t (some base) (Artifact.generateAll e c) policy := by
      refine plan_eq_iff.mpr fun a ha => ?_
      obtain ⟨k, -, rfl⟩ := List.mem_map.mp ha
      cases hd : fileExists d (target base (.ofKind e c k)) with
      | true => exact ((hfile k).mp hd).1.symm
      | false =>
        -- The file was created under this path, so the disk takes it.
        have hcreate : (planWrite d (some base) policy (.ofKind e c k)).decision = .create :=
          decision_eq_create.mpr ⟨by simp, hd⟩
        have hshort := (hread _ (List.mem_map_of_mem (hmem k)) (by simp [hcreate])).short
        rw [planWrite_artifact, destination_eq_target hn] at hshort
        by_contra ht
        rw [(hfile k).mpr ⟨by simpa using Ne.symm ht, hshort⟩] at hd
        cases hd
    exact ⟨hplans ▸ hp, _, commitWrites_memory t base [] _, hagrees⟩

theorem agrees_empty : Agrees false {} {} where
  here := rfl
  normal p hp := by simp [MemoryTree.hasDirectory, MemoryTree.content?, PathMap.contains,
    PathMap.get?] at hp
  directories p names _ hne := by
    simp [MemoryTree.hasDirectory, PathMap.contains, origin, entry?, hne]
  files p names _ content := by
    by_cases hne : names = []
    · simp [MemoryTree.content?, PathMap.get?, origin, hne]
    · simp [MemoryTree.content?, PathMap.get?, origin, entry?, hne]

/-- A disk with a service of its own in two directories. -/
def serviceDisk : Disk :=
  ((({} : Disk).put ["a"] .directory).put ["a", "service"] .directory).put
    ["a", "service", "AService.java"] (.file "mine".toUTF8)

/-- The same directories and the same service in memory. -/
def serviceTree : MemoryTree :=
  { (({} : MemoryTree).enter ⟨"a"⟩).enter ⟨"a/service"⟩ with
    files := [(⟨"a/service/AService.java"⟩, "mine")] }

theorem sound_service : Sound serviceDisk := by
  have ha : Sound (({} : Disk).put ["a"] .directory) :=
    sound_empty.put (l := []) rfl (by decide) (by decide) fun _ => rfl
  have hservice : Sound ((({} : Disk).put ["a"] .directory).put ["a", "service"] .directory) :=
    ha.put (l := ["a"]) rfl (by decide) (by decide) fun _ => rfl
  exact hservice.put (l := ["a", "service"]) rfl (by decide) (by decide) (by decide)

theorem agrees_service : Agrees false serviceDisk serviceTree := by
  have h1 : Normal false ["a"] ⟨"a"⟩ := by decide +kernel
  have h2 : Normal false ["a", "service"] ⟨"a/service"⟩ := by decide +kernel
  have h3 : Normal false ["a", "service", "AService.java"] ⟨"a/service/AService.java"⟩ := by
    decide +kernel
  exact ((agrees_empty.put_directory h1 rfl).put_directory h2 rfl).put_file h3 (by decide) "mine"

/-- The service that is there is skipped or replaced; the other files are created beside it and in
new directories. -/
theorem agreeing_commit_beside_service :
    let base : Path := ⟨"a"⟩
    let e : Entity := ⟨"A", "A", [], .java⟩
    let c : Context := ⟨"app", some base⟩
    (∃ tx outcomes d' t', plan serviceTree (some base) (Artifact.generateAll e c) .skip = .ok tx ∧
      tx.commit serviceDisk = (.ok outcomes, d') ∧ tx.commit serviceTree = (.ok outcomes, t') ∧
      Agrees false d' t' ∧ outcomes.map Outcome.status =
        [.created, .created, .created, .created, .created, .skipped, .created]) ∧
    (∃ tx outcomes d' t',
      plan serviceTree (some base) (Artifact.generateAll e c) .overwrite = .ok tx ∧
      tx.commit serviceDisk = (.ok outcomes, d') ∧ tx.commit serviceTree = (.ok outcomes, t') ∧
      Agrees false d' t' ∧ outcomes.map Outcome.status =
        [.created, .created, .created, .created, .created, .overwritten, .created]) := by
  intro base e c
  have hb : Normal false ["a"] base := by decide +kernel
  have hc : Clear serviceDisk base e.name := by
    intro b hreach k
    obtain rfl := eq_of_reach_normal hb hreach
    cases k <;> decide +kernel
  let tx (policy : CollisionPolicy) : Transaction :=
    ⟨some base, (Artifact.generateAll e c).map (planWrite serviceDisk (some base) policy)⟩
  have hcommit (policy : CollisionPolicy)
      (hplan : plan serviceDisk (some base) (Artifact.generateAll e c) policy = .ok (tx policy))
      (hok : ((tx policy).commit serviceDisk).1.isOk = true) : ∃ outcomes d' t',
        plan serviceTree (some base) (Artifact.generateAll e c) policy = .ok (tx policy) ∧
        (tx policy).commit serviceDisk = (.ok outcomes, d') ∧
        (tx policy).commit serviceTree = (.ok outcomes, t') ∧ Agrees false d' t' ∧
        outcomes = (tx policy).writes.map (report base) := by
    rcases hf : (tx policy).commit serviceDisk with ⟨failure | outcomes, d'⟩
    · rw [hf] at hok
      cases hok
    · obtain ⟨ht, t', htree, hagrees⟩ := (agreeing_commit serviceDisk serviceTree base false ["a"]
        policy e c sound_service agrees_service hb (by decide) hc).2 _ outcomes d' hplan hf
      have hreport := (commitWrites_memory serviceTree base [] (tx policy).writes).symm.trans htree
      have houtcomes := Except.ok.inj (Prod.mk.inj hreport).1
      exact ⟨outcomes, d', t', ht, rfl, htree, hagrees, houtcomes.symm⟩
  obtain ⟨_, d', t', ht, hf, htree, hagrees, rfl⟩ := hcommit .skip rfl (by decide +kernel)
  obtain ⟨_, d'', t'', ht', hf', htree', hagrees', rfl⟩ :=
    hcommit .overwrite rfl (by decide +kernel)
  exact ⟨⟨_, _, d', t', ht, hf, htree, hagrees, by decide +kernel⟩,
    ⟨_, _, d'', t'', ht', hf', htree', hagrees', by decide +kernel⟩⟩

/-- A directory that is spelled with a long row of slashes hides the service in it from the disk,
but not from the tree in memory. -/
theorem plan_misses_long_path :
    let base := slashed "a" (longestPath + 1)
    let e : Entity := ⟨"A", "A", [], .java⟩
    let c : Context := ⟨"app", some base⟩
    let d : Disk := ((({} : Disk).put ["a"] .directory).put ["a", "service"] .directory).put
      ["a", "service", "AService.java"] (.file "mine".toUTF8)
    let t : MemoryTree := { (({} : MemoryTree).enter ⟨"a"⟩).enter ⟨"a/service"⟩ with
      files := [(⟨"a/service/AService.java"⟩, "mine")] }
    Sound d ∧ Agrees false d t ∧ Normal false ["a"] base ∧ Clear d base e.name ∧
      plan d (some base) (Artifact.generateAll e c) .error ≠
        plan t (some base) (Artifact.generateAll e c) .error := by
  intro base e c d t
  have hs : Sound d := sound_service
  have hm : Agrees false d t := agrees_service
  have hb : Normal false ["a"] base := normal_slashed (by decide) longestPath
  have hc : Clear d base e.name := by
    intro b hreach k
    obtain rfl := eq_of_reach_normal hb hreach
    cases k <;> decide +kernel
  refine ⟨hs, hm, hb, hc, fun h => ?_⟩
  have hn : '/' ∉ e.name.toList := by decide
  have hplans := plan_eq_iff.mp h (.ofKind e c .service) (List.mem_map_of_mem (by decide))
  have hexists : fileExists t (target base (.ofKind e c .service)) = true := by
    rw [← destination_eq_target hn]
    exact (hm.fileExists_iff (normal_destination hb hn c .service)).mpr ⟨_, rfl⟩
  have hshort := ((hm.isFile_iff hs hb hn c .service).mp (hplans.trans hexists)).2
  have hplace : (place (.ofKind e c .service)).isAbsolute = false := by decide
  have hjoin := le_utf8ByteSize_joinPath base hplace
  have hbase := le_utf8ByteSize_slashed "a" (longestPath + 1)
  rw [target] at hshort
  exact absurd (Nat.le_trans hbase (Nat.le_trans hjoin hshort)) (Nat.not_succ_le_self longestPath)

end Agrees

end Scaffold
