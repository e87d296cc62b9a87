import Scaffold.Proofs.Placements
import Scaffold.Proofs.Reruns
import Scaffold.Proofs.Respellings
import Scaffold.Proofs.Retries

/-!
# Trees that a project could be

A tree in memory is possible when everything in it stands in a directory and
nothing is both a file and a directory. A write enters every directory on its
way before it inserts the file, and nothing takes directories away, so after
any calls everything still stands in a directory. The files and the
directories do not look at each other: a path becomes both exactly where the
first tree held one of the two in the way of the other.
-/

namespace Scaffold

open ProjectTree MemoryBacked

namespace PathMap

variable {α : Type} {m : PathMap α} {q : Path}

theorem contains_iff : m.contains q = true ↔ ∃ entry ∈ m, entry.1.components = q.components := by
  simp [contains]

theorem contains_of_erase {p : Path} (h : (m.erase p).contains q = true) : m.contains q = true := by
  rw [contains_eq_isSome, get?_erase] at h
  split at h
  · cases h
  · rwa [contains_eq_isSome]

theorem contains_of_eraseAll {ps : List Path} (h : (m.eraseAll ps).contains q = true) :
    m.contains q = true := by
  induction ps generalizing m with
  | nil => exact h
  | cons p ps ih => exact contains_of_erase (ih h)

end PathMap

namespace MemoryTree

-- ---------------------------------------------------------------------------
-- Possible trees
-- ---------------------------------------------------------------------------

variable {bare : Bool} {t t' : MemoryTree} {p q dir base : Path} {ps files directories : List Path}
  {name : String} {names : List String}

/-- The path is a directory of the tree. Relative paths end above in the empty path, which counts
as a directory when it is `bare`; seeding a tree never lists it. -/
def Holds (bare : Bool) (t : MemoryTree) (p : Path) : Prop :=
  t.hasDirectory p = true ∨ bare = true ∧ p.spelling = ""

instance (bare : Bool) (t : MemoryTree) (p : Path) : Decidable (Holds bare t p) :=
  inferInstanceAs (Decidable (_ ∨ _))

/-- What is above a file or a directory of the tree is a directory. -/
structure Rooted (bare : Bool) (t : MemoryTree) : Prop where
  files : ∀ p q : Path, t.files.contains p = true → p.parent? = some q → Holds bare t q
  directories : ∀ p q : Path, t.hasDirectory p = true → p.parent? = some q → Holds bare t q

/-- Moreover, no path is both a file and a directory. -/
structure Possible (bare : Bool) (t : MemoryTree) : Prop extends Rooted bare t where
  apart : ∀ p : Path, t.files.contains p = true → t.hasDirectory p = false

theorem Holds.congr (h : Holds bare t p) (hp : p.components = q.components) : Holds bare t q := by
  rcases h with h | ⟨hb, he⟩
  · exact .inl (t.hasDirectory_congr hp ▸ h)
  · exact .inr ⟨hb, (Path.Respells.spelling_eq_empty hp).mp he⟩

theorem Holds.mono (h : Holds bare t p)
    (hkept : ∀ q, t.hasDirectory q = true → t'.hasDirectory q = true) : Holds bare t' p :=
  h.imp (hkept p) id

theorem Holds.of_parent (h : ∀ r, q.parent? = some r → Holds bare t r)
    (hq : q.components = p.components) {above : Path} (hp : p.parent? = some above) :
    Holds bare t above := by
  have hrel := Path.Respells.parent? hq
  rw [hp] at hrel
  generalize hr : q.parent? = r at hrel
  cases hrel with
  | some hr' => exact (h _ hr).congr hr'

/-- Whether a tree is possible is told by its entries. -/
theorem possible_iff : Possible bare t ↔
    (∀ entry ∈ t.files, ∀ q ∈ entry.1.parent?, Holds bare t q) ∧
    (∀ entry ∈ t.directories, ∀ q ∈ entry.1.parent?, Holds bare t q) ∧
    ∀ entry ∈ t.files, t.hasDirectory entry.1 = false := by
  constructor
  · intro h
    have hmem {α : Type} {m : PathMap α} {entry : Path × α} (he : entry ∈ m) :
        m.contains entry.1 = true := PathMap.contains_iff.mpr ⟨entry, he, rfl⟩
    exact ⟨fun entry he q => h.files _ q (hmem he), fun entry he q => h.directories _ q (hmem he),
      fun entry he => h.apart _ (hmem he)⟩
  · rintro ⟨hfiles, hdirectories, hapart⟩
    refine { files := fun p q hp => ?_, directories := fun p q hp => ?_, apart := fun p hp => ?_ }
    · obtain ⟨entry, he, hcomponents⟩ := PathMap.contains_iff.mp hp
      exact Holds.of_parent (hfiles entry he) hcomponents
    · obtain ⟨entry, he, hcomponents⟩ := PathMap.contains_iff.mp hp
      exact Holds.of_parent (hdirectories entry he) hcomponents
    · obtain ⟨entry, he, hcomponents⟩ := PathMap.contains_iff.mp hp
      rw [← t.hasDirectory_congr hcomponents, hapart entry he]

instance (bare : Bool) (t : MemoryTree) : Decidable (Possible bare t) :=
  decidable_of_iff _ possible_iff.symm

-- ---------------------------------------------------------------------------
-- Entering and inserting
-- ---------------------------------------------------------------------------

theorem files_enterAll (t : MemoryTree) (ps : List Path) : (t.enterAll ps).files = t.files :=
  (congrArg MemoryTree.files (enterAll_withFiles t t.files ps) :)

theorem holds_foldl (h : Holds bare t base) (names : List String) :
    Holds bare (t.enterAll (passed base names)) (names.foldl Path.join base) := by
  induction names generalizing t base with
  | nil => exact h
  | cons name names ih => exact ih (.inl (hasDirectory_enter t _ _ |>.mpr (.inr rfl)))

/-- Below a directory, a name is above nothing but that directory. -/
theorem holds_parent_join (h : Holds bare t dir) (hn : Path.IsName name)
    (hp : (dir.join name).components = p.components) (hq : p.parent? = some q) :
    Holds bare t q := by
  obtain ⟨c, hcomponents, -⟩ := Path.components_parent hq
  rw [← hp, hn.components_join] at hcomponents
  exact h.congr (List.append_inj' hcomponents rfl).1

namespace Rooted

theorem enter (h : Rooted bare t) (hd : Holds bare t dir) (hn : Path.IsName name) :
    Rooted bare (t.enter (dir.join name)) := by
  have hkept : ∀ q, t.hasDirectory q = true → (t.enter (dir.join name)).hasDirectory q = true :=
    fun q hq => (t.hasDirectory_enter ..).mpr (.inl hq)
  constructor
  · intro p q hp hq
    rw [← enterAll_nil (t.enter _), ← enterAll_cons, files_enterAll] at hp
    exact (h.files p q hp hq).mono hkept
  · intro p q hp hq
    rcases (t.hasDirectory_enter ..).mp hp with hp | hp
    · exact (h.directories p q hp hq).mono hkept
    · exact (holds_parent_join hd hn hp hq).mono hkept

/-- A walk below a directory may end anywhere on its way. -/
theorem enterAll (h : Rooted bare t) (hb : Holds bare t base)
    (hn : ∀ name ∈ names, Path.IsName name) (hps : ps <+: passed base names) :
    Rooted bare (t.enterAll ps) := by
  induction names generalizing t base ps with
  | nil =>
    rw [passed, List.prefix_nil] at hps
    rwa [hps, enterAll_nil]
  | cons name names ih =>
    cases ps with
    | nil => exact h
    | cons p ps =>
      rw [passed, List.cons_prefix_cons] at hps
      obtain ⟨rfl, hps⟩ := hps
      rw [List.forall_mem_cons] at hn
      rw [enterAll_cons]
      exact ih (h.enter hb hn.1) (.inl ((t.hasDirectory_enter ..).mpr (.inr rfl))) hn.2 hps

theorem insert (h : Rooted bare t) (hd : Holds bare t dir) (hn : Path.IsName name)
    (content : String) :
    Rooted bare { t with files := t.files.insert (dir.join name) content } where
  files p q hp hq := by
    rw [PathMap.contains_insert, Bool.or_eq_true, Path.same_iff] at hp
    rcases hp with hp | hp
    · exact holds_parent_join hd hn hp hq
    · exact h.files p q hp hq
  directories := h.directories

theorem eraseAll (h : Rooted bare t) (ps : List Path) :
    Rooted bare { t with files := t.files.eraseAll ps } where
  files p q hp := h.files p q (PathMap.contains_of_eraseAll hp)
  directories := h.directories

end Rooted

-- ---------------------------------------------------------------------------
-- Growth
-- ---------------------------------------------------------------------------

/-- One of the paths has the components of this one. -/
def Among (ps : List Path) (q : Path) : Prop :=
  ∃ p ∈ ps, p.components = q.components

theorem Among.mono (h : Among ps q) (hps : ps ⊆ files) : Among files q :=
  h.imp fun _ => And.imp_left (hps ·)

/-- No directory is lost, and nothing is new but what is among the files and directories told. -/
structure Grown (files directories : List Path) (t t' : MemoryTree) : Prop where
  kept : ∀ q, t.hasDirectory q = true → t'.hasDirectory q = true
  files : ∀ q, t'.files.contains q = true → t.files.contains q = true ∨ Among files q
  directories : ∀ q, t'.hasDirectory q = true → t.hasDirectory q = true ∨ Among directories q

namespace Grown

theorem refl (t : MemoryTree) : Grown files directories t t :=
  ⟨fun _ h => h, fun _ => .inl, fun _ => .inl⟩

theorem trans {t'' : MemoryTree} (h : Grown files directories t t')
    (h' : Grown files directories t' t'') : Grown files directories t t'' where
  kept q hq := h'.kept q (h.kept q hq)
  files q hq := (h'.files q hq).elim (h.files q) .inr
  directories q hq := (h'.directories q hq).elim (h.directories q) .inr

theorem mono {files' directories' : List Path} (h : Grown files directories t t')
    (hf : files ⊆ files') (hd : directories ⊆ directories') : Grown files' directories' t t' where
  kept := h.kept
  files q hq := (h.files q hq).imp_right (Among.mono · hf)
  directories q hq := (h.directories q hq).imp_right (Among.mono · hd)

theorem enterAll (t : MemoryTree) (hps : ps ⊆ directories) :
    Grown files directories t (t.enterAll ps) where
  kept _ hq := hasDirectory_enterAll.mpr (.inl hq)
  files _ hq := .inl (files_enterAll t ps ▸ hq)
  directories _ hq := (hasDirectory_enterAll.mp hq).imp_right (Among.mono · hps)

theorem insert (t : MemoryTree) (hp : Among files p) (content : String) :
    Grown files directories t { t with files := t.files.insert p content } where
  kept _ h := h
  files q hq := by
    rw [PathMap.contains_insert, Bool.or_eq_true, Path.same_iff] at hq
    rcases hq with heq | hq
    · obtain ⟨p', hp', heq'⟩ := hp
      exact .inr ⟨p', hp', heq'.trans heq⟩
    · exact .inl hq
  directories _ := .inl

theorem eraseAll (t : MemoryTree) (ps : List Path) :
    Grown files directories t { t with files := t.files.eraseAll ps } where
  kept _ h := h
  files _ hq := .inl (PathMap.contains_of_eraseAll hq)
  directories _ := .inl

end Grown

end MemoryTree

namespace Kind

-- ---------------------------------------------------------------------------
-- Directories and files of a call
-- ---------------------------------------------------------------------------

/-- The directories below the base directory that artifacts go through. -/
def ways (base : Path) : List Path :=
  all.flatMap fun k => passed base k.place

theorem passed_subset_ways (base : Path) (k : Kind) : passed base k.place ⊆ ways base := by
  intro p hp
  exact List.mem_flatMap.mpr ⟨k, by cases k <;> decide, hp⟩

theorem getLast?_passed {base p : Path} {names : List String}
    (hn : ∀ name ∈ names, Path.IsName name) (hp : p ∈ passed base names) :
    ∃ name ∈ names, p.components.getLast? = some (.normal name) := by
  induction names generalizing base with
  | nil => cases hp
  | cons name names ih =>
    rw [List.forall_mem_cons] at hn
    rcases List.mem_cons.mp hp with rfl | hp
    · exact ⟨name, List.mem_cons_self, by rw [hn.1.components_join, List.getLast?_concat]⟩
    · obtain ⟨last, hlast, heq⟩ := ih hn.2 hp
      exact ⟨last, List.mem_cons_of_mem _ hlast, heq⟩

/-- No directory on the way of an artifact is named as a file of any entity. -/
theorem targets_ne_ways {e : Entity} {c : Context} {dir base p q : Path}
    (hp : p ∈ Artifact.targets e c dir) (hq : q ∈ ways base) : p.components ≠ q.components := by
  intro heq
  obtain ⟨k, rfl⟩ := Artifact.mem_targets.mp hp
  obtain ⟨l, -, hl⟩ := List.mem_flatMap.mp hq
  obtain ⟨name, hname, hlast⟩ := getLast?_passed l.isName_place hl
  have hfile := Transaction.getLast?_components_site (some dir) e c k
  change (Transaction.target dir _).components.getLast? = _ at hfile
  rw [heq, hlast, Option.some.injEq, Component.normal.injEq] at hfile
  have hdot : ∀ name ∈ l.place, '.' ∉ name.toList := by cases l <;> decide
  exact hdot name hname (by simp [hfile, fileName])

end Kind

namespace Call

/-- The directories that a call makes where they are missing. -/
def ways (c : Call) : List Path :=
  c.context.baseDirectory.elim [] Kind.ways

/-- What a call makes a directory, no call makes a file. -/
theorem targets_ne_ways {c d : Call} {p q : Path} (hp : p ∈ c.targets) (hq : q ∈ d.ways) :
    p.components ≠ q.components := by
  unfold targets at hp
  split at hp
  · unfold ways at hq
    cases hd : d.context.baseDirectory with
    | none => simp [hd] at hq
    | some base =>
      rw [hd] at hq
      exact Kind.targets_ne_ways hp hq
  · cases hp

end Call

namespace Transaction

open MemoryTree

variable {σ : Type} [ProjectTree σ] [MemoryBacked σ] {bare : Bool} {tree tree' : σ} {dir : Path}
  {e : Entity} {c : Context} {k : Kind}

-- ---------------------------------------------------------------------------
-- Commits
-- ---------------------------------------------------------------------------

/-- A commit writes to the targets, though it may spell them otherwise. -/
theorem among_targets {q : Path} : Among (Artifact.targets e c dir) q ↔
    ∃ a ∈ Artifact.generateAll e c, (destination dir a).components = q.components := by
  have hsame (a : Artifact) (ha : a ∈ Artifact.generateAll e c) :=
    components_destination ((separate_generateAll (some dir) e c).relative a ha) dir
  simp only [Among, Artifact.targets, List.mem_map, exists_exists_and_eq_and]
  exact exists_congr fun a => and_congr_right fun ha => by rw [hsame a ha]

/-- From a tree in which everything stands in a directory, to another one. -/
structure Builds (bare : Bool) (files directories : List Path) (t t' : MemoryTree) : Prop where
  rooted : Rooted bare t'
  grown : Grown files directories t t'

theorem write_builds (hr : Rooted bare (memory tree)) (hb : Holds bare (memory tree) dir)
    (hn : '/' ∉ e.name.toList) (c : Context) (k : Kind) :
    Builds bare (Artifact.targets e c dir) (Kind.ways dir) (memory tree)
      (memory (write tree dir (.ofKind e c k)).2) := by
  rcases hw : write tree dir (.ofKind e c k) with ⟨failure | path, tree'⟩
  · obtain ⟨ps, hps, hmemory⟩ := memory_write_error hw
    rw [segments_ofKind] at hps
    rw [hmemory]
    exact ⟨hr.enterAll hb k.isName_place hps,
      .enterAll _ (List.Subset.trans hps.subset (Kind.passed_subset_ways dir k))⟩
  · have hmemory := congrArg Prod.snd (write_ok hw)
    simp only [write_memory, descend_snd, segments_ofKind] at hmemory
    rw [← hmemory, ← files_enterAll (memory tree) (passed dir k.place)]
    have hwalked := hr.enterAll hb k.isName_place (List.prefix_refl _)
    refine ⟨?_, (Grown.enterAll _ (Kind.passed_subset_ways dir k)).trans (.insert _ ?_ _)⟩
    · rw [destination_ofKind]
      exact hwalked.insert (holds_foldl hb k.place) (k.isName_fileName hn) _
    · have hmem : .ofKind e c k ∈ Artifact.generateAll e c :=
        List.mem_map_of_mem (by cases k <;> decide)
      exact among_targets.mpr ⟨_, hmem, rfl⟩

/-- A commit keeps everything in a directory, wherever it fails and whatever it can take back. -/
theorem commitWrites_builds {ws : List PlannedWrite} {created : List Path}
    (hr : Rooted bare (memory tree)) (hb : Holds bare (memory tree) dir)
    (hn : '/' ∉ e.name.toList) (hws : ∀ w ∈ ws, ∃ k, w.artifact = .ofKind e c k) :
    Builds bare (Artifact.targets e c dir) (Kind.ways dir) (memory tree)
      (memory (commitWrites tree dir created ws).2) := by
  induction ws generalizing tree created with
  | nil => exact ⟨hr, .refl _⟩
  | cons w ws ih =>
    rw [List.forall_mem_cons] at hws
    obtain ⟨⟨k, hk⟩, hws⟩ := hws
    have hwrite := write_builds hr hb hn c k
    rw [← hk] at hwrite
    obtain ⟨o, middle, hs⟩ | ⟨hd, cause, stuck, hw⟩ := step_or_error tree dir w
    · have hstep : Builds bare (Artifact.targets e c dir) (Kind.ways dir) (memory tree)
          (memory middle) := by
        cases hs with
        | skip => exact ⟨hr, .refl _⟩
        | create _ hw => rwa [hw] at hwrite
        | overwrite _ hw => rwa [hw] at hwrite
      rw [hs.commitWrites_eq]
      have hrest := @ih middle (createdPaths [o] ++ created) hstep.rooted
        (hb.mono hstep.grown.kept) hws
      exact ⟨hrest.rooted, hstep.grown.trans hrest.grown⟩
    · rw [hw] at hwrite
      rw [commitWrites_stuck hd hw, memory_rollBack]
      exact ⟨hwrite.rooted.eraseAll _, hwrite.grown.trans (.eraseAll _ _)⟩

end Transaction

-- ---------------------------------------------------------------------------
-- Calls
-- ---------------------------------------------------------------------------

namespace Call

/-- The name of the class is one component, if there is a class. -/
def Single (c : Call) : Prop :=
  ∀ e, c.entity? = .ok e → (Path.mk e.name).components.length = 1

/-- A slash stands between backticks, so there is something on each side of it. -/
theorem Single.notMem_slash {c : Call} {e : Entity} (h : c.Single) (he : c.entity? = .ok e) :
    '/' ∉ e.name.toList := by
  intro hs
  have hquoted := (SourceFile.named_of_resolve he).quoted_of_mem_slash hs
  have hlong := Transaction.length_added_quoted hquoted hs []
  have hlength : (Path.componentsOf e.name.toList).length = 1 := h e he
  rw [List.append_nil] at hlong
  rw [Path.componentsOf_eq, List.length_append] at hlength
  omega

end Call

namespace Scaffolder

open MemoryTree Transaction

variable {σ : Type} [ProjectTree σ] [MemoryBacked σ] {bare : Bool}

theorem call_builds (s : Scaffolder σ) {c : Call} (hr : Rooted bare (memory s.tree))
    (hb : ∀ dir ∈ c.context.baseDirectory, Holds bare (memory s.tree) dir) (hc : c.Single) :
    Builds bare c.targets c.ways (memory s.tree) (memory (s.call c).2.tree) := by
  have hends := call_ends s c
  generalize (s.call c).1 = result, (s.call c).2 = after at hends
  cases hends with
  | unresolved => exact ⟨hr, .refl _⟩
  | refused => exact ⟨hr, .refl _⟩
  | dry => exact ⟨hr, .refl _⟩
  | @committed e tx he hp =>
    obtain ⟨rfl, -⟩ := plan_ok hp
    cases hdir : c.context.baseDirectory with
    | none => exact ⟨hr, .refl _⟩
    | some dir =>
      rw [Call.targets_eq he hdir, Call.ways, hdir]
      refine commitWrites_builds hr (hb dir hdir) (hc.notMem_slash he) fun w hw => ?_
      obtain ⟨a, ha, rfl⟩ := List.mem_map.mp hw
      obtain ⟨k, -, rfl⟩ := List.mem_map.mp ha
      exact ⟨k, planWrite_artifact⟩

/-- Directories of the first tree are there at each call. -/
theorem runs_hold (s : Scaffolder σ) (cs : List Call) (hr : Rooted bare (memory s.tree))
    (hb : ∀ c ∈ cs, ∀ dir ∈ c.context.baseDirectory, Holds bare (memory s.tree) dir)
    (hc : ∀ c ∈ cs, c.Single) :
    ∀ r ∈ s.runs cs, ∀ dir ∈ r.call.context.baseDirectory,
      Holds bare (memory r.before.tree) dir := by
  induction cs generalizing s with
  | nil => simp [runs]
  | cons c cs ih =>
    rw [List.forall_mem_cons] at hb hc
    have hcall := call_builds s hr hb.1 hc.1
    rw [runs, List.forall_mem_cons]
    refine ⟨hb.1, ih _ hcall.rooted (fun c' hc' dir hdir => ?_) hc.2⟩
    exact (hb.2 c' hc' dir hdir).mono hcall.grown.kept

theorem runs_builds (s : Scaffolder σ) (cs : List Call) (hr : Rooted bare (memory s.tree))
    (hb : ∀ r ∈ s.runs cs, ∀ dir ∈ r.call.context.baseDirectory,
      Holds bare (memory r.before.tree) dir) (hc : ∀ c ∈ cs, c.Single) :
    ∀ r ∈ s.runs cs, Builds bare (cs.flatMap Call.targets) (cs.flatMap Call.ways)
      (memory s.tree) (memory r.after.tree) := by
  induction cs generalizing s with
  | nil => simp [runs]
  | cons c cs ih =>
    rw [runs, List.forall_mem_cons] at hb
    rw [List.forall_mem_cons] at hc
    have hcall := call_builds s hr hb.1 hc.1
    rw [runs, List.forall_mem_cons]
    constructor
    · exact ⟨hcall.rooted, hcall.grown.mono (by simp) (by simp)⟩
    · intro r hmem
      have hrest := ih _ hcall.rooted hb.2 hc.2 r hmem
      refine ⟨hrest.rooted, ?_⟩
      exact (hcall.grown.mono (by simp) (by simp)).trans (hrest.grown.mono (by simp) (by simp))

/-- A file of the tree where the calls make a directory, or a directory where they put a file. -/
def Obstacle (t : MemoryTree) (cs : List Call) (q : Path) : Prop :=
  t.files.contains q = true ∧ Among (cs.flatMap Call.ways) q ∨
    t.hasDirectory q = true ∧ Among (cs.flatMap Call.targets) q

instance (t : MemoryTree) (cs : List Call) (q : Path) : Decidable (Obstacle t cs q) :=
  inferInstanceAs (Decidable (_ ∧ (∃ p ∈ _, _) ∨ _ ∧ ∃ p ∈ _, _))

/-- Calls below directories of a possible tree leave everything in a directory, whichever changes
fail, and make nothing both a file and a directory except at an obstacle of the first tree. -/
theorem runs_possible (s : Scaffolder σ) (cs : List Call) (ht : Possible bare (memory s.tree))
    (hb : ∀ r ∈ s.runs cs, ∀ dir ∈ r.call.context.baseDirectory,
      Holds bare (memory r.before.tree) dir) (hc : ∀ c ∈ cs, c.Single) :
    ∀ r ∈ s.runs cs, Rooted bare (memory r.after.tree) ∧
      ∀ q : Path, (memory r.after.tree).files.contains q = true →
        (memory r.after.tree).hasDirectory q = true → Obstacle (memory s.tree) cs q := by
  intro r hr
  obtain ⟨hrooted, hgrown⟩ := runs_builds s cs ht.toRooted hb hc r hr
  refine ⟨hrooted, fun q hfile hdirectory => ?_⟩
  rcases hgrown.files q hfile with hfile | hfile <;>
    rcases hgrown.directories q hdirectory with hdirectory | hdirectory
  · rw [ht.apart q hfile] at hdirectory
    cases hdirectory
  · exact .inl ⟨hfile, hdirectory⟩
  · exact .inr ⟨hdirectory, hfile⟩
  · obtain ⟨p, hp, hpq⟩ := hfile
    obtain ⟨w, hw, hwq⟩ := hdirectory
    obtain ⟨c, -, hp⟩ := List.mem_flatMap.mp hp
    obtain ⟨d, -, hw⟩ := List.mem_flatMap.mp hw
    exact absurd (hpq.trans hwq.symm) (Call.targets_ne_ways hp hw)

/-- The fifth insertion and the first removal of the first run fail, so that one file stays. -/
theorem runs_possible_after_failure :
    let tree : FaultyTree MemoryTree :=
      { tree := MemoryTree.withDirectory {} ⟨"/app/domain"⟩
        schedule := ⟨(· == 4), fun _ => false, (· == 0)⟩ }
    let order : Call := ⟨{}, ⟨⟨"/app/domain/Order.java"⟩, .java, "class Order \x7b\x7d"⟩⟩
    let again : Call := ⟨{ policy := .skip }, order.source⟩
    let s : Scaffolder (FaultyTree MemoryTree) := { tree := tree }
    ∃ r ∈ s.runs [order, again],
      r.result = .error (.commitFailed 3
        (.notWritten ⟨"/app/mapper/OrderMapper.java"⟩ "disk full")) ∧
      Rooted false r.after.tree.tree ∧
      ∀ q : Path, r.after.tree.tree.files.contains q = true →
        r.after.tree.tree.hasDirectory q = true → Obstacle tree.tree [order, again] q := by
  intro tree order again s
  have hsingle {settings : Settings} (h : settings.strictTypes = false) :
      Call.Single ⟨settings, order.source⟩ := by
    have he : order.entity? = .ok ⟨"Order", "Order", [], .java⟩ := by decide +kernel
    intro e he'
    rw [Call.entity?, h] at he'
    cases he.symm.trans he'
    decide
  have hcalls : ∀ c ∈ [order, again], c.Single :=
    List.forall_mem_cons.mpr ⟨hsingle rfl, List.forall_mem_cons.mpr ⟨hsingle rfl, by simp⟩⟩
  have htree : Possible false tree.tree := by decide +kernel
  have hbase : ∀ c ∈ [order, again], ∀ dir ∈ c.context.baseDirectory,
      Holds false tree.tree dir := by decide +kernel
  have hpossible := runs_possible s [order, again] htree
    (runs_hold s [order, again] htree.toRooted hbase hcalls) hcalls
  obtain ⟨r, hr, hresult⟩ : ∃ r ∈ s.runs [order, again], r.result = .error (.commitFailed 3
      (.notWritten ⟨"/app/mapper/OrderMapper.java"⟩ "disk full")) :=
    ⟨_, List.mem_cons_self, by decide +kernel⟩
  exact ⟨r, hr, hresult, hpossible r hr⟩

section
variable {s : Scaffolder MemoryTree} {c : Call} {e : Entity} {tx : Transaction} {dir q : Path}
  (hb : c.context.baseDirectory = some dir) (hd : c.settings.dryRun = false)
  (he : c.entity? = .ok e) (hp : c.plan s.tree e = .ok tx) (hpol : c.settings.policy ≠ .skip)
include hb hd he hp hpol

theorem tree_call_of_not_skip : (s.call c).2.tree =
    { s.tree.enterAll c.ways with
      files := s.tree.files.insertAll
        ((Artifact.generateAll e c.context).map fun a => (destination dir a, a.content)) } := by
  have hkept : ∀ a ∈ Artifact.generateAll e c.context,
      (planWrite s.tree (some dir) c.settings.policy a).decision ≠ .skip := by
    intro a _
    rw [ne_eq, decision_eq_skip]
    simp [Skipped, hpol]
  have hways : ((Artifact.generateAll e c.context).flatMap fun a =>
      passed dir (segments a.relativePath)) = c.ways := by
    simp [Call.ways, hb, Kind.ways, Artifact.generateAll, List.flatMap_map, segments_ofKind]
  rw [tree_call_of_plan hb hd he hp, foldl_perform, entries_of_not_skip hkept,
    ways_of_not_skip hkept, hways]

/-- A call in memory that leaves nothing out makes each obstacle both. -/
theorem both_of_obstacle (h : Obstacle s.tree [c] q) :
    (s.call c).2.tree.files.contains q = true ∧ (s.call c).2.tree.hasDirectory q = true := by
  have hdirectories : (s.call c).2.tree.hasDirectory q = true ↔
      s.tree.hasDirectory q = true ∨ Among c.ways q := by
    rw [tree_call_of_not_skip hb hd he hp hpol]
    exact hasDirectory_enterAll
  have hfiles : (s.call c).2.tree.files.contains q = true ↔
      s.tree.files.contains q = true ∨ Among c.targets q := by
    rw [tree_call_of_not_skip hb hd he hp hpol, PathMap.contains_insertAll, Call.targets_eq he hb,
      among_targets]
    simp
  rw [Obstacle, List.flatMap_singleton, List.flatMap_singleton] at h
  rw [hfiles, hdirectories]
  exact h.elim (fun h => ⟨.inl h.1, .inr h.2⟩) fun h => ⟨.inr h.2, .inl h.1⟩

end

/-- A file where a directory goes and a directory where a file goes, both in a possible tree, are
both afterwards. -/
theorem obstacles_become_both :
    let t := ((MemoryTree.withDirectory {} ⟨"/app/domain"⟩).withFile ⟨"/app/service"⟩ "mine"
      ).withDirectory ⟨"/app/web/OrderController.java"⟩
    let order : Call := ⟨{}, ⟨⟨"/app/domain/Order.java"⟩, .java, "class Order \x7b\x7d"⟩⟩
    let after := (({ tree := t } : Scaffolder MemoryTree).call order).2.tree
    (∀ bare, Possible bare t) ∧
      order.entity? = .ok ⟨"Order", "Order", [], .java⟩ ∧
      (Path.mk "Order").components.length = 1 ∧
      order.context.baseDirectory = some ⟨"/app"⟩ ∧ t.hasDirectory ⟨"/app"⟩ = true ∧
      (∀ q ∈ [Path.mk "/app/service", ⟨"/app/web/OrderController.java"⟩],
        after.files.contains q = true ∧ after.hasDirectory q = true) ∧
      ∀ bare, ¬Possible bare after := by
  intro t order
  have hb : order.context.baseDirectory = some ⟨"/app"⟩ := by decide +kernel
  have he : order.entity? = .ok ⟨"Order", "Order", [], .java⟩ := by decide +kernel
  obtain ⟨tx, hp⟩ : ∃ tx, order.plan t ⟨"Order", "Order", [], .java⟩ = .ok tx := by
    have hnone : ((Artifact.generateAll ⟨"Order", "Order", [], .java⟩ order.context).map
        (target ⟨"/app"⟩)).filter (ProjectTree.fileExists t) = [] := by decide +kernel
    cases hp : order.plan t ⟨"Order", "Order", [], .java⟩ with
    | ok tx => exact ⟨tx, rfl⟩
    | error failure =>
      rw [Call.plan, hb] at hp
      obtain ⟨_, paths, ⟨⟩, -, -, hne, hpaths⟩ := plan_error hp
      exact absurd (hpaths.trans hnone) hne
  have hobstacles : ∀ q ∈ [Path.mk "/app/service", ⟨"/app/web/OrderController.java"⟩],
      Obstacle t [order] q := by decide +kernel
  have hboth q hq :=
    both_of_obstacle (s := { tree := t }) hb rfl he hp (by decide) (hobstacles q hq)
  refine ⟨by decide +kernel, he, by decide, hb, by decide +kernel, hboth, fun bare h => ?_⟩
  obtain ⟨hfile, hdirectory⟩ := hboth _ List.mem_cons_self
  rw [h.apart _ hfile] at hdirectory
  cases hdirectory

end Scaffolder

end Scaffold
