import Scaffold.Proofs.Retries

/-!
# Directories found or created

Finding or creating the directories of a relative path adds those that are
missing, each once, and nothing else. A directory is never taken away, so
whatever happens to the tree afterwards, asking again finds the way that was
made and changes nothing.
-/

namespace Scaffold

open ProjectTree

namespace MemoryTree

-- ---------------------------------------------------------------------------
-- Added directories
-- ---------------------------------------------------------------------------

/-- The second tree has these directories, too. The ones that the first lacks are added once and
counted, and nothing else is different. -/
structure Added (t t' : MemoryTree) (ps : List Path) : Prop where
  there : ∀ p ∈ ps, t'.hasDirectory p = true
  missing : ∃ new : List Path, new ⊆ ps ∧ (∀ p ∈ new, t.hasDirectory p = false) ∧
    (new.map Path.components).Nodup ∧
    t'.directories.Perm (t.directories ++ new.map fun p => (p, ())) ∧
    t'.created = t.created + new.length
  files : t'.files = t.files

variable {t t' t'' : MemoryTree} {p q : Path} {ps qs : List Path}

theorem Added.refl (t : MemoryTree) : Added t t [] :=
  ⟨by simp, ⟨[], by simp⟩, rfl⟩

theorem added_enter (t : MemoryTree) (p : Path) : Added t (t.enter p) [p] := by
  refine ⟨by simp [hasDirectory_enter], ?_, ?_⟩
  · cases hp : t.hasDirectory p with
    | true => exact ⟨[], by simp [enter_of_hasDirectory hp]⟩
    | false =>
      refine ⟨[p], List.Subset.refl _, by simpa using hp, by simp, ?_, ?_⟩
      · rw [enter, if_neg (by simp [hp])]
        exact (PathMap.insert_perm () hp).trans (List.perm_append_singleton ..).symm
      · rw [enter, if_neg (by simp [hp])]
        rfl
  · rw [enter]
    split <;> rfl

theorem Added.hasDirectory (h : Added t t' ps) (hq : t.hasDirectory q = true) :
    t'.hasDirectory q = true := by
  obtain ⟨new, -, -, -, hperm, -⟩ := h.missing
  rw [MemoryTree.hasDirectory, PathMap.contains, List.any_eq_true] at hq ⊢
  obtain ⟨entry, he, hsame⟩ := hq
  exact ⟨entry, hperm.mem_iff.mpr (List.mem_append_left _ he), hsame⟩

/-- What is missing in the middle was missing before and is not what was added until then. -/
theorem Added.trans (h : Added t t' ps) (h' : Added t' t'' qs) : Added t t'' (ps ++ qs) := by
  obtain ⟨new, hsub, hmissing, hnodup, hperm, hcount⟩ := h.missing
  obtain ⟨new', hsub', hmissing', hnodup', hperm', hcount'⟩ := h'.missing
  refine ⟨?_, ⟨new ++ new', ?_, ?_, ?_, ?_, ?_⟩, h'.files.trans h.files⟩
  · exact List.forall_mem_append.mpr ⟨fun p hp => h'.hasDirectory (h.there p hp), h'.there⟩
  · exact List.append_subset.mpr ⟨List.subset_append_of_subset_left _ hsub,
      List.subset_append_of_subset_right _ hsub'⟩
  · refine List.forall_mem_append.mpr ⟨hmissing, fun p hp => ?_⟩
    rw [Bool.eq_false_iff]
    intro hthere
    exact absurd (h.hasDirectory hthere) (Bool.eq_false_iff.mp (hmissing' p hp))
  · rw [List.map_append, List.nodup_append]
    refine ⟨hnodup, hnodup', ?_⟩
    simp only [List.mem_map]
    rintro _ ⟨p, hp, rfl⟩ _ ⟨q, hq, rfl⟩ hsame
    have hthere := h.there p (hsub hp)
    rw [t'.hasDirectory_congr hsame, hmissing' q hq] at hthere
    cases hthere
  · rw [List.map_append, ← List.append_assoc]
    exact hperm'.trans (hperm.append_right _)
  · rw [hcount', hcount, List.length_append, Nat.add_assoc]

theorem added_enterAll (t : MemoryTree) (ps : List Path) : Added t (t.enterAll ps) ps := by
  induction ps generalizing t with
  | nil => exact .refl t
  | cons p ps ih => exact (added_enter t p).trans (ih (t.enter p))

end MemoryTree

-- ---------------------------------------------------------------------------
-- Operations
-- ---------------------------------------------------------------------------

/-- What a project tree may be asked or told. -/
inductive ProjectTree.Operation
  | findSubdirectory (directory : Path) (name : String)
  | createSubdirectory (directory : Path) (name : String)
  | fileExists (path : Path)
  | insertTextFile (directory : Path) (name content : String)
  | removeFile (path : Path)

section
variable {σ : Type} [ProjectTree σ]

/-- The tree that an operation leaves, whether it succeeds or fails. -/
def ProjectTree.Operation.apply (tree : σ) : Operation → σ
  | findSubdirectory _ _ | fileExists _ => tree
  | createSubdirectory directory name => (ProjectTree.createSubdirectory tree directory name).2
  | insertTextFile directory name content =>
    (ProjectTree.insertTextFile tree directory name content).2
  | removeFile path => (ProjectTree.removeFile tree path).2

theorem Lasting.operations {P : σ → Prop} {tree : σ} (hP : Lasting P) (h : P tree)
    (ops : List Operation) : P (ops.foldl Operation.apply tree) := by
  induction ops generalizing tree with
  | nil => exact h
  | cons op ops ih =>
    refine ih ?_
    cases op with
    | findSubdirectory => exact h
    | createSubdirectory directory name => exact hP.create directory name h
    | fileExists => exact h
    | insertTextFile directory name content => exact hP.insert directory name content h
    | removeFile path => exact hP.remove path h

end

-- ---------------------------------------------------------------------------
-- Finding or creating
-- ---------------------------------------------------------------------------

namespace MemoryBacked

variable {σ : Type} [ProjectTree σ] [MemoryBacked σ] {tree : σ} {base : Path} {names : List String}

theorem lasting_directories (ps : List Path) :
    Lasting fun tree : σ => ∀ p ∈ ps, (memory tree).hasDirectory p = true where
  create {tree} directory name h p hp := by
    obtain ⟨-, hm⟩ | ⟨-, hm⟩ := tracks_create tree directory name
    · have hthere : (memory tree).directories.contains p = true := h p hp
      simp [hm, createSubdirectory, MemoryTree.hasDirectory, PathMap.contains_insert, hthere]
    · rw [hm]
      exact h p hp
  insert {tree} directory name content h p hp := by
    obtain ⟨-, hm⟩ | ⟨-, hm⟩ := tracks_insert tree directory name content <;> rw [hm] <;>
      exact h p hp
  remove {tree} path h p hp := by
    obtain ⟨-, hm⟩ | ⟨-, hm⟩ := tracks_remove tree path <;> rw [hm] <;> exact h p hp

/-- A walk on which every directory is there changes nothing. -/
theorem descend_of_there (h : ∀ p ∈ passed base names, (memory tree).hasDirectory p = true) :
    descend tree base names = (.ok (names.foldl Path.join base), tree) := by
  induction names generalizing base with
  | nil => rfl
  | cons name names ih =>
    rw [passed, List.forall_mem_cons] at h
    have hfound : findSubdirectory tree base name = some (base.join name) := by
      rw [findSubdirectory_eq]
      simp [findSubdirectory, h.1]
    simp only [descend, hfound]
    exact ih h.2

/-- Where the directories of a relative path can be made, the result is the base with the segments
joined to it. All directories on the way are there then, the missing ones added, and asking again
gives the same and changes nothing, whatever was done in between. Where a missing directory cannot
be made, the missing ones before it are added. -/
theorem ensureSubdirectories_exact (tree : σ) (base : Path) (relative : String) :
    (∀ directory tree', ensureSubdirectories tree base relative = (.ok directory, tree') →
      directory = (segments relative).foldl Path.join base ∧
      (memory tree).Added (memory tree') (passed base (segments relative)) ∧
      ∀ ops : List Operation,
        ensureSubdirectories (ops.foldl Operation.apply tree') base relative =
          (.ok directory, ops.foldl Operation.apply tree')) ∧
    (∀ failure tree', ensureSubdirectories tree base relative = (.error failure, tree') →
      ∃ done name rest middle, segments relative = done ++ name :: rest ∧
        createSubdirectory middle (done.foldl Path.join base) name = (.error failure, tree') ∧
        memory middle = memory tree' ∧
        (memory tree').hasDirectory ((done.foldl Path.join base).join name) = false ∧
        (memory tree).Added (memory tree') (passed base done)) := by
  unfold ensureSubdirectories
  have hwalked := walked_descend tree base (segments relative)
  refine ⟨fun directory tree' h => ?_, fun failure tree' h => ?_⟩
  · rw [h] at hwalked
    cases hwalked with
    | arrived hmemory =>
      have hadded := (memory tree).added_enterAll (passed base (segments relative))
      rw [← hmemory] at hadded
      exact ⟨rfl, hadded, fun ops =>
        descend_of_there ((lasting_directories _).operations hadded.there ops)⟩
  · rw [h] at hwalked
    cases hwalked with
    | stopped done hnames hmiddle hmissing hcreate hmemory =>
      refine ⟨done, _, _, _, hnames, hcreate, hmemory.symm, hmemory ▸ hmissing, ?_⟩
      rw [hmemory, hmiddle]
      exact (memory tree).added_enterAll _

/-- The second directory cannot be created at first; of what happens later, nothing undoes the
second attempt. -/
theorem ensureSubdirectories_exact_on_retry :
    let tree : FaultyTree MemoryTree :=
      { tree := MemoryTree.withDirectory {} ⟨"p/app"⟩
        schedule := ⟨fun _ => false, (· == 1), fun _ => false⟩ }
    let failed := ensureSubdirectories tree ⟨"p/app"⟩ "data//./access/"
    let made := ensureSubdirectories failed.2 ⟨"p/app"⟩ "data//./access/"
    let ops : List Operation :=
      [.insertTextFile ⟨"p/app/data/access"⟩ "x.txt" "x", .createSubdirectory ⟨"p"⟩ "lib",
        .removeFile ⟨"p/app/data/access/x.txt"⟩]
    let later := ops.foldl Operation.apply made.2
    failed.1 = .error (.directoryNotCreated ⟨"p/app/data/./access"⟩ "no more directories") ∧
      tree.tree.Added failed.2.tree [⟨"p/app/data"⟩, ⟨"p/app/data/."⟩] ∧
      made.1 = .ok ⟨"p/app/data/./access"⟩ ∧
      failed.2.tree.Added made.2.tree
        [⟨"p/app/data"⟩, ⟨"p/app/data/."⟩, ⟨"p/app/data/./access"⟩] ∧
      ensureSubdirectories later ⟨"p/app"⟩ "data//./access/" = (made.1, later) := by
  intro tree failed made ops later
  have hfailed : failed.1 =
      .error (.directoryNotCreated ⟨"p/app/data/./access"⟩ "no more directories") := by
    decide +kernel
  have hmade : made.1 = .ok ⟨"p/app/data/./access"⟩ := by decide +kernel
  have hsegments : segments "data//./access/" = ["data", ".", "access"] := by decide +kernel
  have hpassed : passed ⟨"p/app"⟩ ["data", ".", "access"] =
      [⟨"p/app/data"⟩, ⟨"p/app/data/."⟩, ⟨"p/app/data/./access"⟩] := by decide +kernel
  have hpassed' : passed ⟨"p/app"⟩ ["data", "."] = [⟨"p/app/data"⟩, ⟨"p/app/data/."⟩] := by
    decide +kernel
  obtain ⟨done, name, rest, middle, hsplit, -, -, hname, hadded⟩ :=
    (ensureSubdirectories_exact tree ⟨"p/app"⟩ "data//./access/").2 _ failed.2
      (Prod.ext hfailed rfl)
  obtain ⟨-, hthere, hagain⟩ :=
    (ensureSubdirectories_exact failed.2 ⟨"p/app"⟩ "data//./access/").1 _ made.2
      (Prod.ext hmade rfl)
  rw [hsegments] at hsplit hthere
  rw [hpassed] at hthere
  -- The walk did not stop at one of the first two segments, whose directory is there afterwards.
  have hfirst : failed.2.tree.hasDirectory (Path.join ⟨"p/app"⟩ "data") = true := by decide +kernel
  have hsecond : failed.2.tree.hasDirectory
      ((["data"].foldl Path.join ⟨"p/app"⟩).join ".") = true := by decide +kernel
  have hdone : done = ["data", "."] := by
    rcases done with _ | ⟨first, _ | ⟨second, _ | ⟨third, done⟩⟩⟩
    · obtain ⟨rfl, -⟩ : "data" = name ∧ [".", "access"] = rest := by simpa using hsplit
      exact absurd hfirst (Bool.eq_false_iff.mp hname)
    · obtain ⟨rfl, rfl, -⟩ : "data" = first ∧ "." = name ∧ ["access"] = rest := by
        simpa using hsplit
      exact absurd hsecond (Bool.eq_false_iff.mp hname)
    · simp_all
    · simp at hsplit
  rw [hdone, hpassed'] at hadded
  refine ⟨hfailed, hadded, hmade, hthere, ?_⟩
  rw [hmade]
  exact hagain ops

end MemoryBacked

end Scaffold
