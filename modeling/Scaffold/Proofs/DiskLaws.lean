import Scaffold.Proofs.PathLaws
import Scaffold.Proofs.Results
import Scaffold.Tree.Disk

/-!
# The laws of the disk

Every request of the disk is told by the place its path leads to and by what
stands there. The way to a place leads over directories only, so a change
that keeps all directories keeps all ways.
-/

namespace Scaffold.Disk

variable {d d' : Disk} {l m : Location} {p q : Path} {e : Entry} {cs : List Component}
  {content : ByteArray} {error : DiskError}

-- ---------------------------------------------------------------------------
-- Entries
-- ---------------------------------------------------------------------------

@[simp] theorem entry?_root (d : Disk) : d.entry? [] = some .directory := rfl

theorem ne_root (h : d.entry? l ≠ some .directory) : l ≠ [] := by
  rintro rfl
  exact h rfl

theorem ne_root_of_none (h : d.entry? l = none) : l ≠ [] := by
  rintro rfl
  simp at h

theorem ne_root_of_file (h : d.entry? l = some (.file content)) : l ≠ [] := by
  rintro rfl
  simp at h

theorem entry?_remove (d : Disk) (hl : l ≠ []) (m : Location) :
    Disk.entry? (d.remove l) m = if l = m then none else d.entry? m := by
  by_cases hm : m = []
  · subst hm
    rw [if_neg hl]
    rfl
  · simp only [ entry?, if_neg hm, remove, List.find?_filter]
    by_cases h : l = m
    · subst h
      simp
    · rw [if_neg h]
      congr 2
      funext entry
      by_cases he : entry.1 = m
      · simp [he, Ne.symm h]
      · simp [he]

theorem entry?_put (d : Disk) (hl : l ≠ []) (e : Entry) (m : Location) :
    Disk.entry? (d.put l e) m = if l = m then some e else d.entry? m := by
  by_cases hm : m = []
  · subst hm
    rw [if_neg hl]
    rfl
  · by_cases h : l = m
    · subst h
      simp [ entry?, hm, put]
    · have hput : Disk.entry? (d.put l e) m = Disk.entry? (d.remove l) m := by
        simp [ entry?, hm, put, h]
      rw [hput, entry?_remove d hl, if_neg h, if_neg h]

/-- The disks have the same entries, in whatever order. -/
structure Alike (d d' : Disk) : Prop where
  here : d'.here = d.here
  same : ∀ l, d'.entry? l = d.entry? l

theorem Alike.refl (d : Disk) : Alike d d := ⟨rfl, fun _ => rfl⟩

-- ---------------------------------------------------------------------------
-- Ways
-- ---------------------------------------------------------------------------

theorem walk_append (d : Disk) (l : Location) (cs ds : List Component) :
    d.walk l (cs ++ ds) = (d.walk l cs).bind (d.walk · ds) := by
  induction cs generalizing l with
  | nil => rfl
  | cons c cs ih =>
    simp only [List.cons_append, walk]
    split
    · rfl
    · rfl
    · split
      · exact ih _
      · exact ih _
      · exact ih _
      · split
        · rfl
        · exact ih _

/-- All directories are still there. -/
structure KeepsDirectories (d d' : Disk) : Prop where
  here : d'.here = d.here
  directory : ∀ l, d.entry? l = some .directory → d'.entry? l = some .directory

theorem Alike.keeps (h : Alike d d') : KeepsDirectories d d' :=
  ⟨h.here, fun l hl => by rw [h.same, hl]⟩

theorem KeepsDirectories.trans {d'' : Disk} (h : KeepsDirectories d d')
    (h' : KeepsDirectories d' d'') : KeepsDirectories d d'' :=
  ⟨h'.here.trans h.here, fun l hl => h'.directory l (h.directory l hl)⟩

theorem keeps_put (hl : d.entry? l ≠ some .directory) (e : Entry) :
    KeepsDirectories d (d.put l e) where
  here := rfl
  directory m hm := by
    rw [entry?_put d (ne_root hl), if_neg, hm]
    rintro rfl
    exact hl hm

theorem keeps_remove (hl : d.entry? l ≠ some .directory) : KeepsDirectories d (d.remove l) where
  here := rfl
  directory m hm := by
    rw [entry?_remove d (ne_root hl), if_neg, hm]
    rintro rfl
    exact hl hm

/-- A file opens no way that was closed. -/
theorem keeps_of_put_file (hl : l ≠ []) (content : ByteArray) :
    KeepsDirectories (d.put l (.file content)) d where
  here := rfl
  directory m hm := by
    rw [entry?_put d hl] at hm
    split at hm
    · simp at hm
    · exact hm

theorem KeepsDirectories.walk (h : KeepsDirectories d d') (hw : d.walk l cs = .ok m) :
    d'.walk l cs = .ok m := by
  induction cs generalizing l with
  | nil => exact hw
  | cons c cs ih =>
    simp only [Disk.walk] at hw ⊢
    split at hw
    · simp at hw
    · simp at hw
    · rename_i hdir
      rw [h.directory l hdir]
      cases c with
      | root => exact ih hw
      | current => exact ih hw
      | parent => exact ih hw
      | normal name =>
        simp only at hw ⊢
        split at hw
        · simp at hw
        · rename_i hsize
          rw [if_neg hsize]
          exact ih hw

theorem KeepsDirectories.locate (h : KeepsDirectories d d') (hl : d.locate p = .ok l) :
    d'.locate p = .ok l := by
  unfold Disk.locate at hl ⊢
  split at hl
  · simp at hl
  · split at hl
    · simp at hl
    · split at hl
      · simp at hl
      · rename_i hnul hempty hlong
        rw [if_neg hnul, if_neg hempty, if_neg hlong, h.here]
        exact h.walk hl

-- ---------------------------------------------------------------------------
-- Requests
-- ---------------------------------------------------------------------------

theorem lookUp_directory :
    d.lookUp p = .ok .directory ↔ ∃ l, d.locate p = .ok l ∧ d.entry? l = some .directory := by
  simp only [lookUp, bind_ok]
  refine exists_congr fun l => and_congr_right fun _ => ?_
  rcases d.entry? l with _ | _ | content
  · simp
  · simp
  · cases endsInSlash p <;> simp

theorem lookUp_file :
    d.lookUp p = .ok (.file content) ↔ ∃ l, d.locate p = .ok l ∧
      d.entry? l = some (.file content) ∧ endsInSlash p = false := by
  simp only [lookUp, bind_ok]
  refine exists_congr fun l => and_congr_right fun _ => ?_
  rcases d.entry? l with _ | _ | content
  · simp
  · simp
  · cases endsInSlash p <;> simp

theorem isDirectory_iff :
    d.isDirectory p = true ↔ ∃ l, d.locate p = .ok l ∧ d.entry? l = some .directory := by
  rw [← lookUp_directory, isDirectory]
  split <;> simp_all

theorem isFile_iff :
    d.isFile p = true ↔ ∃ l content, d.locate p = .ok l ∧ d.entry? l = some (.file content) ∧
      endsInSlash p = false := by
  have h : d.isFile p = true ↔ ∃ content, d.lookUp p = .ok (.file content) := by
    unfold isFile
    split <;> simp_all
  simp only [h, lookUp_file]
  exact exists_comm

theorem createDirectory_ok :
    d.createDirectory p = .ok d' ↔
      ∃ l, d.locate p = .ok l ∧ d.entry? l = none ∧ d' = d.put l .directory := by
  simp only [createDirectory, bind_ok]
  refine exists_congr fun l => and_congr_right fun _ => ?_
  rcases d.entry? l with _ | e <;> simp [eq_comm]

theorem writeFile_ok :
    d.writeFile p content = .ok d' ↔ ∃ l, d.locate p = .ok l ∧ d.entry? l ≠ some .directory ∧
      endsInSlash p = false ∧ d' = d.put l (.file content) := by
  simp only [writeFile, bind_ok]
  refine exists_congr fun l => and_congr_right fun _ => ?_
  rcases d.entry? l with _ | _ | content'
  · cases endsInSlash p <;> simp [eq_comm]
  · simp
  · cases endsInSlash p <;> simp [eq_comm]

theorem deleteFile_ok :
    d.deleteFile p = .ok d' ↔ ∃ l content, d.locate p = .ok l ∧
      d.entry? l = some (.file content) ∧ endsInSlash p = false ∧ d' = d.remove l := by
  simp only [deleteFile, bind_ok]
  refine exists_congr fun l => ?_
  rcases he : d.entry? l with _ | _ | content
  · simp
  · simp
  · cases endsInSlash p <;> simp [eq_comm]

theorem moveFile_ok (h : d.moveFile p q = .ok d') :
    ∃ m content l, d.locate p = .ok m ∧ d.entry? m = some (.file content) ∧
      d.locate q = .ok l ∧ d.entry? l ≠ some .directory ∧
      d' = (d.remove m).put l (.file content) := by
  simp only [moveFile, bind_ok] at h
  obtain ⟨e, he, h⟩ := h
  cases e with
  | directory => simp [bind, Except.bind] at h
  | file content =>
  simp only [bind_ok, Except.ok.injEq, exists_eq_left'] at h
  obtain ⟨m, hm, l, hl, h⟩ := h
  obtain ⟨m', hm', he, -⟩ := lookUp_file.mp he
  obtain rfl : m' = m := Except.ok.inj (hm'.symm.trans hm)
  refine ⟨m', content, l, hm, he, hl, ?_⟩
  split at h
  · simp at h
  · split at h
    · simp at h
    · split at h
      · simp at h
      · rename_i hdir
        exact ⟨hdir, (Except.ok.inj h).symm⟩

end Scaffold.Disk
