import Scaffold.Proofs.DiskLaws

/-!
# Files replaced through a temporary file

A text is written beside its target, under the target's name with the ending
`tmp`, and moved from there. So the target and this place are the only ones
that an insertion can touch: a file that stood at the temporary place is lost,
and every other entry is as it was, whether the insertion succeeds or fails.
-/

namespace Scaffold.Disk

open ProjectTree

variable {d d' : Disk} {l m : Location} {p : Path} {text : String}

/-- The ways in which putting a content in the place of a file can end. -/
inductive Replaces (d : Disk) (p : Path) (content : ByteArray) : Except Failure Unit → Disk → Prop
  | moved {l m : Location} : d.locate (temporary p) = .ok m → d.entry? m ≠ some .directory →
      d.locate p = .ok l → d.entry? l ≠ some .directory →
      Replaces d p content (.ok ()) (((d.put m (.file content)).remove m).put l (.file content))
  | refused {reason : String} : Replaces d p content (.error (.notWritten (temporary p) reason)) d
  | cleared {m : Location} {reason : String} : d.locate (temporary p) = .ok m →
      d.entry? m ≠ some .directory →
      Replaces d p content (.error (.notWritten p reason)) ((d.put m (.file content)).remove m)

theorem replaceFile_replaces (d : Disk) (p : Path) (text : String) :
    Replaces d p text.toUTF8 (d.replaceFile p text).1 (d.replaceFile p text).2 := by
  unfold replaceFile
  generalize text.toUTF8 = content
  cases hw : d.writeFile (temporary p) content with
  | error e => exact .refused
  | ok written =>
    obtain ⟨m, hm, hdir, hslash, rfl⟩ := writeFile_ok.mp hw
    have hroot := ne_root hdir
    have hfile : Disk.entry? (d.put m (.file content)) m = some (.file content) := by
      rw [entry?_put d hroot, if_pos rfl]
    have hm' := (keeps_put hdir (.file content)).locate hm
    cases hv : (d.put m (.file content)).moveFile (temporary p) p with
    | ok moved =>
      obtain ⟨m', content', l, hl', hcontent, hl, hdir', rfl⟩ := moveFile_ok hv
      obtain rfl : m' = m := Except.ok.inj (hl'.symm.trans hm')
      obtain rfl : content = content' := by simpa [hfile] using hcontent
      -- The file at the temporary place opens no way, so the target is where it was before.
      have hlocate := (keeps_of_put_file hroot content).locate hl
      simp only [hv]
      exact .moved hm hdir hlocate fun h => hdir' ((keeps_put hdir _).directory l h)
    | error e =>
      have hdelete : (d.put m (.file content)).deleteFile (temporary p) =
          .ok ((d.put m (.file content)).remove m) :=
        deleteFile_ok.mpr ⟨m, _, hm', hfile, hslash, rfl⟩
      simp only [hv, hdelete]
      exact .cleared hm hdir

theorem entry?_moved (hm : d.entry? m ≠ some .directory) (hl : d.entry? l ≠ some .directory)
    (content : ByteArray) (x : Location) :
    Disk.entry? (((d.put m (.file content)).remove m).put l (.file content)) x =
      if l = x then some (.file content) else if m = x then none else d.entry? x := by
  rw [entry?_put _ (ne_root hl), entry?_remove _ (ne_root hm),
    entry?_put _ (ne_root hm)]
  by_cases hx : m = x <;> simp [hx]

theorem entry?_cleared (hm : d.entry? m ≠ some .directory) (content : ByteArray) (x : Location) :
    Disk.entry? ((d.put m (.file content)).remove m) x = if m = x then none else d.entry? x := by
  rw [entry?_remove _ (ne_root hm), entry?_put _ (ne_root hm)]
  by_cases hx : m = x <;> simp [hx]

/-- The text is at its target, nothing is left at the temporary place, and every other entry is as
it was. -/
structure Stored (d d' : Disk) (p : Path) (text : String) : Prop where
  target : ∃ l, d.locate p = .ok l ∧ d'.entry? l = some (.file text.toUTF8)
  temporary : ∃ m, d.locate (temporary p) = .ok m ∧ (d.locate p ≠ .ok m → d'.entry? m = none)
  others : ∀ x, d.locate p ≠ .ok x → d.locate (Disk.temporary p) ≠ .ok x →
    d'.entry? x = d.entry? x

/-- Every entry is as it was, but that a file at the temporary place may have been lost. -/
def Spared (d d' : Disk) (p : Path) : Prop :=
  ∀ x, d'.entry? x = d.entry? x ∨
    d.locate (temporary p) = .ok x ∧ d.entry? x ≠ some .directory ∧ d'.entry? x = none

/-- An insertion stores its text or spares all entries, save for the temporary place. -/
theorem insert_stores_or_spares (d : Disk) (directory : Path) (name text : String) :
    (∃ d', insertTextFile d directory name text = (.ok (directory.join name), d') ∧
      Stored d d' (directory.join name) text) ∨
    ∃ failure d', insertTextFile d directory name text = (.error failure, d') ∧
      Spared d d' (directory.join name) := by
  have hreplaces := replaceFile_replaces d (directory.join name) text
  simp only [insertTextFile]
  generalize d.replaceFile (directory.join name) text = done at hreplaces
  obtain ⟨result, d'⟩ := done
  simp only at hreplaces ⊢
  generalize directory.join name = p at hreplaces
  cases hreplaces with
  | @moved l m hm hmdir hl hldir =>
    refine .inl ⟨_, rfl, ?_⟩
    constructor
    case target => exact ⟨l, hl, by rw [entry?_moved hmdir hldir, if_pos rfl]⟩
    case temporary =>
      refine ⟨m, hm, fun hne => ?_⟩
      rw [entry?_moved hmdir hldir, if_neg, if_pos rfl]
      rintro rfl
      exact hne hl
    case others =>
      intro x hxl hxm
      rw [entry?_moved hmdir hldir, if_neg, if_neg]
      · rintro rfl
        exact hxm hm
      · rintro rfl
        exact hxl hl
  | refused => exact .inr ⟨_, _, rfl, fun x => .inl rfl⟩
  | @cleared m reason hm hdir =>
    refine .inr ⟨_, _, rfl, fun x => ?_⟩
    rw [entry?_cleared hdir]
    by_cases hx : m = x
    · subst hx
      exact .inr ⟨hm, hdir, if_pos rfl⟩
    · exact .inl (if_neg hx)

/-- A file that has the name of the temporary one does not survive an insertion. -/
theorem insert_loses_neighbour :
    let d : Disk := { entries := [(["ADto.tmp"], .file "mine".toUTF8)] }
    (insertTextFile d ⟨""⟩ "ADto.java" "dto").1 = .ok ⟨"ADto.java"⟩ ∧
      d.entry? ["ADto.tmp"] = some (.file "mine".toUTF8) ∧
      Disk.entry? (insertTextFile d ⟨""⟩ "ADto.java" "dto").2 ["ADto.tmp"] = none := by
  decide +kernel

end Scaffold.Disk
