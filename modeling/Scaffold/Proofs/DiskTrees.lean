import Mathlib.Data.List.Induction
import Scaffold.Proofs.Destinations
import Scaffold.Proofs.DiskLaws
import Scaffold.Proofs.FileNames

/-!
# Trees of directories

A sound disk is a tree: each entry stands in a directory, under a name that
the disk takes. On such a disk a way is open as soon as something stands at
its end. A walk that makes the directories it misses adds entries on its own
way only; what it adds to a disk is told by `Grown`.
-/

namespace Scaffold.Disk

open Scaffold.Path ProjectTree

variable {d d' d'' : Disk} {l m dir : Location} {p base : Path} {name : String}
  {names : List String} {e : Entry} {content : ByteArray}

-- ---------------------------------------------------------------------------
-- Ways by name
-- ---------------------------------------------------------------------------

/-- The place that the components of a path lead to, however they are spelled. -/
def reach (d : Disk) (p : Path) : Except DiskError Location :=
  d.walk d.here p.components

/-- A spelling that the disk takes. -/
structure Readable (p : Path) : Prop where
  nulFree : '\x00' ∉ p.spelling.toList
  nonempty : p.spelling ≠ ""
  short : p.spelling.utf8ByteSize ≤ longestPath

theorem locate_ok (h : endsInDot p = false) :
    d.locate p = .ok l ↔ Readable p ∧ d.reach p = .ok l := by
  have hcomponents : d.walk d.here (p.components ++ if endsInDot p then [.current] else []) =
      d.reach p := by simp [h, reach]
  unfold locate
  rw [hcomponents]
  constructor
  · intro hl
    split at hl
    · simp at hl
    · split at hl
      · simp at hl
      · split at hl
        · simp at hl
        · rename_i hnul hempty hlong
          exact ⟨⟨hnul, hempty, Nat.le_of_not_lt hlong⟩, hl⟩
  · rintro ⟨⟨hnul, hempty, hshort⟩, hl⟩
    rw [if_neg hnul, if_neg hempty, if_neg (Nat.not_lt_of_le hshort), hl]

theorem walk_name :
    d.walk l [.normal name] = .ok m ↔
      d.entry? l = some .directory ∧ name.utf8ByteSize ≤ longestName ∧ m = l ++ [name] := by
  unfold walk
  rcases d.entry? l with _ | _ | content
  · simp
  · simp only [true_and, walk]
    split
    · rename_i hsize
      simp [Nat.not_le_of_lt hsize]
    · rename_i hsize
      simp [Nat.le_of_not_lt hsize, eq_comm]
  · simp

theorem reach_join (h : IsName name) :
    d.reach (p.join name) = .ok m ↔ ∃ l, d.reach p = .ok l ∧ d.entry? l = some .directory ∧
      name.utf8ByteSize ≤ longestName ∧ m = l ++ [name] := by
  rw [reach, h.components_join, walk_append, ← reach]
  cases d.reach p with
  | error error => simp [Except.bind]
  | ok l => simp [Except.bind, walk_name]

theorem locate_join (h : IsName name) :
    d.locate (p.join name) = .ok l ↔ Readable (p.join name) ∧ d.reach (p.join name) = .ok l :=
  locate_ok (endsInDot_join h p)

/-- A name in a spelling that the disk takes. -/
theorem Readable.nulFree_name (hread : Readable (p.join name)) : '\x00' ∉ name.toList :=
  fun hmem => hread.nulFree ((p.suffix_join name).subset hmem)

theorem KeepsDirectories.reach (h : KeepsDirectories d d') (hl : d.reach p = .ok l) :
    d'.reach p = .ok l := by
  rw [Disk.reach, h.here]
  exact h.walk hl

-- ---------------------------------------------------------------------------
-- Sound disks
-- ---------------------------------------------------------------------------

/-- Each entry but the root stands in a directory, under a name that the disk takes. -/
structure Sound (d : Disk) : Prop where
  parent : ∀ l name, d.entry? (l ++ [name]) ≠ none → d.entry? l = some .directory
  short : ∀ l name, d.entry? (l ++ [name]) ≠ none → name.utf8ByteSize ≤ longestName
  nulFree : ∀ l name, d.entry? (l ++ [name]) ≠ none → '\x00' ∉ name.toList

theorem sound_empty : Sound {} := by
  constructor <;> simp [ entry?]

theorem Sound.congr (hs : Sound d) (h : Alike d d') : Sound d' where
  parent l name hl := by
    rw [h.same] at hl ⊢
    exact hs.parent l name hl
  short l name hl := hs.short l name (h.same _ ▸ hl)
  nulFree l name hl := hs.nulFree l name (h.same _ ▸ hl)

/-- An entry may be put into a directory unless it is a file for a directory. -/
theorem Sound.put (hs : Sound d) (hdir : d.entry? l = some .directory)
    (hshort : name.utf8ByteSize ≤ longestName) (hnul : '\x00' ∉ name.toList)
    (he : d.entry? (l ++ [name]) = some .directory → e = .directory) :
    Sound (d.put (l ++ [name]) e) := by
  have hput := entry?_put d (l := l ++ [name]) (by simp) e
  have hcases : ∀ m n, Disk.entry? (d.put (l ++ [name]) e) (m ++ [n]) ≠ none →
      m = l ∧ n = name ∨ d.entry? (m ++ [n]) ≠ none := by
    intro m n hm
    rw [hput] at hm
    split at hm
    · rename_i heq
      exact .inl (by simpa [eq_comm] using heq)
    · exact .inr hm
  have hkeep : ∀ m, d.entry? m = some .directory →
      Disk.entry? (d.put (l ++ [name]) e) m = some .directory := by
    intro m hm
    rw [hput]
    split
    · rename_i heq
      rw [he (heq ▸ hm)]
    · exact hm
  constructor
  case parent =>
    intro m n hm
    rcases hcases m n hm with ⟨rfl, rfl⟩ | hm
    · exact hkeep m hdir
    · exact hkeep m (hs.parent m n hm)
  case short =>
    intro m n hm
    rcases hcases m n hm with ⟨rfl, rfl⟩ | hm
    · exact hshort
    · exact hs.short m n hm
  case nulFree =>
    intro m n hm
    rcases hcases m n hm with ⟨rfl, rfl⟩ | hm
    · exact hnul
    · exact hs.nulFree m n hm

/-- On a sound disk the way to what exists is open, from any place on it. -/
theorem Sound.walk_names (hs : Sound d) (he : d.entry? (l ++ names) ≠ none) :
    d.walk l (names.map .normal) = .ok (l ++ names) := by
  induction names using List.reverseRecOn with
  | nil => simp [walk]
  | append_singleton names name ih =>
    rw [← List.append_assoc] at he
    have hdir := hs.parent _ _ he
    rw [List.map_append, List.map_singleton, walk_append, ih (by simp [hdir]), ← List.append_assoc]
    exact walk_name.mpr ⟨hdir, hs.short _ _ he, rfl⟩

theorem Sound.reach_foldl (hs : Sound d) (hb : d.reach base = .ok l)
    (hn : ∀ name ∈ names, IsName name) (he : d.entry? (l ++ names) ≠ none) :
    d.reach (names.foldl Path.join base) = .ok (l ++ names) := by
  rw [reach, components_foldl_names hn, walk_append, ← reach, hb]
  exact hs.walk_names he

-- ---------------------------------------------------------------------------
-- What has been added
-- ---------------------------------------------------------------------------

/-- Nothing has changed on the disk but that the files are new, and some directories on the
roads. -/
structure Grown (d d' : Disk) (roads : Location → Prop) (files : List Location) : Prop where
  here : d'.here = d.here
  nodup : files.Nodup
  new : ∀ l ∈ files, d.entry? l = none ∧ ∃ content, d'.entry? l = some (.file content)
  other : ∀ l, l ∉ files → d'.entry? l = d.entry? l ∨
    d.entry? l = none ∧ d'.entry? l = some .directory ∧ roads l

namespace Grown

variable {roads roads' : Location → Prop} {files : List Location}

theorem refl (d : Disk) (roads : Location → Prop) : Grown d d roads [] where
  here := rfl
  nodup := List.nodup_nil
  new l hl := by cases hl
  other l _ := .inl rfl

theorem mono (h : Grown d d' roads files) (hr : ∀ l, roads l → roads' l) :
    Grown d d' roads' files where
  here := h.here
  nodup := h.nodup
  new := h.new
  other l hl := (h.other l hl).imp id fun ⟨h1, h2, h3⟩ => ⟨h1, h2, hr l h3⟩

theorem congr (h : Grown d d' roads files) (ha : Alike d' d'') : Grown d d'' roads files where
  here := ha.here.trans h.here
  nodup := h.nodup
  new l hl := by
    rw [ha.same]
    exact h.new l hl
  other l hl := by
    rw [ha.same]
    exact h.other l hl

/-- What stood before still stands. -/
theorem entry?_of_some (h : Grown d d' roads files) (hl : d.entry? l = some e) :
    d'.entry? l = some e := by
  have hfile : l ∉ files := fun hmem => by
    have := (h.new l hmem).1
    simp [hl] at this
  obtain heq | ⟨hnone, -⟩ := h.other l hfile
  · rw [heq, hl]
  · simp [hl] at hnone

theorem keeps (h : Grown d d' roads files) : KeepsDirectories d d' :=
  ⟨h.here, fun _ hl => h.entry?_of_some hl⟩

/-- What is missing after was missing before. -/
theorem entry?_of_none (h : Grown d d' roads files) (hl : d'.entry? l = none) :
    d.entry? l = none := by
  cases hd : d.entry? l with
  | none => rfl
  | some e =>
    rw [h.entry?_of_some hd] at hl
    cases hl

theorem trans (h : Grown d d' roads files) (h' : Grown d' d'' roads []) :
    Grown d d'' roads files where
  here := h'.here.trans h.here
  nodup := h.nodup
  new l hl := by
    obtain ⟨hnone, content, hfile⟩ := h.new l hl
    exact ⟨hnone, content, h'.entry?_of_some hfile⟩
  other l hl := by
    obtain heq | ⟨hnone, hdir, hroad⟩ := h'.other l (by simp)
    · rw [heq]
      exact h.other l hl
    · exact .inr ⟨h.entry?_of_none hnone, hdir, hroad⟩

/-- The new files are all listed. -/
theorem mem_files (h : Grown d d' roads files) :
    l ∈ files ↔ d.entry? l = none ∧ ∃ content, d'.entry? l = some (.file content) := by
  refine ⟨h.new l, fun ⟨hnone, content, hfile⟩ => ?_⟩
  by_contra hl
  obtain heq | ⟨-, hdir, -⟩ := h.other l hl
  · simp [heq, hnone] at hfile
  · simp [hdir] at hfile

theorem put_directory (h : d.entry? l = none) (hr : roads l) :
    Grown d (d.put l .directory) roads [] where
  here := rfl
  nodup := List.nodup_nil
  new l hl := by cases hl
  other m _ := by
    rw [entry?_put d (ne_root_of_none h)]
    by_cases hm : l = m
    · subst hm
      exact .inr ⟨h, if_pos rfl, hr⟩
    · exact .inl (if_neg hm)

theorem put_file (h : Grown d d' roads files) (hl : d'.entry? l = none) (content : ByteArray) :
    Grown d (d'.put l (.file content)) roads (l :: files) := by
  have hput := entry?_put d' (ne_root_of_none hl) (.file content)
  have hfresh : l ∉ files := fun hmem => by
    obtain ⟨-, content, hfile⟩ := h.new l hmem
    simp [hl] at hfile
  constructor
  case here => exact h.here
  case nodup => exact List.nodup_cons.mpr ⟨hfresh, h.nodup⟩
  case new =>
    intro m hm
    rw [hput]
    rcases List.mem_cons.mp hm with rfl | hm
    · exact ⟨h.entry?_of_none hl, content, if_pos rfl⟩
    · rw [if_neg]
      · exact h.new m hm
      · rintro rfl
        exact hfresh hm
  case other =>
    intro m hm
    simp only [List.mem_cons, not_or] at hm
    rw [hput, if_neg (Ne.symm hm.1)]
    exact h.other m hm.2

theorem remove (h : Grown d d' roads (l :: files)) : Grown d (d'.remove l) roads files := by
  obtain ⟨hfresh, hnodup⟩ := List.nodup_cons.mp h.nodup
  obtain ⟨hnone, content, hfile⟩ := h.new l List.mem_cons_self
  have hremove := entry?_remove d' (ne_root_of_file hfile)
  constructor
  case here => exact h.here
  case nodup => exact hnodup
  case new =>
    intro m hm
    rw [hremove, if_neg]
    · exact h.new m (List.mem_cons_of_mem _ hm)
    · rintro rfl
      exact hfresh hm
  case other =>
    intro m hm
    rw [hremove]
    by_cases hlm : l = m
    · subst hlm
      rw [if_pos rfl, hnone]
      exact .inl rfl
    · rw [if_neg hlm]
      exact h.other m (by simp [hm, Ne.symm hlm])

end Grown

-- ---------------------------------------------------------------------------
-- Walking down
-- ---------------------------------------------------------------------------

/-- A directory is found, or it is missing and made. -/
inductive Enters (d : Disk) (p : Path) (l : Location) : Disk → Prop
  | found : d.locate p = .ok l → d.entry? l = some .directory → Enters d p l d
  | made : d.locate p = .ok l → d.entry? l = none → Enters d p l (d.put l .directory)

theorem descend_cons_cases (d : Disk) (base : Path) (name : String) (names : List String) :
    (∃ l d', Enters d (base.join name) l d' ∧
      descend d base (name :: names) = descend d' (base.join name) names) ∨
    ∃ failure, descend d base (name :: names) = (.error failure, d) := by
  simp only [descend, findSubdirectory, createSubdirectory]
  cases hd : d.isDirectory (base.join name) with
  | true =>
    obtain ⟨l, hl, hdir⟩ := isDirectory_iff.mp hd
    exact .inl ⟨l, d, .found hl hdir, rfl⟩
  | false =>
    cases hc : d.createDirectory (base.join name) with
    | error error => exact .inr ⟨_, rfl⟩
    | ok d' =>
      obtain ⟨l, hl, hnone, rfl⟩ := createDirectory_ok.mp hc
      exact .inl ⟨l, _, .made hl hnone, rfl⟩

namespace Enters

theorem locate (h : Enters d p l d') : d.locate p = .ok l := by
  cases h with
  | found hl _ => exact hl
  | made hl _ => exact hl

theorem grown {roads : Location → Prop} (h : Enters d p l d') (hr : roads l) :
    Grown d d' roads [] := by
  cases h with
  | found _ _ => exact .refl d roads
  | made _ hnone => exact .put_directory hnone hr

theorem sound (h : Enters d (base.join name) l d') (hs : Sound d) (hn : IsName name) :
    Sound d' := by
  cases h with
  | found _ _ => exact hs
  | made hl hnone =>
    obtain ⟨hread, hreach⟩ := (locate_join hn).mp hl
    obtain ⟨dir, -, hdir, hshort, rfl⟩ := (reach_join hn).mp hreach
    exact hs.put hdir hshort hread.nulFree_name fun _ => rfl

/-- The directory is reached where it stands. -/
theorem reach (h : Enters d (base.join name) l d') (hn : IsName name) :
    ∃ b, d.reach base = .ok b ∧ l = b ++ [name] ∧ d'.reach (base.join name) = .ok (b ++ [name]) := by
  have hl := ((locate_join hn).mp h.locate).2
  obtain ⟨b, hb, -, -, rfl⟩ := (reach_join hn).mp hl
  have hgrown : Grown d d' (fun _ => True) [] := h.grown trivial
  exact ⟨b, hb, rfl, hgrown.keeps.reach hl⟩

end Enters

/-- The places that are passed on the way along the names, behind the base. -/
def OnWay (d : Disk) (base : Path) (names : List String) (l : Location) : Prop :=
  ∃ b passed, d.reach base = .ok b ∧ passed ≠ [] ∧ passed <+: names ∧ l = b ++ passed

/-- A walk down makes directories on its way and nothing else. -/
theorem descend_grown {result : Except Failure Path} (hs : Sound d)
    (hn : ∀ name ∈ names, IsName name) (h : descend d base names = (result, d')) :
    Sound d' ∧ Grown d d' (OnWay d base names) [] ∧
      ∀ path, result = .ok path → path = names.foldl Path.join base ∧
        (names ≠ [] → ∃ b, d.reach base = .ok b) ∧
        ∀ b, d.reach base = .ok b → d'.reach path = .ok (b ++ names) := by
  induction names generalizing d base with
  | nil =>
    cases h
    refine ⟨hs, .refl _ _, ?_⟩
    rintro path ⟨⟩
    exact ⟨rfl, by simp, fun b hb => by rw [List.append_nil, hb]⟩
  | cons name names ih =>
    have hname := hn name List.mem_cons_self
    obtain ⟨l, middle, henters, hd⟩ | ⟨failure, hd⟩ := descend_cons_cases d base name names
    · rw [hd] at h
      obtain ⟨b, hb, rfl, hreach⟩ := henters.reach hname
      obtain ⟨hsound, hgrown, hpath⟩ := ih (henters.sound hs hname)
        (fun n hmem => hn n (List.mem_cons_of_mem _ hmem)) h
      refine ⟨hsound, ?_, ?_⟩
      · have hfirst : Grown d middle (OnWay d base (name :: names)) [] :=
          henters.grown ⟨b, [name], hb, by simp, by simp, rfl⟩
        refine hfirst.trans (hgrown.mono ?_)
        rintro m ⟨b', passed, hb', -, hpassed, rfl⟩
        obtain rfl : b' = b ++ [name] := Except.ok.inj (hb'.symm.trans hreach)
        exact ⟨b, name :: passed, hb, by simp, List.prefix_cons_inj name |>.mpr hpassed, by simp⟩
      · intro path hp
        obtain ⟨rfl, -, hway⟩ := hpath path hp
        refine ⟨rfl, fun _ => ⟨b, hb⟩, fun b' hb' => ?_⟩
        obtain rfl : b' = b := Except.ok.inj (hb'.symm.trans hb)
        rw [hway _ hreach, List.append_assoc, List.singleton_append]
    · rw [hd] at h
      cases h
      exact ⟨hs, .refl _ _, by simp⟩

end Scaffold.Disk
