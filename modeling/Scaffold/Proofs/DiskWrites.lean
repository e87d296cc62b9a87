import Scaffold.Proofs.DiskTrees
import Scaffold.Proofs.Entities
import Scaffold.Proofs.Replacements

/-!
# One artifact on the disk

The artifacts of an entity go to plain names, so a plan and a commit spell
their paths alike, and the temporary place of each file is beside it. While
nothing stands at these places, a write puts its file where it belongs, after
making the directories on the way; or it fails and leaves at most some of
those directories.
-/

namespace Scaffold

open Scaffold.Path

-- ---------------------------------------------------------------------------
-- Names of artifacts
-- ---------------------------------------------------------------------------

namespace Path

instance (name : String) : Decidable (IsName name) :=
  decidable_of_iff ('/' ∉ name.toList ∧ segmentComponent name.toList = some (.normal name))
    ⟨fun h => ⟨h.1, h.2⟩, fun h => ⟨h.1, h.2⟩⟩

/-- A slash-free text with a long enough ending is a name. -/
theorem isName_append {name ending : String} (hn : '/' ∉ name.toList) (he : '/' ∉ ending.toList)
    (hl : 2 < ending.toList.length) : IsName (name ++ ending) where
  slashFree := by simp [hn, he]
  component := by
    rw [segmentComponent_of_length, String.ofList_toList]
    rw [String.toList_append, List.length_append]
    omega

theorem isAbsolute_append {name : String} (h : IsName name) (rest : String) :
    (Path.mk (name ++ rest)).isAbsolute = false := by
  have hname := h.isAbsolute
  rw [isAbsolute, decide_eq_false_iff_not] at hname ⊢
  rwa [String.toList_append, List.head?_append_of_ne_nil _ h.ne_empty]

/-- A name and a text behind it may be joined at once. -/
theorem join_join {name rest : String} (h : IsName name)
    (hr : (Path.mk rest).isAbsolute = false) (p : Path) :
    (p.join name).join rest = p.join (name ++ "/" ++ rest) := by
  have hslash : (p.join name).spelling.toList.getLast? ≠ some '/' := by
    simpa [Disk.endsInSlash] using Disk.endsInSlash_join h p
  have hwhole : (Path.mk (name ++ "/" ++ rest)).isAbsolute = false := by
    rw [String.append_assoc]
    exact isAbsolute_append h _
  rw [join_eq (p.join name) hr, spelling_join_empty (h.join_ne_empty p) hslash,
    join_eq p h.isAbsolute, join_eq p hwhole]
  simp [String.append_assoc]

end Path

namespace Kind

variable {name : String}

/-- The name under which the file of an artifact is written before it is moved. -/
def temporaryName (k : Kind) (className : String) : String :=
  k.typeName className ++ ".tmp"

theorem isName_place (k : Kind) : ∀ directory ∈ k.place, IsName directory := by
  cases k <;> decide

theorem segments_relativePath (k : Kind) : ProjectTree.segments k.relativePath = k.place := by
  cases k <;> decide

/-- A place is one directory or one in another. -/
theorem place_cases (k : Kind) :
    (∃ first, k.place = [first] ∧ k.relativePath = first) ∨
      ∃ first second, k.place = [first, second] ∧ k.relativePath = first ++ "/" ++ second := by
  cases k with
  | mapper => exact .inl ⟨_, rfl, by decide⟩
  | service => exact .inl ⟨_, rfl, by decide⟩
  | controller => exact .inl ⟨_, rfl, by decide⟩
  | repository => exact .inr ⟨_, _, rfl, by decide⟩
  | dto => exact .inr ⟨_, _, rfl, by decide⟩
  | request => exact .inr ⟨_, _, rfl, by decide⟩
  | searchRequest => exact .inr ⟨_, _, rfl, by decide⟩

theorem isName_fileName (k : Kind) (h : '/' ∉ name.toList) : IsName (k.fileName name) := by
  rw [fileName, typeName, String.append_assoc]
  exact isName_append h k.notMem_slash_ending (by cases k <;> decide)

theorem isName_temporaryName (k : Kind) (h : '/' ∉ name.toList) :
    IsName (k.temporaryName name) := by
  rw [temporaryName, typeName, String.append_assoc]
  exact isName_append h (by cases k <;> decide) (by cases k <;> decide)

theorem temporary_fileName (k : Kind) (h : '/' ∉ name.toList) (p : Path) :
    Disk.temporary (p.join (k.fileName name)) = p.join (k.temporaryName name) := by
  have hfile : k.fileName name = k.typeName name ++ "." ++ "java" := by
    rw [fileName, String.append_assoc]
    rfl
  have htype : k.typeName name ≠ "" := by
    rw [typeName, ne_eq, ← String.toList_eq_nil_iff, String.toList_append]
    cases k <;> simp [ending]
  have hname := k.isName_fileName h
  rw [hfile] at hname ⊢
  exact Disk.temporary_join hname htype (by decide) p

end Kind

namespace Transaction

variable {e : Entity} {c : Context} {k : Kind}

theorem segments_ofKind (e : Entity) (c : Context) (k : Kind) :
    ProjectTree.segments (Artifact.ofKind e c k).relativePath = k.place :=
  k.segments_relativePath

theorem destination_ofKind (base : Path) (e : Entity) (c : Context) (k : Kind) :
    destination base (.ofKind e c k) = (k.place.foldl Path.join base).join (k.fileName e.name) := by
  rw [destination, segments_ofKind]
  rfl

/-- A plan and a commit spell the file of an artifact alike. -/
theorem destination_eq_target (h : '/' ∉ e.name.toList) (base : Path) (c : Context) (k : Kind) :
    destination base (.ofKind e c k) = target base (.ofKind e c k) := by
  have hname := k.isName_fileName h
  have hplace : Transaction.place (.ofKind e c k) =
      ⟨k.relativePath ++ "/" ++ k.fileName e.name⟩ := by
    have hfront : ((Path.mk k.relativePath).join "").spelling = k.relativePath ++ "/" := by
      cases k <;> decide
    rw [Transaction.place, Artifact.ofKind, Path.join_eq _ hname.isAbsolute, hfront]
  have hdirectories := k.isName_place
  rw [destination_ofKind, target, Path.joinPath, hplace]
  obtain ⟨first, hp, hr⟩ | ⟨first, second, hp, hr⟩ := k.place_cases
  · rw [hp] at hdirectories ⊢
    rw [List.foldl_cons, List.foldl_nil, hr]
    exact Path.join_join (hdirectories first (by simp)) hname.isAbsolute base
  · rw [hp] at hdirectories ⊢
    have hsecond := hdirectories second (by simp)
    have hrest : (Path.mk (second ++ "/" ++ k.fileName e.name)).isAbsolute = false := by
      rw [String.append_assoc]
      exact Path.isAbsolute_append hsecond _
    rw [List.foldl_cons, List.foldl_cons, List.foldl_nil, hr,
      Path.join_join hsecond hname.isAbsolute, Path.join_join (hdirectories first (by simp)) hrest]
    simp [String.append_assoc]

end Transaction

namespace Disk

open ProjectTree Transaction

variable {d d' middle : Disk} {base : Path} {b : Location} {e : Entity} {c : Context} {k : Kind}
  {name : String}

-- ---------------------------------------------------------------------------
-- Temporary places
-- ---------------------------------------------------------------------------

/-- Nothing stands at the temporary places of an entity's files. -/
def Clear (d : Disk) (base : Path) (name : String) : Prop :=
  ∀ b, d.reach base = .ok b → ∀ k : Kind,
    d.entry? (b ++ k.place ++ [k.temporaryName name]) = none

theorem temporaryName_notMem_place (k l : Kind) (name : String) :
    l.temporaryName name ∉ k.place := by
  have hdot : ∀ directory ∈ k.place, '.' ∉ directory.toList := by cases k <;> decide
  intro hmem
  exact hdot _ hmem (by simp [Kind.temporaryName])

theorem temporaryName_ne_fileName (k l : Kind) (name : String) :
    l.temporaryName name ≠ k.fileName name := by
  intro h
  have hlast := congrArg (fun s : String => s.toList.getLast?) h
  simp [Kind.temporaryName, Kind.fileName] at hlast

/-- Directories on the way of an artifact leave the temporary places clear. -/
theorem Clear.of_grown (hc : Clear d base name) (hb : d.reach base = .ok b)
    (hg : Grown d middle (OnWay d base k.place) []) (l : Kind) :
    middle.entry? (b ++ l.place ++ [l.temporaryName name]) = none := by
  obtain heq | ⟨-, -, b', passed, hb', -, hpassed, heq⟩ :=
    hg.other (b ++ l.place ++ [l.temporaryName name]) (by simp)
  · rw [heq, hc b hb l]
  · obtain rfl : b' = b := Except.ok.inj (hb'.symm.trans hb)
    rw [List.append_assoc, List.append_cancel_left_eq] at heq
    exact absurd (hpassed.subset (heq ▸ by simp)) (temporaryName_notMem_place k l name)

-- ---------------------------------------------------------------------------
-- Writes
-- ---------------------------------------------------------------------------

/-- Where the file of an artifact stands below the place of the base directory. -/
def standing (b : Location) (a : Artifact) : Location :=
  b ++ segments a.relativePath ++ [a.fileName]

theorem standing_ofKind (b : Location) (e : Entity) (c : Context) (k : Kind) :
    standing b (.ofKind e c k) = b ++ k.place ++ [k.fileName e.name] := by
  rw [standing, segments_ofKind]
  rfl

/-- The files of the kinds of one entity stand at different places. -/
theorem standing_inj {l : Kind} (h : standing b (.ofKind e c k) = standing b (.ofKind e c l)) :
    k = l := by
  rw [standing_ofKind, standing_ofKind] at h
  have hname := List.append_inj_right' h rfl
  rw [List.cons.injEq] at hname
  exact Kind.fileName_inj hname.1

theorem locate_destination (hn : '/' ∉ e.name.toList) {l : Location} :
    d.locate (destination base (.ofKind e c k)) = .ok l ↔
      Readable (destination base (.ofKind e c k)) ∧
        d.reach (destination base (.ofKind e c k)) = .ok l := by
  rw [destination_ofKind]
  exact locate_join (k.isName_fileName hn)

theorem endsInSlash_destination (hn : '/' ∉ e.name.toList) (base : Path) (c : Context) (k : Kind) :
    endsInSlash (destination base (.ofKind e c k)) = false := by
  rw [destination_ofKind]
  exact endsInSlash_join (k.isName_fileName hn) _

/-- The disk sees the file of an artifact under a path that it takes. -/
theorem isFile_destination (hn : '/' ∉ e.name.toList) :
    d.isFile (destination base (.ofKind e c k)) = true ↔
      Readable (destination base (.ofKind e c k)) ∧
        ∃ l content, d.reach (destination base (.ofKind e c k)) = .ok l ∧
          d.entry? l = some (.file content) := by
  rw [isFile_iff]
  simp only [locate_destination hn, endsInSlash_destination hn, and_true]
  constructor
  · rintro ⟨l, content, ⟨hread, hreach⟩, he⟩
    exact ⟨hread, l, content, hreach, he⟩
  · rintro ⟨hread, l, content, hreach, he⟩
    exact ⟨l, content, ⟨hread, hreach⟩, he⟩

theorem reach_destination (hs : Sound d) (hn : '/' ∉ e.name.toList) (hb : d.reach base = .ok b)
    (he : d.entry? (standing b (.ofKind e c k)) ≠ none) :
    d.reach (destination base (.ofKind e c k)) = .ok (standing b (.ofKind e c k)) := by
  have hnames : ∀ name ∈ k.place ++ [k.fileName e.name], IsName name := by
    intro name hmem
    rcases List.mem_append.mp hmem with h | h
    · exact k.isName_place name h
    · exact List.mem_singleton.mp h ▸ k.isName_fileName hn
  rw [standing_ofKind, List.append_assoc] at he ⊢
  rw [destination_ofKind, ← hs.reach_foldl hb hnames he, List.foldl_append]
  rfl

/-- While its temporary place is clear, a file is put where it belongs or nothing changes. -/
theorem replaceFile_clear {p : Path} {dir : Location} (hn : '/' ∉ name.toList) (k : Kind)
    (hreach : d.reach p = .ok dir) (hclear : d.entry? (dir ++ [k.temporaryName name]) = none)
    (text : String) :
    (d.locate (p.join (k.fileName name)) = .ok (dir ++ [k.fileName name]) ∧
      d.entry? (dir ++ [k.fileName name]) ≠ some .directory ∧
      (d.replaceFile (p.join (k.fileName name)) text).1 = .ok () ∧
      Alike (d.put (dir ++ [k.fileName name]) (.file text.toUTF8))
        (d.replaceFile (p.join (k.fileName name)) text).2) ∨
    (∃ failure, (d.replaceFile (p.join (k.fileName name)) text).1 = .error failure) ∧
      Alike d (d.replaceFile (p.join (k.fileName name)) text).2 := by
  have hfile : ∀ l, d.locate (p.join (k.fileName name)) = .ok l → l = dir ++ [k.fileName name] := by
    intro l hl
    obtain ⟨b, hb, -, -, rfl⟩ :=
      (reach_join (k.isName_fileName hn)).mp ((locate_join (k.isName_fileName hn)).mp hl).2
    rw [Except.ok.inj (hb.symm.trans hreach)]
  have htemporary : ∀ m, d.locate (temporary (p.join (k.fileName name))) = .ok m →
      d.entry? m = none := by
    intro m hm
    rw [k.temporary_fileName hn] at hm
    obtain ⟨b, hb, -, -, rfl⟩ := (reach_join (k.isName_temporaryName hn)).mp
      ((locate_join (k.isName_temporaryName hn)).mp hm).2
    rw [Except.ok.inj (hb.symm.trans hreach), hclear]
  have hreplaces := replaceFile_replaces d (p.join (k.fileName name)) text
  generalize d.replaceFile (p.join (k.fileName name)) text = done at hreplaces
  obtain ⟨result, d'⟩ := done
  simp only at hreplaces ⊢
  cases hreplaces with
  | @moved l m hm hmdir hl hldir =>
    obtain rfl := hfile l hl
    refine .inl ⟨hl, hldir, rfl, rfl, fun x => ?_⟩
    rw [entry?_moved hmdir hldir, entry?_put d (ne_root hldir)]
    by_cases hx : m = x
    · subst hx
      simp [htemporary m hm]
    · rw [if_neg hx]
  | refused => exact .inr ⟨⟨_, rfl⟩, .refl d⟩
  | @cleared m reason hm hmdir =>
    refine .inr ⟨⟨_, rfl⟩, rfl, fun x => ?_⟩
    rw [entry?_cleared hmdir]
    by_cases hx : m = x
    · subst hx
      rw [if_pos rfl, htemporary m hm]
    · rw [if_neg hx]

/-- The ways in which the write of an artifact can end. -/
inductive Writes (d : Disk) (base : Path) (a : Artifact) : Except Failure Path → Disk → Prop
  | stored {b : Location} {directory : Path} {middle d' : Disk} : d.reach base = .ok b →
      descend d base (segments a.relativePath) = (.ok directory, middle) →
      Sound middle → Grown d middle (OnWay d base (segments a.relativePath)) [] →
      middle.locate (destination base a) = .ok (standing b a) →
      middle.entry? (standing b a) ≠ some .directory →
      Alike (middle.put (standing b a) (.file a.content.toUTF8)) d' →
      Writes d base a (.ok (destination base a)) d'
  | refused {failure : Failure} {d' : Disk} : Sound d' →
      Grown d d' (OnWay d base (segments a.relativePath)) [] → Writes d base a (.error failure) d'

theorem write_writes (hs : Sound d) (hn : '/' ∉ e.name.toList) (hc : Clear d base e.name)
    (c : Context) (k : Kind) :
    Writes d base (.ofKind e c k) (write d base (.ofKind e c k)).1
      (write d base (.ofKind e c k)).2 := by
  have hplace := segments_ofKind e c k
  unfold Transaction.write ensureSubdirectories
  rcases hd : descend d base (segments (Artifact.ofKind e c k).relativePath) with ⟨result, middle⟩
  have hd' := hd
  rw [hplace] at hd'
  obtain ⟨hsound, hgrown, hpath⟩ := descend_grown hs k.isName_place hd'
  cases result with
  | error failure => exact .refused hsound (hplace.symm ▸ hgrown)
  | ok directory =>
    obtain ⟨rfl, hbase, hway⟩ := hpath directory rfl
    obtain ⟨b, hb⟩ := hbase (by cases k <;> simp [Kind.place])
    have hreplace := replaceFile_clear hn k (hway b hb) (hc.of_grown hb hgrown k)
      (Artifact.ofKind e c k).content
    have hdestination := destination_ofKind base e c k
    rw [← standing_ofKind b e c k, ← hdestination] at hreplace
    simp only [insertTextFile]
    have hjoin : (k.place.foldl Path.join base).join (Artifact.ofKind e c k).fileName =
        destination base (.ofKind e c k) := hdestination.symm
    rw [hjoin]
    obtain ⟨hl, hdir, hok, halike⟩ | ⟨⟨failure, herr⟩, halike⟩ := hreplace
    · rw [hok]
      exact .stored hb hd hsound (hplace.symm ▸ hgrown) hl hdir halike
    · rw [herr]
      exact .refused (hsound.congr halike) ((hplace.symm ▸ hgrown).congr halike)

namespace Writes

variable {path : Path} {a : Artifact}

theorem path_eq (h : Writes d base a (.ok path) d') : path = destination base a := by
  cases h with
  | stored => rfl

theorem keeps (h : Writes d base a (.ok path) d') : KeepsDirectories d d' := by
  cases h with
  | stored _ _ _ hgrown _ hdir halike =>
    exact (hgrown.keeps.trans (keeps_put hdir _)).trans halike.keeps

theorem reach (h : Writes d base a (.ok path) d') : ∃ b, d.reach base = .ok b := by
  cases h with
  | stored hb => exact ⟨_, hb⟩

theorem locate (h : Writes d base a (.ok path) d') (hb : d.reach base = .ok b) :
    d'.locate (destination base a) = .ok (standing b a) := by
  cases h with
  | @stored b' _ _ _ hb' _ _ hgrown hl hdir halike =>
    obtain rfl : b' = b := Except.ok.inj (hb'.symm.trans hb)
    exact halike.keeps.locate ((keeps_put hdir _).locate hl)

theorem sound (h : Writes d base (.ofKind e c k) (.ok path) d') (hn : '/' ∉ e.name.toList) :
    Sound d' := by
  cases h with
  | @stored b _ middle _ hb _ hsound _ hl hdir halike =>
    have hname := k.isName_fileName hn
    rw [destination_ofKind] at hl
    obtain ⟨hread, hreach⟩ := (locate_join hname).mp hl
    obtain ⟨dir, -, hdirectory, hshort, heq⟩ := (reach_join hname).mp hreach
    rw [heq] at hdir halike
    exact (hsound.put hdirectory hshort hread.nulFree_name fun h => absurd h hdir).congr
      halike

theorem clear (h : Writes d base (.ofKind e c k) (.ok path) d') (hc : Clear d base e.name) :
    Clear d' base e.name := by
  have hkeeps := h.keeps
  cases h with
  | @stored b _ middle _ hb _ _ hgrown _ hdir halike =>
    rw [segments_ofKind] at hgrown
    intro b' hb' l
    obtain rfl : b = b' := Except.ok.inj ((hkeeps.reach hb).symm.trans hb')
    rw [halike.same, entry?_put _ (ne_root hdir), if_neg]
    · exact hc.of_grown hb hgrown l
    · rw [standing_ofKind]
      intro heq
      have hname := List.append_inj_right' heq rfl
      rw [List.cons.injEq] at hname
      exact temporaryName_ne_fileName k l e.name hname.1.symm

end Writes

end Disk

end Scaffold
