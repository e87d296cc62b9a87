import Scaffold.Proofs.Effects
import Scaffold.Proofs.Respellings
import Scaffold.Proofs.Simulations

/-!
# A tree in memory under other spellings

An ordered list of paths is told by the components of its paths: what is
found in it, and where something is put, stays the same when all paths are
spelled otherwise. So trees whose entries differ in their spelling simulate
each other. The lists stay in strictly ascending order, which leaves no room
for two spellings of one path.
-/

namespace Scaffold

open ProjectTree Scaffold.Path

-- ---------------------------------------------------------------------------
-- Lists of paths
-- ---------------------------------------------------------------------------

namespace PathMap

variable {α : Type} {p q : Path} {m m' : PathMap α} {entry : Path × α}

/-- Entry for entry the same value, under a path that is perhaps spelled otherwise. -/
def Respells (m m' : PathMap α) : Prop :=
  List.Forall₂ (fun entry entry' => entry.1.Respells entry'.1 ∧ entry.2 = entry'.2) m m'

theorem compare_congr {p' q' : Path} (hp : p.Respells p') (hq : q.Respells q') :
    p.compare q = p'.compare q' := by
  rw [Path.compare, Path.compare, hp, hq]

theorem Respells.insert (h : Respells m m') (hp : p.Respells q) (a : α) :
    Respells (insert p a m) (insert q a m') := by
  induction h with
  | nil => exact .cons ⟨hp, rfl⟩ .nil
  | @cons entry entry' m m' hentry hm ih =>
    simp only [PathMap.insert, compare_congr hp hentry.1]
    cases q.compare entry'.1 with
    | lt => exact .cons ⟨hp, rfl⟩ (.cons hentry hm)
    | eq => exact .cons ⟨hentry.1, rfl⟩ hm
    | gt => exact .cons hentry ih

theorem Respells.get? (h : Respells m m') (hp : p.Respells q) : get? m p = get? m' q := by
  induction h with
  | nil => rfl
  | cons hentry _ ih => rw [get?_cons, get?_cons, hentry.1, hentry.2, hp, ih]

theorem Respells.contains (h : Respells m m') (hp : p.Respells q) :
    contains m p = contains m' q := by
  rw [contains_eq_isSome, contains_eq_isSome, h.get? hp]

theorem Respells.erase (h : Respells m m') (hp : p.Respells q) :
    Respells (erase m p) (erase m' q) := by
  induction h with
  | nil => exact .nil
  | @cons entry entry' m m' hentry _ ih =>
    have hsame : entry.1.same p = entry'.1.same q := by rw [same, same, hentry.1, hp]
    simp only [PathMap.erase, List.filter_cons, hsame]
    split
    · exact .cons hentry ih
    · exact ih

/-- The paths of the list ascend. -/
def Ascending (m : PathMap α) : Prop :=
  m.Pairwise fun entry entry' => entry.1.compare entry'.1 = .lt

theorem mem_insert {a : α} (h : entry ∈ insert p a m) :
    entry.1.Respells p ∨ ∃ entry' ∈ m, entry.1 = entry'.1 := by
  induction m with
  | nil => exact .inl (List.mem_singleton.mp h ▸ rfl)
  | cons first m ih =>
    simp only [insert] at h
    split at h
    · rcases List.mem_cons.mp h with rfl | h
      · exact .inl rfl
      · exact .inr ⟨entry, h, rfl⟩
    · rcases List.mem_cons.mp h with rfl | h
      · exact .inr ⟨first, List.mem_cons_self, rfl⟩
      · exact .inr ⟨entry, List.mem_cons_of_mem _ h, rfl⟩
    · rcases List.mem_cons.mp h with rfl | h
      · exact .inr ⟨entry, List.mem_cons_self, rfl⟩
      · obtain hp | ⟨entry', hmem, heq⟩ := ih h
        · exact .inl hp
        · exact .inr ⟨entry', List.mem_cons_of_mem _ hmem, heq⟩

theorem Ascending.insert (h : Ascending m) (p : Path) (a : α) : Ascending (insert p a m) := by
  induction m with
  | nil => exact List.pairwise_singleton ..
  | cons first m ih =>
    obtain ⟨hfirst, hm⟩ := List.pairwise_cons.mp h
    simp only [PathMap.insert]
    cases hc : p.compare first.1 with
    | lt =>
      refine List.pairwise_cons.mpr ⟨fun entry hentry => ?_, h⟩
      rcases List.mem_cons.mp hentry with rfl | hentry
      · exact hc
      · exact Std.TransCmp.lt_trans hc (hfirst entry hentry)
    | eq => exact List.pairwise_cons.mpr ⟨hfirst, hm⟩
    | gt =>
      refine List.pairwise_cons.mpr ⟨fun entry hentry => ?_, ih hm⟩
      rcases mem_insert hentry with hp | ⟨entry', hentry', heq⟩
      · rw [compare_congr (.refl _) hp]
        exact Std.OrientedCmp.gt_iff_lt.mp hc
      · exact heq ▸ hfirst entry' hentry'

theorem Ascending.erase (h : Ascending m) (p : Path) : Ascending (erase m p) :=
  h.sublist List.filter_sublist

theorem Ascending.insertAll (h : Ascending m) (entries : List (Path × α)) :
    Ascending (m.insertAll entries) := by
  induction entries generalizing m with
  | nil => exact h
  | cons entry entries ih => exact ih (h.insert entry.1 entry.2)

/-- No two entries of an ascending list have the same components. -/
theorem Ascending.nodup (h : Ascending m) : (m.map fun entry => entry.1.components).Nodup := by
  rw [List.Nodup, List.pairwise_map]
  refine h.imp fun {entry entry'} hlt hsame => ?_
  rw [compare_eq.mpr hsame] at hlt
  cases hlt

end PathMap

-- ---------------------------------------------------------------------------
-- Failures and trees
-- ---------------------------------------------------------------------------

/-- The same failure at paths that are perhaps spelled otherwise. -/
inductive Failure.Respells : Failure → Failure → Prop
  | noFileSelected : Respells .noFileSelected .noFileSelected
  | unreadable {p q} (reason) : p.Respells q →
      Respells (.unreadable p reason) (.unreadable q reason)
  | unsupportedLanguage {p q} : p.Respells q →
      Respells (.unsupportedLanguage p) (.unsupportedLanguage q)
  | unparsable {p q} : p.Respells q → Respells (.unparsable p) (.unparsable q)
  | noClass {p q} : p.Respells q → Respells (.noClass p) (.noClass q)
  | untypedField (className field) :
      Respells (.untypedField className field) (.untypedField className field)
  | directoryNotCreated {p q} (reason) : p.Respells q →
      Respells (.directoryNotCreated p reason) (.directoryNotCreated q reason)
  | notWritten {p q} (reason) : p.Respells q →
      Respells (.notWritten p reason) (.notWritten q reason)
  | artifactsExist {ps qs} : List.Forall₂ Path.Respells ps qs →
      Respells (.artifactsExist ps) (.artifactsExist qs)
  | commitFailed {cause cause'} (rolledBack) : Respells cause cause' →
      Respells (.commitFailed rolledBack cause) (.commitFailed rolledBack cause')

namespace MemoryTree

/-- The same entries, each under a path that is perhaps spelled otherwise. -/
structure Respells (t t' : MemoryTree) : Prop where
  directories : t.directories.Respells t'.directories
  files : t.files.Respells t'.files
  created : t.created = t'.created

/-- Directories and files are each listed in strictly ascending order. -/
structure Ascending (t : MemoryTree) : Prop where
  directories : t.directories.Ascending
  files : t.files.Ascending

variable {t t' : MemoryTree} {p q : Path}

theorem Respells.hasDirectory (h : t.Respells t') (hp : p.Respells q) :
    t.hasDirectory p = t'.hasDirectory q :=
  h.directories.contains hp

theorem Respells.content? (h : t.Respells t') (hp : p.Respells q) :
    t.content? p = t'.content? q :=
  h.files.get? hp

theorem respells_foldl_insert {ps qs : List Path} {m m' : PathMap Unit} (hm : m.Respells m')
    (h : List.Forall₂ Path.Respells ps qs) :
    PathMap.Respells (ps.foldl (fun m p => PathMap.insert p () m) m)
      (qs.foldl (fun m p => PathMap.insert p () m) m') := by
  induction h generalizing m m' with
  | nil => exact hm
  | cons hp _ ih => exact ih (hm.insert hp ())

theorem Respells.withDirectory (h : t.Respells t') (hp : p.Respells q) :
    (t.withDirectory p).Respells (t'.withDirectory q) where
  directories := by
    refine respells_foldl_insert h.directories ?_
    have habove := hp.ancestors
    generalize p.ancestors = ps, q.ancestors = qs at habove
    induction habove with
    | nil => exact .nil
    | @cons a b ps qs hab _ ih =>
      simp only [List.filter_cons, ne_eq, hab.spelling_eq_empty]
      split
      · exact .cons hab ih
      · exact ih
  files := h.files
  created := h.created

theorem Respells.withFile (h : t.Respells t') (hp : p.Respells q) (content : String) :
    (t.withFile p content).Respells (t'.withFile q content) := by
  have hparent := hp.parent?
  unfold MemoryTree.withFile
  generalize p.parent? = parent, q.parent? = parent' at hparent
  cases hparent with
  | none => exact ⟨h.directories, h.files.insert hp content, h.created⟩
  | some hparent =>
    have habove := h.withDirectory hparent
    exact ⟨habove.directories, habove.files.insert hp content, habove.created⟩

/-- Trees in memory simulate each other when only the spelling of their entries differs. -/
def respelling : Simulation MemoryTree MemoryTree where
  tree := Respells
  directory := Path.Respells
  file := Path.Respells
  failure := Failure.Respells
  named _ := True
  places _ _ _ := trivial
  find {s t p q name} ht hp _ := by
    simp only [findSubdirectory, ht.hasDirectory (hp.join name)]
    split
    · exact .some (hp.join name)
    · exact .none
  create {s t p q name} ht hp _ :=
    ⟨.ok (hp.join name), ht.directories.insert (hp.join name) (), ht.files,
      congrArg (· + 1) ht.created⟩
  here ht hp := ht.files.contains hp
  insert ht hp := ⟨.ok (hp.join _), ht.directories, ht.files.insert (hp.join _) _, ht.created⟩
  remove ht hp := ⟨.ok trivial, ht.directories, ht.files.erase hp, ht.created⟩
  site e c k hb := by
    cases hb with
    | none => rfl
    | some h => exact h.join _
  refused h := .artifactsExist h
  failed rolledBack h := .commitFailed rolledBack h

theorem Ascending.enter (h : t.Ascending) (p : Path) : (t.enter p).Ascending := by
  unfold MemoryTree.enter
  split
  · exact h
  · exact ⟨h.directories.insert p (), h.files⟩

theorem Ascending.enterAll (h : t.Ascending) (ps : List Path) : (t.enterAll ps).Ascending := by
  induction ps generalizing t with
  | nil => exact h
  | cons p ps ih => exact ih (h.enter p)

theorem Ascending.withDirectory (h : t.Ascending) (p : Path) : (t.withDirectory p).Ascending where
  directories := by
    unfold MemoryTree.withDirectory
    generalize p.ancestors.filter (fun p => p.spelling ≠ "") = ps
    have hm := h.directories
    generalize t.directories = m at hm
    induction ps generalizing m with
    | nil => exact hm
    | cons p ps ih => exact ih _ (hm.insert p ())
  files := h.files

theorem Ascending.withFile (h : t.Ascending) (p : Path) (content : String) :
    (t.withFile p content).Ascending := by
  unfold MemoryTree.withFile
  cases p.parent? with
  | none => exact ⟨h.directories, h.files.insert p content⟩
  | some parent =>
    exact ⟨(h.withDirectory parent).directories, (h.withDirectory parent).files.insert p content⟩

end MemoryTree

end Scaffold
