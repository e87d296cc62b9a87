import Scaffold.Config
import Scaffold.Proofs.DiskTrees
import Scaffold.Proofs.Simulations

/-!
# Disks that lack configuration files

What a run reads and writes are directories and files with other names than
that of a configuration file. So a run goes alike on a disk that lacks some
configuration files. Only a way through such a file fails for another reason.
-/

namespace Scaffold

open ProjectTree

-- ---------------------------------------------------------------------------
-- Reasons
-- ---------------------------------------------------------------------------

/-- The same error, or a file on the way that is missing on the second disk. -/
inductive DiskError.Alike : DiskError → DiskError → Prop
  | same (e) : Alike e e
  | missing : Alike .notADirectory .notFound

/-- The same failure, or one for a reason that is alike. -/
inductive Failure.Alike : Failure → Failure → Prop
  | same (f) : Alike f f
  | unreadable {e e'} (p) : DiskError.Alike e e' →
      Alike (.unreadable p e.message) (.unreadable p e'.message)
  | directoryNotCreated {e e'} (p) : DiskError.Alike e e' →
      Alike (.directoryNotCreated p e.message) (.directoryNotCreated p e'.message)
  | notWritten {e e'} (p) : DiskError.Alike e e' →
      Alike (.notWritten p e.message) (.notWritten p e'.message)
  | commitFailed {cause cause'} (rolledBack) : Alike cause cause' →
      Alike (.commitFailed rolledBack cause) (.commitFailed rolledBack cause')

namespace Disk

/-- The place does not bear the name of configuration files. -/
def Ordinary (l : Location) : Prop := ∃ name, l.getLast? = some name ∧ name ≠ Config.fileName

/-- The path ends in a name that is not that of configuration files. -/
def Spares (p : Path) : Prop :=
  ∃ name, p.components.getLast? = some (.normal name) ∧ name ≠ Config.fileName

/-- The second disk is the first one without some of its configuration files. -/
structure Lacks (lost : Location → Prop) (d d' : Disk) : Prop where
  here : d'.here = d.here
  config : ∀ l, lost l → l.getLast? = some Config.fileName
  gone : ∀ l, lost l → (∃ content, d.entry? l = some (.file content)) ∧ d'.entry? l = none
  kept : ∀ l, ¬lost l → d'.entry? l = d.entry? l

variable {lost : Location → Prop} {d d' : Disk} {l : Location} {p q : Path} {name : String}

theorem Ordinary.ne_root (h : Ordinary l) : l ≠ [] := by
  rintro rfl
  obtain ⟨name, hname, -⟩ := h
  cases hname

theorem lacks_remove {content : ByteArray} (hname : l.getLast? = some Config.fileName)
    (h : d.entry? l = some (.file content)) : Lacks (· = l) d (d.remove l) where
  here := rfl
  config := by
    rintro _ rfl
    exact hname
  gone := by
    rintro _ rfl
    exact ⟨⟨content, h⟩, by rw [entry?_remove d (ne_root_of_file h), if_pos rfl]⟩
  kept m hm := by rw [entry?_remove d (ne_root_of_file h), if_neg (Ne.symm hm)]

namespace Lacks

theorem ne_of_ordinary (h : Lacks lost d d') (hl : Ordinary l) {m : Location} (hm : lost m) :
    l ≠ m := by
  rintro rfl
  obtain ⟨name, hname, hother⟩ := hl
  exact hother (Option.some.inj (hname.symm.trans (h.config l hm)))

theorem entry? (h : Lacks lost d d') (hl : Ordinary l) : d'.entry? l = d.entry? l :=
  h.kept l fun hlost => h.ne_of_ordinary hl hlost rfl

theorem directory_iff (h : Lacks lost d d') :
    d'.entry? l = some .directory ↔ d.entry? l = some .directory := by
  by_cases hl : lost l
  · obtain ⟨⟨content, hfile⟩, hnone⟩ := h.gone l hl
    simp [hfile, hnone]
  · rw [h.kept l hl]

theorem put (h : Lacks lost d d') (hl : Ordinary l) (e : Entry) :
    Lacks lost (d.put l e) (d'.put l e) where
  here := h.here
  config := h.config
  gone m hm := by
    rw [entry?_put d hl.ne_root, entry?_put d' hl.ne_root, if_neg (h.ne_of_ordinary hl hm),
      if_neg (h.ne_of_ordinary hl hm)]
    exact h.gone m hm
  kept m hm := by rw [entry?_put d hl.ne_root, entry?_put d' hl.ne_root, h.kept m hm]

theorem remove (h : Lacks lost d d') (hl : Ordinary l) :
    Lacks lost (d.remove l) (d'.remove l) where
  here := h.here
  config := h.config
  gone m hm := by
    rw [entry?_remove d hl.ne_root, entry?_remove d' hl.ne_root,
      if_neg (h.ne_of_ordinary hl hm), if_neg (h.ne_of_ordinary hl hm)]
    exact h.gone m hm
  kept m hm := by rw [entry?_remove d hl.ne_root, entry?_remove d' hl.ne_root, h.kept m hm]

-- ---------------------------------------------------------------------------
-- Ways
-- ---------------------------------------------------------------------------

theorem walk (h : Lacks lost d d') (l : Location) (cs : List Component) :
    Matched DiskError.Alike Eq (d.walk l cs) (d'.walk l cs) := by
  induction cs generalizing l with
  | nil => exact .ok rfl
  | cons c cs ih =>
    simp only [Disk.walk]
    by_cases hl : lost l
    · obtain ⟨⟨content, hfile⟩, hnone⟩ := h.gone l hl
      rw [hfile, hnone]
      exact .error .missing
    · rw [h.kept l hl]
      cases d.entry? l with
      | none => exact .error (.same _)
      | some e =>
        cases e with
        | file => exact .error (.same _)
        | directory =>
          cases c with
          | root => exact ih _
          | current => exact ih _
          | parent => exact ih _
          | normal name =>
            dsimp only
            split
            · exact .error (.same _)
            · exact ih _

theorem locate (h : Lacks lost d d') (p : Path) :
    Matched DiskError.Alike Eq (d.locate p) (d'.locate p) := by
  unfold Disk.locate
  split
  · exact .error (.same _)
  · split
    · exact .error (.same _)
    · split
      · exact .error (.same _)
      · rw [h.here]
        exact h.walk _ _

end Lacks

theorem walk_name_current {m : Location} {cs : List Component} (hcs : cs = [] ∨ cs = [.current])
    (h : d.walk m (.normal name :: cs) = .ok l) : l = m ++ [name] := by
  have hcut : Component.normal name :: cs = [.normal name] ++ cs := rfl
  rw [hcut, walk_append] at h
  cases hname : d.walk m [.normal name] with
  | error e =>
    rw [hname] at h
    cases h
  | ok last =>
    obtain ⟨-, -, rfl⟩ := walk_name.mp hname
    rw [hname] at h
    change d.walk (m ++ [name]) cs = .ok l at h
    rcases hcs with rfl | rfl
    · cases h
      rfl
    · simp only [walk] at h
      split at h
      · cases h
      · cases h
      · cases h
        rfl

/-- A path that ends in a name leads to a place of that name. -/
theorem locate_getLast? (h : p.components.getLast? = some (.normal name))
    (hl : d.locate p = .ok l) : l.getLast? = some name := by
  obtain ⟨front, hfront⟩ := List.getLast?_eq_some_iff.mp h
  have htail : (if endsInDot p then [Component.current] else []) = [] ∨
      (if endsInDot p then [Component.current] else []) = [.current] := by
    split
    · exact .inr rfl
    · exact .inl rfl
  unfold locate at hl
  split at hl
  · cases hl
  · split at hl
    · cases hl
    · split at hl
      · cases hl
      · rw [hfront, List.append_assoc, walk_append] at hl
        cases hw : d.walk d.here front with
        | error e =>
          rw [hw] at hl
          cases hl
        | ok m =>
          rw [hw] at hl
          rw [walk_name_current htail hl]
          simp

namespace Lacks

/-- A path that spares configuration files leads to the same ordinary place on both disks. -/
theorem located (h : Lacks lost d d') (hp : Spares p) :
    Matched DiskError.Alike (fun l l' => l = l' ∧ Ordinary l) (d.locate p) (d'.locate p) := by
  obtain ⟨name, hlast, hname⟩ := hp
  have hlocate := h.locate p
  cases hl : d.locate p with
  | error e =>
    rw [hl] at hlocate
    generalize d'.locate p = y at hlocate ⊢
    cases hlocate with
    | error he => exact .error he
  | ok l =>
    have hordinary : Ordinary l := ⟨name, locate_getLast? hlast hl, hname⟩
    rw [hl] at hlocate
    generalize d'.locate p = y at hlocate ⊢
    cases hlocate with
    | ok heq => exact .ok ⟨heq, hordinary⟩

-- ---------------------------------------------------------------------------
-- Requests
-- ---------------------------------------------------------------------------

theorem lookUp (h : Lacks lost d d') (hp : Spares p) :
    Matched DiskError.Alike Eq (d.lookUp p) (d'.lookUp p) := by
  refine (h.located hp).bind ?_
  rintro l _ ⟨rfl, hl⟩
  rw [h.entry? hl]
  rcases d.entry? l with _ | _ | content
  · exact .error (.same _)
  · exact .ok rfl
  · dsimp only
    split
    · exact .error (.same _)
    · exact .ok rfl

theorem readText (h : Lacks lost d d') (hp : Spares p) :
    Matched DiskError.Alike Eq (d.readText p) (d'.readText p) := by
  refine (h.lookUp hp).bind ?_
  rintro e _ rfl
  cases e with
  | directory => exact .error (.same _)
  | file content =>
    dsimp only
    cases String.fromUTF8? content with
    | none => exact .error (.same _)
    | some text => exact .ok rfl

theorem createDirectory (h : Lacks lost d d') (hp : Spares p) :
    Matched DiskError.Alike (Lacks lost) (d.createDirectory p) (d'.createDirectory p) := by
  refine (h.located hp).bind ?_
  rintro l _ ⟨rfl, hl⟩
  rw [h.entry? hl]
  cases d.entry? l with
  | none => exact .ok (h.put hl _)
  | some => exact .error (.same _)

theorem writeFile (h : Lacks lost d d') (hp : Spares p) (content : ByteArray) :
    Matched DiskError.Alike (Lacks lost) (d.writeFile p content) (d'.writeFile p content) := by
  refine (h.located hp).bind ?_
  rintro l _ ⟨rfl, hl⟩
  rw [h.entry? hl]
  rcases d.entry? l with _ | _ | _
  · dsimp only
    split
    · exact .error (.same _)
    · exact .ok (h.put hl _)
  · exact .error (.same _)
  · dsimp only
    split
    · exact .error (.same _)
    · exact .ok (h.put hl _)

theorem deleteFile (h : Lacks lost d d') (hp : Spares p) :
    Matched DiskError.Alike (Lacks lost) (d.deleteFile p) (d'.deleteFile p) := by
  refine (h.located hp).bind ?_
  rintro l _ ⟨rfl, hl⟩
  rw [h.entry? hl]
  rcases d.entry? l with _ | _ | _
  · exact .error (.same _)
  · exact .error (.same _)
  · dsimp only
    split
    · exact .error (.same _)
    · exact .ok (h.remove hl)

theorem moveFile (h : Lacks lost d d') (hp : Spares p) (hq : Spares q) :
    Matched DiskError.Alike (Lacks lost) (d.moveFile p q) (d'.moveFile p q) := by
  refine (h.lookUp hp).bind ?_
  rintro e _ rfl
  cases e with
  | directory => exact .error (.same _)
  | file content =>
    refine (h.located hp).bind ?_
    rintro origin _ ⟨rfl, horigin⟩
    refine (h.located hq).bind ?_
    rintro l _ ⟨rfl, hl⟩
    have hmoved := (h.remove horigin).put hl (.file content)
    rw [h.entry? hl]
    split
    · exact .error (.same _)
    · split
      · exact .error (.same _)
      · rcases d.entry? l with _ | _ | _
        · exact .ok hmoved
        · exact .error (.same _)
        · exact .ok hmoved

theorem isDirectory (h : Lacks lost d d') (p : Path) : d'.isDirectory p = d.isDirectory p := by
  have hlocate := h.locate p
  rw [Bool.eq_iff_iff, isDirectory_iff, isDirectory_iff]
  generalize d.locate p = x, d'.locate p = y at hlocate
  cases hlocate with
  | error => simp
  | ok heq => simp [heq, h.directory_iff]

theorem isFile (h : Lacks lost d d') (hp : Spares p) : d'.isFile p = d.isFile p := by
  have hlookUp := h.lookUp hp
  unfold Disk.isFile
  generalize d.lookUp p = x, d'.lookUp p = y at hlookUp
  cases hlookUp with
  | error => rfl
  | ok heq => rw [heq]

end Lacks

-- ---------------------------------------------------------------------------
-- Paths of a run
-- ---------------------------------------------------------------------------

theorem ne_config_of_ending (ending : String) (h : ending.toList <:+ name.toList)
    (hending : ¬ending.toList <:+ Config.fileName.toList) : name ≠ Config.fileName := by
  rintro rfl
  exact hending h

theorem spares_join (directory : Path) (k : Kind) (className : String) :
    Spares (directory.join (k.fileName className)) := by
  obtain ⟨front, hfront⟩ := Path.exists_components_join directory (k.fileName className)
  have hlast := Transaction.getLast?_added_fileName k className
  refine ⟨_, by rw [hfront, List.getLast?_append, hlast]; rfl, ?_⟩
  refine ne_config_of_ending ".java" ?_ (by decide)
  rw [Kind.fileName, String.toList_append]
  exact List.suffix_append _ _

theorem spares_site (base : Option Path) (e : Entity) (c : Context) (k : Kind) :
    Spares (Transaction.site base (.ofKind e c k)) := by
  refine ⟨_, Transaction.getLast?_components_site base e c k, ?_⟩
  refine ne_config_of_ending ".java" ?_ (by decide)
  rw [Kind.fileName, String.toList_append]
  exact List.suffix_append _ _

/-- The temporary place of a file ends in a name with the ending of temporary files. -/
theorem spares_temporary (hp : Spares p) : Spares (temporary p) := by
  obtain ⟨name, hlast, -⟩ := hp
  have hname : p.fileName? = some name := by rw [Path.fileName?, hlast]
  obtain ⟨front, hfront⟩ : ∃ front, (temporary p).spelling.toList = front ++ ".tmp".toList := by
    rw [temporary, Path.withExtension, hname]
    exact ⟨_, by rw [String.toList_append, String.toList_append, List.append_assoc]; rfl⟩
  obtain ⟨init, segment, hsegment, hcut⟩ : ∃ init segment, ".tmp".toList <:+ segment ∧
      Text.splitOn '/' (front ++ ".tmp".toList) = init ++ [segment] := by
    obtain ⟨init, last, -, hcut⟩ :=
      Text.splitOn_append_of_notMem (show '/' ∉ ".tmp".toList by decide) front
    exact ⟨init, _, List.suffix_append _ _, hcut⟩
  have hcomponent : Path.segmentComponent segment = some (.normal (String.ofList segment)) :=
    Path.segmentComponent_of_length (Nat.lt_of_lt_of_le (by decide) hsegment.length_le)
  refine ⟨String.ofList segment, ?_, ?_⟩
  · rw [Path.components, Path.componentsOf_eq, hfront, Path.added, hcut, List.filterMap_append,
      List.filterMap_cons_some hcomponent, ← List.append_assoc]
    exact List.getLast?_concat
  · refine ne_config_of_ending ".tmp" ?_ (by decide)
    have hlist : (String.ofList segment).toList = segment := String.toList_ofList
    rw [hlist]
    exact hsegment

/-- Files with the ending of configuration files are in no language. -/
theorem spares_of_language {language : Language} (h : Language.ofPath? p = some language) :
    Spares p := by
  have hconfig : ((some Config.fileName).bind fun name =>
      (Path.cutName name.toList).2.map String.ofList).bind Language.ofExtension? = none := by
    decide +kernel
  unfold Language.ofPath? Path.extension? Path.fileName? at h
  split at h
  · next name hlast =>
    refine ⟨name, hlast, ?_⟩
    rintro rfl
    rw [hconfig] at h
    cases h
  · cases h

namespace Lacks

theorem replaceFile (h : Lacks lost d d') (hp : Spares p) (text : String) :
    Twins (Lacks lost) Failure.Alike (fun _ _ => True) (d.replaceFile p text)
      (d'.replaceFile p text) := by
  have ht := spares_temporary hp
  have hwrite := h.writeFile ht text.toUTF8
  unfold Disk.replaceFile
  generalize d.writeFile (temporary p) text.toUTF8 = x, d'.writeFile (temporary p) text.toUTF8 = y
    at hwrite
  cases hwrite with
  | error he => exact ⟨.error (.notWritten _ he), h⟩
  | @ok written written' hwritten =>
    have hmove := hwritten.moveFile ht hp
    dsimp only
    generalize written.moveFile (temporary p) p = x, written'.moveFile (temporary p) p = y at hmove
    cases hmove with
    | ok hmoved => exact ⟨.ok trivial, hmoved⟩
    | error he =>
      refine ⟨.error (.notWritten _ he), ?_⟩
      have hdelete := hwritten.deleteFile ht
      dsimp only
      generalize written.deleteFile (temporary p) = x, written'.deleteFile (temporary p) = y
        at hdelete
      cases hdelete with
      | ok hdeleted => exact hdeleted
      | error => exact hwritten

end Lacks

/-- A disk and one that lacks configuration files simulate each other. -/
def lacking (lost : Location → Prop) : Simulation Disk Disk where
  tree := Lacks lost
  directory := Eq
  file p q := p = q ∧ Spares p
  failure := Failure.Alike
  named name := Path.IsName name ∧ name ≠ Config.fileName
  places k name hname := ⟨k.isName_place name hname, by
    rintro rfl
    revert hname
    cases k <;> decide⟩
  find {s t p q name} ht hp _ := by
    subst hp
    simp only [findSubdirectory, ht.isDirectory]
    split
    · exact .some rfl
    · exact .none
  create {s t p q name} ht hp hname := by
    subst hp
    have hspares : Spares (p.join name) :=
      ⟨name, by rw [hname.1.components_join, List.getLast?_concat], hname.2⟩
    have hcreate := ht.createDirectory hspares
    simp only [createSubdirectory]
    generalize s.createDirectory (p.join name) = x, t.createDirectory (p.join name) = y at hcreate
    cases hcreate with
    | ok hmade => exact ⟨.ok rfl, hmade⟩
    | error he => exact ⟨.error (.directoryNotCreated _ he), ht⟩
  here {s t p q} ht hp := by
    obtain ⟨rfl, hspares⟩ := hp
    exact (ht.isFile hspares).symm
  insert {s t p q k name content} ht hp := by
    subst hp
    have hspares := spares_join p k name
    have hreplace := ht.replaceFile hspares content
    simp only [insertTextFile]
    generalize p.join (k.fileName name) = path at hspares hreplace ⊢
    generalize s.replaceFile path content = done, t.replaceFile path content = done' at hreplace ⊢
    exact ⟨hreplace.result.map fun _ _ _ => ⟨rfl, hspares⟩, hreplace.tree⟩
  remove {s t p q} ht hp := by
    obtain ⟨rfl, hspares⟩ := hp
    have hdelete := ht.deleteFile hspares
    simp only [removeFile]
    generalize s.deleteFile p = x, t.deleteFile p = y at hdelete
    cases hdelete with
    | ok hdeleted => exact ⟨.ok trivial, hdeleted⟩
    | error he => exact ⟨.error (.notWritten _ he), ht⟩
  site {base base'} e c k hb := by
    have heq : base = base' := by
      cases hb with
      | none => rfl
      | some h => rw [h]
    exact ⟨by rw [heq], spares_site base e c k⟩
  refused {ps qs} h := by
    have heq : ps = qs := List.forall₂_eq_eq_eq ▸ h.imp fun _ _ => And.left
    rw [heq]
    exact .same _
  failed rolledBack h := .commitFailed rolledBack h

end Disk

end Scaffold
