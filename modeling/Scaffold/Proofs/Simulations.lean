import Mathlib.Data.List.Forall2
import Scaffold.Proofs.DiskWrites
import Scaffold.Proofs.Results
import Scaffold.Scaffolder

/-!
# Trees that answer alike

Two project trees simulate each other when every request that a run makes is
answered alike on both: with related paths, or with related failures, and
always leaving related trees. What a run is made of, the walk down, the plan,
the commit and its roll back, then goes alike on both trees, and so does the
run.
-/

namespace Scaffold

open ProjectTree Transaction

/-- Two changes with matching results that leave related trees. -/
structure Twins {σ τ α β : Type} (tree : σ → τ → Prop) (failure : Failure → Failure → Prop)
    (value : α → β → Prop) (done : Except Failure α × σ) (done' : Except Failure β × τ) :
    Prop where
  result : Matched failure value done.1 done'.1
  tree : tree done.2 done'.2

/-- Relations under which the requests that a run makes of two trees are answered alike. The
directories it asks for are named as those of the kinds, and the files are their artifacts. -/
structure Simulation (σ τ : Type) [ProjectTree σ] [ProjectTree τ] where
  tree : σ → τ → Prop
  directory : Path → Path → Prop
  file : Path → Path → Prop
  failure : Failure → Failure → Prop
  named : String → Prop
  places (k : Kind) : ∀ name ∈ k.place, named name
  find {s : σ} {t : τ} {p q : Path} {name : String} : tree s t → directory p q → named name →
    Option.Rel directory (findSubdirectory s p name) (findSubdirectory t q name)
  create {s : σ} {t : τ} {p q : Path} {name : String} : tree s t → directory p q → named name →
    Twins tree failure directory (createSubdirectory s p name) (createSubdirectory t q name)
  here {s : σ} {t : τ} {p q : Path} : tree s t → file p q → fileExists s p = fileExists t q
  insert {s : σ} {t : τ} {p q : Path} {k : Kind} {name content : String} : tree s t →
    directory p q → Twins tree failure file (insertTextFile s p (k.fileName name) content)
      (insertTextFile t q (k.fileName name) content)
  remove {s : σ} {t : τ} {p q : Path} : tree s t → file p q →
    Twins tree failure (fun _ _ => True) (removeFile s p) (removeFile t q)
  site {base base' : Option Path} (e : Entity) (c : Context) (k : Kind) :
    Option.Rel directory base base' →
      file (site base (.ofKind e c k)) (site base' (.ofKind e c k))
  refused {ps qs : List Path} : List.Forall₂ file ps qs →
    failure (.artifactsExist ps) (.artifactsExist qs)
  failed {cause cause' : Failure} (rolledBack : Nat) : failure cause cause' →
    failure (.commitFailed rolledBack cause) (.commitFailed rolledBack cause')

namespace Simulation

variable {σ τ : Type} [ProjectTree σ] [ProjectTree τ] (S : Simulation σ τ)

/-- The same write, to related files. -/
structure Write (w w' : PlannedWrite) : Prop where
  artifact : w'.artifact = w.artifact
  made : ∃ e c k, w.artifact = .ofKind e c k
  path : S.file w.path w'.path
  decision : w'.decision = w.decision

/-- The same kind and status, with related files. -/
structure Outcome (o o' : Scaffold.Outcome) : Prop where
  kind : o'.kind = o.kind
  path : S.file o.path o'.path
  status : o'.status = o.status

structure Report (r r' : Scaffold.Report) : Prop where
  entity : r'.entity = r.entity
  basePackage : r'.basePackage = r.basePackage
  baseDirectory : Option.Rel S.directory r.baseDirectory r'.baseDirectory
  dryRun : r'.dryRun = r.dryRun
  outcomes : List.Forall₂ S.Outcome r.outcomes r'.outcomes

variable {s : σ} {t : τ} {p q : Path} {base base' : Option Path} {ps qs : List Path}
  {w w' : PlannedWrite} {ws ws' : List PlannedWrite} {e : Entity} {c : Context} {k : Kind}

-- ---------------------------------------------------------------------------
-- Writes
-- ---------------------------------------------------------------------------

theorem descend {names : List String} (ht : S.tree s t) (hp : S.directory p q)
    (hnames : ∀ name ∈ names, S.named name) :
    Twins S.tree S.failure S.directory (descend s p names) (descend t q names) := by
  induction names generalizing s t p q with
  | nil => exact ⟨.ok hp, ht⟩
  | cons name names ih =>
    obtain ⟨hname, hnames⟩ := List.forall_mem_cons.mp hnames
    have hfind := S.find ht hp hname
    simp only [ProjectTree.descend]
    generalize findSubdirectory s p name = found, findSubdirectory t q name = found' at hfind
    cases hfind with
    | some hfound => exact ih ht hfound hnames
    | none =>
      have hcreate := S.create ht hp hname
      generalize createSubdirectory s p name = done, createSubdirectory t q name = done'
        at hcreate ⊢
      rcases done, done', hcreate with ⟨⟨made, s'⟩, ⟨made', t'⟩, hresult, htree⟩
      cases hresult with
      | ok hmade => exact ih htree hmade hnames
      | error hfailure => exact ⟨.error hfailure, htree⟩

theorem write (ht : S.tree s t) (hp : S.directory p q) :
    Twins S.tree S.failure S.file (write s p (.ofKind e c k)) (write t q (.ofKind e c k)) := by
  have hdescend := S.descend ht hp (S.places k)
  simp only [Transaction.write, ensureSubdirectories, segments_ofKind]
  generalize ProjectTree.descend s p k.place = done, ProjectTree.descend t q k.place = done'
    at hdescend ⊢
  rcases done, done', hdescend with ⟨⟨directory, s'⟩, ⟨directory', t'⟩, hresult, htree⟩
  cases hresult with
  | ok hdirectory => exact S.insert htree hdirectory
  | error hfailure => exact ⟨.error hfailure, htree⟩

theorem rollBack (ht : S.tree s t) (hp : List.Forall₂ S.file ps qs) :
    (rollBack t qs).1 = (rollBack s ps).1 ∧ S.tree (rollBack s ps).2 (rollBack t qs).2 := by
  induction hp generalizing s t with
  | nil => exact ⟨rfl, ht⟩
  | @cons p q ps qs hp _ ih =>
    have hremove := S.remove ht hp
    simp only [Transaction.rollBack]
    generalize removeFile s p = done, removeFile t q = done' at hremove ⊢
    rcases done, done', hremove with ⟨⟨removed, s'⟩, ⟨removed', t'⟩, hresult, htree⟩
    cases hresult with
    | ok =>
      obtain ⟨hcount, hrest⟩ := ih htree
      exact ⟨congrArg (· + 1) hcount, hrest⟩
    | error => exact ih htree

theorem outcome (hw : S.Write w w') (status : Status) :
    S.Outcome (PlannedWrite.outcome w status) (PlannedWrite.outcome w' status) :=
  ⟨congrArg Artifact.kind hw.artifact, hw.path, rfl⟩

theorem commitWrites (ht : S.tree s t) (hp : S.directory p q) (hc : List.Forall₂ S.file ps qs)
    (hws : List.Forall₂ S.Write ws ws') :
    Twins S.tree S.failure (List.Forall₂ S.Outcome) (commitWrites s p ps ws)
      (commitWrites t q qs ws') := by
  induction hws generalizing s t ps qs with
  | nil => exact ⟨.ok .nil, ht⟩
  | @cons w w' ws ws' hw _ ih =>
    simp only [Transaction.commitWrites, hw.decision]
    by_cases hskip : w.decision = .skip
    · rw [if_pos hskip, if_pos hskip]
      obtain ⟨hrest, htree⟩ := ih ht hc
      exact ⟨hrest.map fun _ _ => .cons (S.outcome hw .skipped), htree⟩
    · rw [if_neg hskip, if_neg hskip]
      obtain ⟨e, c, k, hmade⟩ := hw.made
      have hwrite := S.write (e := e) (c := c) (k := k) ht hp
      rw [hw.artifact, hmade]
      generalize Transaction.write s p (.ofKind e c k) = done,
        Transaction.write t q (.ofKind e c k) = done' at hwrite ⊢
      rcases done, done', hwrite with ⟨⟨written, s'⟩, ⟨written', t'⟩, hresult, htree⟩
      cases hresult with
      | error hfailure =>
        obtain ⟨hcount, hrest⟩ := S.rollBack htree hc
        simp only [hcount]
        exact ⟨.error (S.failed _ hfailure), hrest⟩
      | @ok path path' hpath =>
        have hcreated : List.Forall₂ S.file (if w.decision = .create then path :: ps else ps)
            (if w.decision = .create then path' :: qs else qs) := by
          split
          · exact .cons hpath hc
          · exact hc
        obtain ⟨hrest, htree⟩ := ih htree hcreated
        exact ⟨hrest.map fun _ _ => .cons ⟨rfl, hpath, rfl⟩, htree⟩

-- ---------------------------------------------------------------------------
-- Plans and commits
-- ---------------------------------------------------------------------------

theorem planWrite (ht : S.tree s t) (hb : Option.Rel S.directory base base')
    (policy : CollisionPolicy) (e : Entity) (c : Context) (k : Kind) :
    S.Write (planWrite s base policy (.ofKind e c k))
      (planWrite t base' policy (.ofKind e c k)) := by
  have hsite := S.site e c k hb
  refine ⟨by rw [planWrite_artifact, planWrite_artifact], ⟨e, c, k, planWrite_artifact⟩, ?_, ?_⟩
  · rwa [planWrite_path, planWrite_path]
  · cases hb with
    | none => rfl
    | some => exact congrArg (decisionFor policy) (S.here ht hsite).symm

theorem collisions (h : List.Forall₂ S.Write ws ws') :
    List.Forall₂ S.file (collisions ws) (collisions ws') := by
  induction h with
  | nil => exact .nil
  | @cons w w' ws ws' hw _ ih =>
    by_cases hover : w.decision = .overwrite
    · rw [Transaction.collisions, Transaction.collisions, List.filter_cons_of_pos (by simpa),
        List.filter_cons_of_pos (by simpa [hw.decision])]
      exact .cons hw.path ih
    · rw [Transaction.collisions, Transaction.collisions, List.filter_cons_of_neg (by simpa),
        List.filter_cons_of_neg (by simpa [hw.decision])]
      exact ih

theorem plan (ht : S.tree s t) (hb : Option.Rel S.directory base base')
    (policy : CollisionPolicy) (e : Entity) (c : Context) :
    Matched S.failure
      (fun tx tx' => Option.Rel S.directory tx.baseDirectory tx'.baseDirectory ∧
        List.Forall₂ S.Write tx.writes tx'.writes)
      (plan s base (Artifact.generateAll e c) policy)
      (plan t base' (Artifact.generateAll e c) policy) := by
  have hws : List.Forall₂ S.Write
      ((Artifact.generateAll e c).map (Transaction.planWrite s base policy))
      ((Artifact.generateAll e c).map (Transaction.planWrite t base' policy)) := by
    rw [Artifact.generateAll, List.map_map, List.map_map, List.forall₂_map_left_iff,
      List.forall₂_map_right_iff, List.forall₂_same]
    exact fun k _ => S.planWrite ht hb policy e c k
  have hcollisions := S.collisions hws
  simp only [Transaction.plan]
  generalize (Artifact.generateAll e c).map (Transaction.planWrite s base policy) = ws,
    (Artifact.generateAll e c).map (Transaction.planWrite t base' policy) = ws' at hws hcollisions
  have hempty : Transaction.collisions ws' ≠ [] ↔ Transaction.collisions ws ≠ [] := by
    rw [← List.length_pos_iff, ← List.length_pos_iff, hcollisions.length_eq]
  simp only [hempty]
  split
  · exact .error (S.refused hcollisions)
  · exact .ok ⟨hb, hws⟩

theorem preview (h : List.Forall₂ S.Write ws ws') :
    List.Forall₂ S.Outcome (preview ⟨base, ws⟩) (preview ⟨base', ws'⟩) := by
  simp only [Transaction.preview, List.forall₂_map_left_iff, List.forall₂_map_right_iff]
  exact h.imp fun w w' hw => by
    rw [hw.decision]
    exact S.outcome hw _

theorem commit (ht : S.tree s t) (hb : Option.Rel S.directory base base')
    (hws : List.Forall₂ S.Write ws ws') :
    Twins S.tree S.failure (List.Forall₂ S.Outcome) (commit ⟨base, ws⟩ s)
      (commit ⟨base', ws'⟩ t) := by
  cases hb with
  | some hp => exact S.commitWrites ht hp .nil hws
  | none =>
    refine ⟨.ok ?_, ht⟩
    rw [List.forall₂_map_left_iff, List.forall₂_map_right_iff]
    exact hws.imp fun w w' hw => S.outcome hw .skipped

-- ---------------------------------------------------------------------------
-- Runs
-- ---------------------------------------------------------------------------

/-- Settings that ask for the same of two files, with the same package and related directories. -/
structure Asks (settings settings' : Settings) (file file' : Path) : Prop where
  policy : settings'.policy = settings.policy
  strictTypes : settings'.strictTypes = settings.strictTypes
  dryRun : settings'.dryRun = settings.dryRun
  basePackage : (Context.ofFile file' (Scaffolder.rootsFor settings' file')).basePackage =
    (Context.ofFile file (Scaffolder.rootsFor settings file)).basePackage
  baseDirectory : Option.Rel S.directory
    (Context.ofFile file (Scaffolder.rootsFor settings file)).baseDirectory
    (Context.ofFile file' (Scaffolder.rootsFor settings' file')).baseDirectory

/-- The artifacts know of the context no more than its package. -/
theorem generateAll_congr {c c' : Context} (h : c'.basePackage = c.basePackage) (e : Entity) :
    Artifact.generateAll e c' = Artifact.generateAll e c := by
  rcases c with ⟨package, directory⟩
  rcases c' with ⟨package', directory'⟩
  obtain rfl : package' = package := h
  rfl

variable {settings settings' : Settings} {file file' : Path} (phase phase' : Phase)

theorem place (ht : S.tree s t) (h : S.Asks settings settings' file file') (e : Entity) :
    Twins S.tree S.failure S.Report (Scaffolder.place ⟨s, settings, phase⟩ file e)
      (Scaffolder.place ⟨t, settings', phase'⟩ file' e) := by
  simp only [Scaffolder.place, h.policy, h.dryRun, generateAll_congr h.basePackage, h.basePackage]
  have hb := h.baseDirectory
  generalize (Context.ofFile file (Scaffolder.rootsFor settings file)).baseDirectory = base,
    (Context.ofFile file' (Scaffolder.rootsFor settings' file')).baseDirectory = base' at hb ⊢
  generalize Context.ofFile file (Scaffolder.rootsFor settings file) = c
  have hplan := S.plan ht hb settings.policy e c
  generalize Transaction.plan s base (Artifact.generateAll e c) settings.policy = plan,
    Transaction.plan t base' (Artifact.generateAll e c) settings.policy = plan' at hplan
  cases hplan with
  | error hfailure => exact ⟨.error hfailure, ht⟩
  | @ok tx tx' hplanned =>
    obtain ⟨hstart, hws⟩ := hplanned
    cases settings.dryRun with
    | true => exact ⟨.ok ⟨rfl, rfl, hb, rfl, S.preview hws⟩, ht⟩
    | false =>
      obtain ⟨hresult, htree⟩ := S.commit ht hstart hws
      exact ⟨hresult.map fun _ _ hos => ⟨rfl, rfl, hb, rfl, hos⟩, htree⟩

/-- A run from sources that resolve alike goes alike on both trees. -/
theorem generate {source source' : SourceFile} (ht : S.tree s t)
    (h : S.Asks settings settings' source.path source'.path)
    (hentity : Matched S.failure Eq (source.resolve settings.strictTypes)
      (source'.resolve settings.strictTypes)) :
    Matched S.failure S.Report (Scaffolder.generate ⟨s, settings, phase⟩ source).1
        (Scaffolder.generate ⟨t, settings', phase'⟩ source').1 ∧
      S.tree (Scaffolder.generate ⟨s, settings, phase⟩ source).2.tree
        (Scaffolder.generate ⟨t, settings', phase'⟩ source').2.tree := by
  simp only [Scaffolder.generate, h.strictTypes]
  generalize source.resolve settings.strictTypes = entity,
    source'.resolve settings.strictTypes = entity' at hentity
  cases hentity with
  | error hfailure => exact ⟨.error hfailure, ht⟩
  | @ok e e' heq =>
    subst heq
    obtain ⟨hresult, htree⟩ := S.place .generating .generating ht h e
    exact ⟨hresult, htree⟩

end Simulation

end Scaffold
