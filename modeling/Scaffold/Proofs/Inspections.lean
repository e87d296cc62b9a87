import Scaffold.CommandLine
import Scaffold.Proofs.Arguments
import Scaffold.Proofs.DryRuns
import Scaffold.Proofs.Placements
import Scaffold.Proofs.Reruns
import Scaffold.Proofs.Simulations

/-!
# Inspections show what a dry run plans

`inspect` and the dry run of `generate` read the same files in their own ways.
Given the same arguments they fail alike; where nothing stands in the way of
the dry run, what the inspection shows of the class and of its artifacts is
what the dry run plans and reports.
-/

namespace Scaffold.CommandLine

open Transaction

variable {disk : Disk} {c : Call} {e : Entity}

-- ---------------------------------------------------------------------------
-- What both commands read
-- ---------------------------------------------------------------------------

/-- The selected source with the settings to read it under, or why there is none. -/
def opened (disk : Disk) (i : Invocation) : Except CommandError Call :=
  match configFor disk i (selectedFile disk i) with
  | .error e => .error e
  | .ok config =>
    match selectedFile disk i with
    | none => .error (.failure .noFileSelected)
    | some path =>
      match SourceFile.open? (readSource disk) path with
      | .error failure => .error (.failure failure)
      | .ok source => .ok ⟨settingsFor disk i config, source⟩

theorem generate_eq (disk : Disk) (i : Invocation) :
    generate disk i =
      match opened disk i with
      | .error e => (.error e, disk)
      | .ok c =>
        let done := Scaffolder.call { tree := disk } c
        (done.1.mapError .failure, done.2.tree) := by
  rw [generate, opened]
  cases configFor disk i (selectedFile disk i) with
  | error e => rfl
  | ok config =>
    cases selectedFile disk i with
    | none => rfl
    | some path =>
      simp only [Scaffolder.run]
      cases SourceFile.open? (readSource disk) path <;> rfl

/-- What an inspection shows under the settings of a call. -/
def inspection (c : Call) (e : Entity) : Inspection where
  entity := e
  basePackage := c.context.basePackage
  baseDirectory := c.context.baseDirectory
  artifacts := Kind.all.map fun k => ⟨k, c.context.packageOf k, k.fileName e.name⟩

theorem path_of_open {read : Path → Except String String} {path : Path} {source : SourceFile}
    (h : SourceFile.open? read path = .ok source) : source.path = path := by
  unfold SourceFile.open? at h
  split at h
  · cases h
  · split at h <;> cases h
    rfl

theorem inspect_eq (disk : Disk) (i : Invocation) :
    inspect disk i =
      match opened disk i with
      | .error e => .error e
      | .ok c => (c.entity?.mapError .failure).map (inspection c) := by
  simp only [inspect, opened, bind, Except.bind]
  cases configFor disk i (selectedFile disk i) with
  | error e => rfl
  | ok config =>
    cases selectedFile disk i with
    | none => rfl
    | some path =>
      cases hopen : SourceFile.open? (readSource disk) path with
      | error failure => simp only [hopen, Except.mapError]
      | ok source =>
        obtain rfl := path_of_open hopen
        simp only [hopen, Except.mapError, Call.entity?]
        cases source.resolve (settingsFor disk i config).strictTypes <;> rfl

/-- The dry run reads the same source, and under settings that differ in its own flags alone. -/
theorem opened_preview (disk : Disk) (i : Invocation) (policy : Option CollisionPolicy) :
    Matched Eq (fun c c' => ∃ config, configFor disk i (selectedFile disk i) = .ok config ∧
        c' = (c.withDry true).withPolicy (settingsFor disk (i.previewing policy) config).policy)
      (opened disk i) (opened disk (i.previewing policy)) := by
  have hfile : selectedFile disk (i.previewing policy) = selectedFile disk i := rfl
  have hconfig : configFor disk (i.previewing policy) (selectedFile disk i) =
      configFor disk i (selectedFile disk i) := rfl
  rw [opened, opened, hfile, hconfig]
  cases configFor disk i (selectedFile disk i) with
  | error e => exact .error rfl
  | ok config =>
    cases selectedFile disk i with
    | none => exact .error rfl
    | some path =>
      dsimp only
      cases SourceFile.open? (readSource disk) path with
      | error failure => exact .error rfl
      | ok source => exact .ok ⟨config, rfl, rfl⟩

-- ---------------------------------------------------------------------------
-- Collisions
-- ---------------------------------------------------------------------------

/-- The run is refused because files stand where artifacts go. -/
def Collides (disk : Disk) (i : Invocation) : Prop :=
  ∃ paths, (generate disk i).1 = .error (.failure (.artifactsExist paths))

-- ---------------------------------------------------------------------------
-- What is shown and what is planned
-- ---------------------------------------------------------------------------

/-- What an inspection shows of an artifact. -/
def Planned.ofArtifact (a : Artifact) : Planned := ⟨a.kind, a.package, a.fileName⟩

/-- The inspection shows the class, the package and the directory of the report, and in order the
artifacts that were planned for the report, each of which goes to the place of its kind. -/
structure Shows (disk : Disk) (policy : CollisionPolicy) (shown : Inspection) (report : Report) :
    Prop where
  entity : shown.entity = report.entity
  basePackage : shown.basePackage = report.basePackage
  baseDirectory : shown.baseDirectory = report.baseDirectory
  kinds : shown.artifacts.map Planned.kind = Kind.all
  planned : ∃ tx, plan disk report.baseDirectory
      (Artifact.generateAll report.entity ⟨report.basePackage, report.baseDirectory⟩) policy =
        .ok tx ∧
    shown.artifacts = tx.writes.map (fun w => Planned.ofArtifact w.artifact) ∧
    report.outcomes = tx.preview
  placed : List.Forall₂
    (fun p o => o.kind = p.kind ∧
      (Path.join ⟨p.kind.relativePath⟩ p.fileName).components <:+ o.path.components)
    shown.artifacts report.outcomes

variable {policy : CollisionPolicy} {tx : Transaction}

theorem suffix_directory (base : Option Path) (k : Kind) :
    (Path.mk k.relativePath).components <:+ (directory base k).components := by
  cases base with
  | none => exact List.suffix_refl _
  | some dir =>
    change _ <:+ (dir.join k.relativePath).components
    by_cases hdir : dir.spelling = ""
    · simp [Path.join_of_empty hdir]
    · have hlead : Path.leadComponents k.relativePath.toList = [] := by cases k <;> rfl
      rw [Path.components_join hdir k.isAbsolute_relativePath, Path.components,
        Path.componentsOf_eq, hlead]
      exact List.suffix_append _ _

/-- What goes straight into a directory of its own goes to the place of its kind. -/
theorem suffix_site {base : Option Path} {k : Kind} {context : Context}
    (h : (Path.mk (k.fileName e.name)).isAbsolute = false) :
    (Path.join ⟨k.relativePath⟩ (k.fileName e.name)).components <:+
      (site base (.ofKind e context k)).components := by
  have hrelative : (Path.mk k.relativePath).spelling ≠ "" := directory_ne_empty none k
  rw [components_site_added k h, Path.components_join hrelative h]
  obtain ⟨front, hfront⟩ := suffix_directory base k
  exact ⟨front, by rw [← hfront, List.append_assoc]⟩

theorem shows_preview (he : c.entity? = .ok e) (hp : c.plan disk e = .ok tx) :
    Shows disk c.settings.policy (inspection c e) (c.report e tx.preview) where
  entity := rfl
  basePackage := rfl
  baseDirectory := rfl
  kinds := by
    rw [inspection, List.map_map]
    exact List.map_id _
  planned := by
    refine ⟨tx, hp, ?_, rfl⟩
    obtain ⟨rfl, -⟩ := plan_ok hp
    simp only [inspection, Artifact.generateAll, List.map_map, Function.comp_def,
      planWrite_artifact]
    rfl
  placed := by
    obtain ⟨rfl, -⟩ := plan_ok hp
    have hnamed := SourceFile.named_of_resolve he
    simp only [inspection, Call.report, preview, Artifact.generateAll, List.map_map,
      List.forall₂_map_left_iff, List.forall₂_map_right_iff, List.forall₂_same]
    intro k _
    simp only [PlannedWrite.outcome, planWrite_artifact, planWrite_path, Function.comp_apply]
    exact ⟨rfl, suffix_site (isAbsolute_fileName k hnamed)⟩

-- ---------------------------------------------------------------------------
-- Agreement
-- ---------------------------------------------------------------------------

/-- What `inspect` ends with beside what the dry run ends with. -/
inductive Concurs (disk : Disk) (i : Invocation) (policy : Option CollisionPolicy) :
    Except CommandError Inspection → Except CommandError Report → Prop
  | failed (e : CommandError) : Concurs disk i policy (.error e) (.error e)
  | shown {config shown report} : configFor disk i (selectedFile disk i) = .ok config →
      Shows disk (settingsFor disk (i.previewing policy) config).policy shown report →
      Concurs disk i policy (.ok shown) (.ok report)

variable {i : Invocation}

theorem inspect_concurs {policy : Option CollisionPolicy}
    (hfree : ¬Collides disk (i.previewing policy)) :
    Concurs disk i policy (inspect disk i) (generate disk (i.previewing policy)).1 ∧
      (generate disk (i.previewing policy)).2 = disk := by
  have hopened := opened_preview disk i policy
  rw [Collides, generate_eq] at hfree
  rw [inspect_eq, generate_eq]
  generalize opened disk i = x, opened disk (i.previewing policy) = y at hopened hfree ⊢
  cases hopened with
  | error heq =>
    subst heq
    exact ⟨.failed _, rfl⟩
  | @ok c c' hsame =>
    obtain ⟨config, hconfig, hc'⟩ := hsame
    have hentity : c'.entity? = c.entity? := by rw [hc']; rfl
    have hinspection : inspection c' = inspection c := by rw [hc']; rfl
    have hpolicy := congrArg (fun c : Call => c.settings.policy) hc'
    have hdry := congrArg (fun c : Call => c.settings.dryRun) hc'
    have hends := Scaffolder.call_ends { tree := disk } c'
    simp only at hfree ⊢
    generalize Scaffolder.call { tree := disk } c' = done at hfree hends ⊢
    obtain ⟨result, after⟩ := done
    rw [← hentity, ← hinspection]
    cases hends with
    | unresolved he =>
      rw [he]
      exact ⟨.failed _, rfl⟩
    | refused he hp =>
      obtain ⟨_, paths, -, -, rfl, -⟩ := plan_error hp
      exact absurd ⟨paths, rfl⟩ hfree
    | dry he hp =>
      rw [he]
      exact ⟨.shown hconfig (hpolicy ▸ shows_preview he hp), rfl⟩
    | committed _ _ hwet => cases hdry.symm.trans hwet

/-- With the same arguments, and with a policy under which nothing collides, `inspect` and the dry
run of `generate` fail with the same error and print nothing, or `inspect` shows what the dry run
plans. Neither changes the disk. -/
theorem inspect_agrees_with_dry_run (disk : Disk) {arguments : List String} {i : Invocation}
    (policy : Option CollisionPolicy) (hparse : parse ("inspect" :: arguments) = .ok i)
    (hfree : ¬Collides disk (i.previewing policy)) :
    let shown := run disk ("inspect" :: arguments)
    let dry := run disk ("generate" :: "--dry-run" :: (policyArguments policy ++ arguments))
    shown.disk = disk ∧ dry.disk = disk ∧
      ((∃ e, inspect disk i = .error e ∧ (generate disk (i.previewing policy)).1 = .error e ∧
          shown = dry ∧ shown.exitCode = 1 ∧ shown.stdout = "") ∨
        ∃ config inspection report, configFor disk i (selectedFile disk i) = .ok config ∧
          inspect disk i = .ok inspection ∧
          (generate disk (i.previewing policy)).1 = .ok report ∧
          Shows disk (settingsFor disk (i.previewing policy) config).policy inspection report ∧
          shown = { stdout := inspectionText i.options.json inspection, disk := disk } ∧
          dry = { stdout := reportText i.options.json report, disk := disk }) := by
  intro shown dry
  obtain ⟨hcommand, hpreview⟩ := parse_preview hparse policy
  have hshown : shown = invoke disk i := by
    simp only [shown, run, hparse]
  have hdry : dry = invoke disk (i.previewing policy) := by
    simp only [dry, run, hpreview]
  obtain ⟨hconcurs, hdisk⟩ := inspect_concurs hfree
  simp only [invoke, hcommand] at hshown
  simp only [invoke, show (i.previewing policy).command = .generate from rfl] at hdry
  generalize generate disk (i.previewing policy) = done at hconcurs hdisk hdry ⊢
  obtain ⟨result, after⟩ := done
  obtain rfl : after = disk := hdisk
  generalize inspect after i = inspected at hconcurs hshown ⊢
  cases hconcurs with
  | failed e =>
    rw [hshown, hdry]
    refine ⟨?_, ?_, .inl ⟨e, rfl, rfl, rfl, ?_, ?_⟩⟩ <;> cases e <;> rfl
  | shown hconfig hshows =>
    rw [hshown, hdry]
    exact ⟨rfl, rfl, .inr ⟨_, _, _, hconfig, rfl, rfl, hshows, rfl, rfl⟩⟩

theorem open_ne_artifactsExist {read : Path → Except String String} {path : Path}
    {paths : List Path} : SourceFile.open? read path ≠ .error (.artifactsExist paths) := by
  unfold SourceFile.open?
  cases Language.ofPath? path with
  | none => simp
  | some language =>
    dsimp only
    cases read path <;> simp

/-- Files that stand in the way are found by planning alone. -/
theorem opened_ne_artifactsExist (disk : Disk) (i : Invocation) (paths : List Path) :
    opened disk i ≠ .error (.failure (.artifactsExist paths)) := by
  intro h
  unfold opened at h
  cases hconfig : configFor disk i (selectedFile disk i) with
  | error e =>
    rw [hconfig] at h
    cases h
    simp only [configFor] at hconfig
    generalize Config.discover disk _ _ = found at hconfig
    cases found <;> cases hconfig
  | ok config =>
    rw [hconfig] at h
    cases hfile : selectedFile disk i with
    | none =>
      rw [hfile] at h
      cases h
    | some path =>
      simp only [hfile] at h
      cases hopen : SourceFile.open? (readSource disk) path with
      | error failure =>
        rw [hopen] at h
        cases h
        exact open_ne_artifactsExist hopen
      | ok source =>
        rw [hopen] at h
        cases h

/-- A dry run that may skip or overwrite is never refused. -/
theorem not_collides_of_policy (disk : Disk) (i : Invocation) {p : CollisionPolicy}
    (hp : p ≠ .error) : ¬Collides disk (i.previewing (some p)) := by
  rintro ⟨paths, hpaths⟩
  have hopened := opened_preview disk i (some p)
  have hother := opened_ne_artifactsExist disk (i.previewing (some p)) paths
  rw [generate_eq] at hpaths
  generalize opened disk i = x, opened disk (i.previewing (some p)) = y at *
  cases hopened with
  | error =>
    cases hpaths
    exact hother rfl
  | @ok c c' hsame =>
    obtain ⟨config, -, hc'⟩ := hsame
    have hpolicy : c'.settings.policy = p := congrArg (fun c : Call => c.settings.policy) hc'
    have hdry : c'.settings.dryRun = true := congrArg (fun c : Call => c.settings.dryRun) hc'
    have hends := Scaffolder.call_ends { tree := disk } c'
    simp only at hpaths
    generalize Scaffolder.call { tree := disk } c' = done at hpaths hends
    obtain ⟨result, after⟩ := done
    cases hends with
    | unresolved he =>
      cases hpaths
      exact Call.entity?_ne_artifactsExist he
    | refused he hplan =>
      obtain ⟨_, _, -, herror, -⟩ := plan_error hplan
      exact hp (hpolicy.symm.trans herror)
    | dry => cases hpaths
    | committed _ _ hwet => cases hdry.symm.trans hwet

/-- An inspection of a class in a source root, beside the dry run that may skip. -/
theorem inspect_agrees_with_dry_run_order :
    let disk : Disk :=
      { entries := [(["p"], .directory), (["p", "src"], .directory),
          (["p", "src", "app"], .directory), (["p", "src", "app", "domain"], .directory),
          (["p", "src", "app", "domain", "Order.java"],
            .file "class Order { Long id; }".toUTF8)]
        here := ["p"] }
    let i : Invocation := ⟨.inspect, { strictTypes := true }, some ⟨"src/app/domain/Order.java"⟩⟩
    let arguments := ["src/app/domain/Order.java", "--strict-types"]
    let shown := run disk ("inspect" :: arguments)
    let dry := run disk ("generate" :: "--dry-run" :: "--on-collision" :: "skip" :: arguments)
    parse ("inspect" :: arguments) = .ok i ∧ ¬Collides disk (i.previewing (some .skip)) ∧
      shown.exitCode = 0 ∧ dry.exitCode = 0 ∧
      ∃ inspection report, inspect disk i = .ok inspection ∧
        (generate disk (i.previewing (some .skip))).1 = .ok report ∧
        Shows disk .skip inspection report := by
  intro disk i arguments shown dry
  have hparse : parse ("inspect" :: arguments) = .ok i := rfl
  have hfree := not_collides_of_policy disk i (p := .skip) (by decide)
  obtain ⟨-, -, ⟨e, -, -, -, hcode, -⟩ | ⟨config, inspection, report, -, hi, hr, hshows, hs, hd⟩⟩ :=
    inspect_agrees_with_dry_run disk (some .skip) hparse hfree
  · have hzero : shown.exitCode = 0 := by decide +kernel
    cases hcode.symm.trans hzero
  · exact ⟨hparse, hfree, congrArg Result.exitCode hs, congrArg Result.exitCode hd, inspection,
      report, hi, hr, hshows⟩

end Scaffold.CommandLine
