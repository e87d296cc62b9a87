import Scaffold.Proofs.ConfigFiles
import Scaffold.Proofs.LackingDisks

/-!
# Flags in place of a configuration file

What the configuration file of the working directory sets can be set by flags
as well: without the file, and with the flags added that it stands for, a run
ends in the same way and leaves the same files. Roots and policy among the
flags win over those of the file; the switches of both count.
-/

namespace Scaffold

open Scaffold.Path Disk

theorem Config.isName_fileName : IsName Config.fileName :=
  ⟨by decide, by decide⟩

namespace CommandLine

variable {lost : Location → Prop} {left right : Disk} {i : Invocation} {c : Config} {place : Path}

/-- The options with those added that a configuration sets: roots and policy where there are none,
and each switch that one of the two sets. -/
def Options.over (o : Options) (c : Config) : Options :=
  { o with
    roots := if o.roots = [] then c.sourceRoots else o.roots
    policy := o.policy.or c.onCollision
    strictTypes := o.strictTypes || c.strictTypes.getD false
    dryRun := o.dryRun || c.dryRun.getD false }

def Invocation.over (i : Invocation) (c : Config) : Invocation :=
  { i with options := i.options.over c }

/-- The same failure for reasons that are alike. -/
inductive CommandError.Alike : CommandError → CommandError → Prop
  | failure {f f'} : Failure.Alike f f' → Alike (.failure f) (.failure f')

-- ---------------------------------------------------------------------------
-- Settings
-- ---------------------------------------------------------------------------

/-- Roots of a file in the working directory have the components of roots on the command line. -/
theorem components_configured {here : Path} (hhere : here.spelling ≠ "")
    (hplace : place.components = (here.join Config.fileName).components) (c : Config) :
    (c.inDirectoryOf place).sourceRoots.map components =
      (c.sourceRoots.map here.absolute).map components := by
  rw [Config.isName_fileName.components_join] at hplace
  obtain ⟨directory, hparent, hdirectory⟩ := parent_of_components hplace (by nofun)
  have hne : directory.spelling ≠ "" := by
    rw [ne_eq, ← components_eq_nil, hdirectory, components_eq_nil]
    exact hhere
  simp only [Config.inDirectoryOf, hparent, List.map_map]
  refine List.map_congr_left fun root _ => ?_
  simp only [Function.comp_apply, components_absolute hhere]
  cases hroot : root.isAbsolute with
  | true => simp
  | false => simp [joinPath, components_join hne hroot, hdirectory]

theorem workingDirectory_ne_empty (disk : Disk) : (workingDirectory disk).spelling ≠ "" := by
  simp [workingDirectory]

theorem settingsFor_over (hhere : right.here = left.here)
    (hplace : place.components = ((workingDirectory left).join Config.fileName).components)
    (i : Invocation) (c : Config) :
    (settingsFor left i (c.inDirectoryOf place)).Respells (settingsFor right (i.over c) {}) where
  roots := by
    refine respells_given ?_
    have hdirectory : workingDirectory right = workingDirectory left := by
      rw [workingDirectory, workingDirectory, hhere]
    have hroots := components_configured (workingDirectory_ne_empty left) hplace c
    simp only [Invocation.over, Options.over, hdirectory]
    by_cases hgiven : i.options.roots = []
    · simp only [hgiven, ↓reduceIte]
      by_cases hnone : c.sourceRoots = []
      · simpa [hnone, SourceRoots.Respells] using hroots
      · simpa [hnone, SourceRoots.Respells] using hroots
    · simp only [hgiven, ↓reduceIte]
      rfl
  policy := by
    simp [settingsFor, Invocation.over, Options.over, (inDirectoryOf_settings c place).1]
  strictTypes := by
    simp [settingsFor, Invocation.over, Options.over, (inDirectoryOf_settings c place).2.1]
  dryRun := by
    simp [settingsFor, Invocation.over, Options.over, (inDirectoryOf_settings c place).2.2]

-- ---------------------------------------------------------------------------
-- Runs
-- ---------------------------------------------------------------------------

theorem open_lacks (h : Lacks lost left right) (path : Path) :
    Matched Failure.Alike Eq (SourceFile.open? (readSource left) path)
      (SourceFile.open? (readSource right) path) := by
  unfold SourceFile.open?
  cases hlanguage : Language.ofPath? path with
  | none => exact .error (.same _)
  | some language =>
    have hread := h.readText (spares_of_language hlanguage)
    simp only [readSource]
    generalize left.readText path = x, right.readText path = y at hread
    cases hread with
    | error he => exact .error (.unreadable _ he)
    | ok heq =>
      subst heq
      exact .ok rfl

theorem opened_over (h : Lacks lost left right) {settings settings' : Config}
    (hleft : configFor left i (selectedFile left i) = .ok settings)
    (hright : configFor right (i.over c) (selectedFile right (i.over c)) = .ok settings')
    (hsettings : (settingsFor left i settings).Respells (settingsFor right (i.over c) settings')) :
    Matched CommandError.Alike Rerooted (opened left i) (opened right (i.over c)) := by
  have hfile : selectedFile right (i.over c) = selectedFile left i := by
    simp [selectedFile, workingDirectory, h.here, Invocation.over]
  rw [opened, opened, hleft, hright, hfile]
  cases selectedFile left i with
  | none => exact .error (.failure (.same _))
  | some path =>
    have hopen := open_lacks h path
    dsimp only
    generalize SourceFile.open? (readSource left) path = x,
      SourceFile.open? (readSource right) path = y at hopen
    cases hopen with
    | error hf => exact .error (.failure hf)
    | ok heq =>
      subst heq
      exact .ok ⟨hsettings, rfl⟩

theorem report_eq {r r' : Report} (h : (lacking lost).Report r r') : r = r' := by
  have hbase : r.baseDirectory = r'.baseDirectory := by
    have hrel := h.baseDirectory
    generalize r.baseDirectory = base, r'.baseDirectory = base' at hrel
    cases hrel with
    | none => rfl
    | some heq => exact congrArg some heq
  have houtcomes : r.outcomes = r'.outcomes := by
    refine List.forall₂_eq_eq_eq ▸ h.outcomes.imp fun o o' ho => ?_
    cases o
    cases o'
    rw [Outcome.mk.injEq]
    exact ⟨ho.kind.symm, ho.path.1, ho.status.symm⟩
  cases r
  cases r'
  rw [Report.mk.injEq]
  exact ⟨h.entity.symm, h.basePackage.symm, hbase, h.dryRun.symm, houtcomes⟩

theorem generate_over (h : Lacks lost left right)
    (hopened : Matched CommandError.Alike Rerooted (opened left i) (opened right (i.over c))) :
    Matched CommandError.Alike Eq (generate left i).1 (generate right (i.over c)).1 ∧
      Lacks lost (generate left i).2 (generate right (i.over c)).2 := by
  rw [generate_eq, generate_eq]
  generalize opened left i = x, opened right (i.over c) = y at hopened
  cases hopened with
  | error he => exact ⟨.error he, h⟩
  | @ok c c' hcall =>
    obtain ⟨hsettings, hsource⟩ := hcall
    obtain ⟨settings, source⟩ := c
    obtain ⟨settings', source'⟩ := c'
    obtain rfl : source' = source := hsource
    have hcontext : Context.ofFile source'.path (Scaffolder.rootsFor settings' source'.path) =
        Context.ofFile source'.path (Scaffolder.rootsFor settings source'.path) :=
      context_respelled hsettings source'
    have hasks : (lacking lost).Asks settings settings' source'.path source'.path := by
      refine ⟨hsettings.policy, hsettings.strictTypes, hsettings.dryRun, ?_, ?_⟩
      · rw [hcontext]
      · rw [hcontext]
        cases (Context.ofFile _ _).baseDirectory with
        | none => exact .none
        | some => exact .some rfl
    have hentity : Matched Failure.Alike Eq (source'.resolve settings.strictTypes)
        (source'.resolve settings.strictTypes) := by
      cases source'.resolve settings.strictTypes with
      | error f => exact .error (.same f)
      | ok e => exact .ok rfl
    obtain ⟨hresult, htree⟩ :=
      (lacking lost).generate .idle .idle h hasks hentity
    refine ⟨?_, htree⟩
    dsimp only [Scaffolder.call]
    generalize (Scaffolder.generate ⟨left, settings, .idle⟩ source').1 = x,
      (Scaffolder.generate ⟨right, settings', .idle⟩ source').1 = y at hresult ⊢
    cases hresult with
    | error hf => exact .error (.failure hf)
    | ok hreport => exact .ok (report_eq hreport)

/-- What is seen of two runs of `generate` that end alike. -/
theorem invoke_over (hcommand : i.command = .generate)
    (hresult : Matched CommandError.Alike Eq (generate left i).1 (generate right (i.over c)).1)
    (hdisk : Lacks lost (generate left i).2 (generate right (i.over c)).2) :
    (invoke left i).exitCode = (invoke right (i.over c)).exitCode ∧
      (invoke left i).stdout = (invoke right (i.over c)).stdout ∧
      (invoke left i).report = (invoke right (i.over c)).report ∧
      Lacks lost (invoke left i).disk (invoke right (i.over c)).disk := by
  have hcommand' : (i.over c).command = .generate := hcommand
  have hjson : (i.over c).options.json = i.options.json := rfl
  simp only [invoke, hcommand, hcommand', hjson]
  generalize generate left i = done, generate right (i.over c) = done' at hresult hdisk ⊢
  obtain ⟨result, left'⟩ := done
  obtain ⟨result', right'⟩ := done'
  cases hresult with
  | ok heq =>
    subst heq
    exact ⟨rfl, rfl, rfl, hdisk⟩
  | error he =>
    cases he
    exact ⟨rfl, rfl, rfl, hdisk⟩

/-- A run on a disk whose working directory holds the configuration that is found ends in the same
way, with the same output and the same files, as a run without it under the flags that say what it
sets. -/
theorem flags_replace_config (file : String) (o : Options) {text : String}
    (hlacks : Lacks lost left right)
    (hvalue : isOption file = false) (hne : file ≠ "") (hconfig : o.config = none)
    (hroots : ∀ root ∈ (o.over c).roots, root.spelling ≠ "")
    (hfind : Config.find? left (searchStart left ⟨.generate, o, some ⟨file⟩⟩) = some place)
    (hplace : place.components = ((workingDirectory left).join Config.fileName).components)
    (hread : left.readText place = .ok text)
    (hwritten : (Config.read? text).bind Config.ofEntries? = some c)
    (hnone : Config.find? right (searchStart right ⟨.generate, o, some ⟨file⟩⟩) = none) :
    let i : Invocation := ⟨.generate, o, some ⟨file⟩⟩
    let configured := run left ("generate" :: file :: o.arguments)
    let flagged := run right ("generate" :: file :: (o.over c).arguments)
    configured.exitCode = flagged.exitCode ∧ configured.stdout = flagged.stdout ∧
      configured.report = flagged.report ∧ Lacks lost configured.disk flagged.disk ∧
      Matched CommandError.Alike Eq (generate left i).1 (generate right (i.over c)).1 := by
  intro i configured flagged
  have hown : ∀ root ∈ o.roots, root.spelling ≠ "" := by
    intro root hroot
    refine hroots root ?_
    rwa [Options.over, if_neg (List.ne_nil_of_mem hroot)]
  have hconfigured : configured = invoke left i := by
    simp only [configured, run, parse_arguments hvalue hne hconfig hown, i]
  have hflagged : flagged = invoke right (i.over c) := by
    simp only [flagged, run, parse_arguments (o := o.over c) hvalue hne hconfig hroots]
    rfl
  have hleft : configFor left i (selectedFile left i) = .ok (c.inDirectoryOf place) := by
    rw [configFor_found hconfig hfind, Config.load_ok.mpr ⟨text, c, hread, hwritten, rfl⟩]
    rfl
  have hright : configFor right (i.over c) (selectedFile right (i.over c)) = .ok {} :=
    configFor_missing hconfig hnone
  have hopened := opened_over hlacks hleft hright (settingsFor_over hlacks.here hplace i c)
  obtain ⟨hresult, hdisk⟩ := generate_over hlacks hopened
  rw [hconfigured, hflagged]
  obtain ⟨hcode, hstdout, hreport, hlast⟩ := invoke_over rfl hresult hdisk
  exact ⟨hcode, hstdout, hreport, hlast, hresult⟩

/-- A relative and an absolute root, a policy and two switches, in the file and as flags. -/
theorem flags_replace_config_order :
    let text := "source-roots = ['src', '/lib']\non-collision = 'skip'\nstrict-types = true\n" ++
      "dry-run = true\n"
    let left : Disk :=
      { entries := [(["p"], .directory), (["p", "src"], .directory),
          (["p", "src", "app"], .directory), (["p", "src", "app", "domain"], .directory),
          (["p", "src", "app", "domain", "Order.java"], .file "class Order \x7b\x7d".toUTF8),
          (["p", "rest-scaffold.toml"], .file text.toUTF8)]
        here := ["p"] }
    let right := left.remove ["p", "rest-scaffold.toml"]
    let file := "src/app/domain/Order.java"
    let configured := run left ["generate", file]
    let flagged := run right ["generate", file, "--source-root", "src", "--source-root", "/lib",
      "--on-collision", "skip", "--strict-types", "--dry-run"]
    configured.exitCode = flagged.exitCode ∧ configured.stdout = flagged.stdout ∧
      Lacks (· = ["p", "rest-scaffold.toml"]) configured.disk flagged.disk := by
  intro text left right file configured flagged
  have hlacks : Lacks (· = ["p", "rest-scaffold.toml"]) left right :=
    lacks_remove rfl (show left.entry? _ = some (.file text.toUTF8) from rfl)
  have hwritten : (Config.read? text).bind Config.ofEntries? =
      some ⟨[⟨"src"⟩, ⟨"/lib"⟩], some .skip, some true, some true⟩ := by decide +kernel
  have hread : left.readText ⟨"/p/rest-scaffold.toml"⟩ = .ok text := by decide +kernel
  obtain ⟨hcode, hstdout, -, hdisk, -⟩ := flags_replace_config file {} hlacks (by decide +kernel)
    (by decide +kernel) rfl (by decide +kernel) (by decide +kernel) (by decide +kernel) hread
    hwritten (by decide +kernel)
  exact ⟨hcode, hstdout, hdisk⟩

/-- In an argument of its own a root that starts with a dash is read as an option: the run is a
usage error and leaves the disk as it is, whatever stands behind. -/
theorem run_dashed_root {file : String} {o : Options} {root : Path} (disk : Disk)
    (hvalue : isOption file = false) (hne : file ≠ "") (hconfig : o.config = none)
    (hroots : ∀ root ∈ o.roots, root.spelling ≠ "") (hdash : isOption root.spelling = true)
    (behind : List String) :
    let done := run disk
      ("generate" :: file :: (o.arguments ++ "--source-root" :: root.spelling :: behind))
    done.exitCode = 2 ∧ done.disk = disk := by
  simp only [run, parse_dashed_root hvalue hne hconfig hroots hdash behind, and_self]

/-- The flag is refused where the file is not. -/
theorem dashed_root_needs_equals :
    let text := "source-roots = ['-x']\non-collision = 'skip'\nstrict-types = false\n" ++
      "dry-run = true\n"
    let left : Disk :=
      { entries := [(["p"], .directory), (["p", "src"], .directory),
          (["p", "src", "app"], .directory), (["p", "src", "app", "domain"], .directory),
          (["p", "src", "app", "domain", "Order.java"], .file "class Order \x7b\x7d".toUTF8),
          (["p", "rest-scaffold.toml"], .file text.toUTF8)]
        here := ["p"] }
    let right := left.remove ["p", "rest-scaffold.toml"]
    let file := "src/app/domain/Order.java"
    (run left ["generate", file]).exitCode = 0 ∧
      (run right ["generate", file, "--source-root", "-x", "--on-collision", "skip",
        "--dry-run"]).exitCode = 2 := by
  intro text left right file
  refine ⟨by decide +kernel, ?_⟩
  have hroots : ∀ root ∈ ({} : Options).roots, root.spelling ≠ "" := fun _ h => by cases h
  exact (@run_dashed_root file {} ⟨"-x"⟩ right (by decide) (by decide) rfl hroots (by decide)
    ["--on-collision", "skip", "--dry-run"]).1

end CommandLine

end Scaffold
