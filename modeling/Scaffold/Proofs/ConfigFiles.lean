import Scaffold.Proofs.AbsolutePaths
import Scaffold.Proofs.DiskLaws
import Scaffold.Proofs.Inspections

/-!
# Configuration files and how they are named

The source roots of a configuration stand in the directory of its file as that
file is spelled on the command line, and are compared as they are spelled. So
a configuration that is named explicitly gives what it gives when it is found
if it is named by the components it is found under, or if its roots are
absolute. Under another name its roots still lead to the same directories,
without enclosing the selected file.
-/

namespace Scaffold

open Scaffold.Path

namespace Config

variable {disk : Disk} {place p here : Path} {c config : Config}

-- ---------------------------------------------------------------------------
-- Loading
-- ---------------------------------------------------------------------------

theorem readText_congr (h : disk.locate p = disk.locate place)
    (hp : Disk.endsInSlash p = Disk.endsInSlash place) :
    disk.readText p = disk.readText place := by
  simp only [Disk.readText, Disk.lookUp, h, hp]

theorem load_ok :
    load disk p = .ok config ↔ ∃ text written, disk.readText p = .ok text ∧
      (read? text).bind ofEntries? = some written ∧ config = written.inDirectoryOf p := by
  unfold load
  cases disk.readText p with
  | error e => simp
  | ok text =>
    dsimp only
    cases h : (read? text).bind ofEntries? with
    | none => simp [h]
    | some written => simp [h, eq_comm]

theorem endsInSlash_of_find {directory : Path} (h : find? disk directory = some place) :
    Disk.endsInSlash place = false := by
  obtain ⟨_, _, -, -, hslash⟩ := Disk.isFile_iff.mp (List.find?_some h)
  exact hslash

theorem discover_none {directory : Path} :
    discover disk none directory =
      (find? disk directory).elim (.ok {}) (load disk) := by
  unfold discover
  cases find? disk directory <;> rfl

theorem discover_found {directory : Path} (h : find? disk directory = some place) :
    discover disk none directory = load disk place := by
  rw [discover_none, h, Option.elim]

theorem discover_missing {directory : Path} (h : find? disk directory = none) :
    discover disk none directory = .ok {} := by
  rw [discover_none, h, Option.elim]

-- ---------------------------------------------------------------------------
-- Roots
-- ---------------------------------------------------------------------------

theorem inDirectoryOf_respelled (c : Config) (h : p.Respells place) :
    (⟨(c.inDirectoryOf p).sourceRoots⟩ : SourceRoots).Respells
      ⟨(c.inDirectoryOf place).sourceRoots⟩ := by
  have hparent := h.parent?
  unfold inDirectoryOf
  generalize p.parent? = parent, place.parent? = parent' at hparent
  cases hparent with
  | none => rfl
  | @some directory directory' hdirectory =>
    simp only [SourceRoots.Respells, List.map_map]
    refine List.map_congr_left fun root _ => ?_
    simp only [Function.comp_apply]
    split
    · rfl
    · exact hdirectory.join _

theorem inDirectoryOf_absolute (h : ∀ root ∈ c.sourceRoots, root.isAbsolute = true) (p : Path) :
    (c.inDirectoryOf p).sourceRoots = c.sourceRoots := by
  unfold inDirectoryOf
  cases p.parent? with
  | none => rfl
  | some directory =>
    exact (List.map_congr_left fun root hroot => if_pos (h root hroot)).trans (List.map_id _)

/-- The roots resolve alike if the directories do, whose spelling does not count then. -/
theorem inDirectoryOf_resolved {directory above : Path} (hhere : here.isAbsolute = true)
    (hp : p.parent? = some directory) (hplace : place.parent? = some above)
    (h : (here.absolute directory).components = above.components) (c : Config) :
    (c.inDirectoryOf p).sourceRoots.map (fun root => (here.absolute root).components) =
      (c.inDirectoryOf place).sourceRoots.map (fun root => (here.absolute root).components) := by
  have hne : here.spelling ≠ "" := by
    rintro hempty
    simp [isAbsolute, hempty] at hhere
  have habove : (here.absolute above).components = above.components := by
    have hroot : above.isAbsolute = true := by
      rw [isAbsolute_iff] at hhere ⊢
      rw [← h, components_absolute hne]
      split
      · next hdirectory => exact isAbsolute_iff.mp hdirectory
      · exact List.mem_append_left _ hhere
    rw [components_absolute hne, if_pos hroot]
  simp only [inDirectoryOf, hp, hplace, List.map_map]
  refine List.map_congr_left fun root _ => ?_
  simp only [Function.comp_apply]
  split
  · rfl
  · next hroot =>
    rw [Bool.not_eq_true] at hroot
    rw [components_absolute_join hne hroot, components_absolute_join hne hroot, h, habove]

end Config

namespace CommandLine

variable {disk : Disk} {i : Invocation} {place p : Path} {config config' : Config}

/-- The same invocation with the configuration file named. -/
def Invocation.withConfig (i : Invocation) (p : Path) : Invocation :=
  { i with options := { i.options with config := some p } }

/-- Where the search for a configuration file starts. -/
def searchStart (disk : Disk) (i : Invocation) : Path :=
  ((selectedFile disk i).bind Path.parent?).getD (workingDirectory disk)

theorem isAbsolute_workingDirectory (disk : Disk) : (workingDirectory disk).isAbsolute = true := by
  simp [workingDirectory, isAbsolute]

/-- Whether roots are given at all does not depend on their spelling. -/
theorem respells_given {roots roots' : List Path}
    (h : (⟨roots⟩ : SourceRoots).Respells ⟨roots'⟩) :
    Option.Rel SourceRoots.Respells (if roots = [] then none else some ⟨roots⟩)
      (if roots' = [] then none else some ⟨roots'⟩) := by
  have hempty : roots' = [] ↔ roots = [] := by
    rw [← List.map_eq_nil_iff (f := components), ← h, List.map_eq_nil_iff]
  simp only [hempty]
  split
  · exact .none
  · exact .some h

theorem settingsFor_respelled (disk : Disk) (i : Invocation)
    (hroots : i.options.roots = [] →
      (⟨config.sourceRoots⟩ : SourceRoots).Respells ⟨config'.sourceRoots⟩)
    (hpolicy : config'.onCollision = config.onCollision)
    (hstrict : config'.strictTypes = config.strictTypes) (hdry : config'.dryRun = config.dryRun) :
    (settingsFor disk i config).Respells (settingsFor disk i config') where
  roots := by
    refine respells_given ?_
    split
    · next hgiven => exact hroots hgiven
    · rfl
  policy := by rw [settingsFor, settingsFor, hpolicy]
  strictTypes := by rw [settingsFor, settingsFor, hstrict]
  dryRun := by rw [settingsFor, settingsFor, hdry]

theorem inDirectoryOf_settings (c : Config) (p : Path) :
    (c.inDirectoryOf p).onCollision = c.onCollision ∧
      (c.inDirectoryOf p).strictTypes = c.strictTypes ∧ (c.inDirectoryOf p).dryRun = c.dryRun := by
  unfold Config.inDirectoryOf
  cases p.parent? <;> exact ⟨rfl, rfl, rfl⟩

-- ---------------------------------------------------------------------------
-- Calls under other spellings of the roots
-- ---------------------------------------------------------------------------

/-- The same source, under settings whose roots are perhaps spelled otherwise. -/
structure Rerooted (c c' : Call) : Prop where
  settings : c.settings.Respells c'.settings
  source : c'.source = c.source

variable {settings settings' : Settings}

/-- Roots spelled otherwise give the same context. -/
theorem context_respelled (h : settings.Respells settings') (source : SourceFile) :
    (Call.mk settings' source).context = (Call.mk settings source).context :=
  (Context.ofFile_congr (h.rootsFor (.refl source.path))).symm

theorem call_respelled (disk : Disk) (h : settings.Respells settings') (source : SourceFile) :
    (Scaffolder.call { tree := disk } ⟨settings', source⟩).1 =
        (Scaffolder.call { tree := disk } ⟨settings, source⟩).1 ∧
      (Scaffolder.call { tree := disk } ⟨settings', source⟩).2.tree =
        (Scaffolder.call { tree := disk } ⟨settings, source⟩).2.tree := by
  have hcontext := context_respelled h source
  simp only [Call.context] at hcontext
  simp only [Scaffolder.call, Scaffolder.generate, Scaffolder.place, h.strictTypes, h.policy,
    h.dryRun, hcontext]
  cases source.resolve settings.strictTypes <;> exact ⟨rfl, rfl⟩

theorem inspection_respelled (h : settings.Respells settings') (source : SourceFile) :
    inspection (Call.mk settings' source) = inspection (Call.mk settings source) := by
  funext e
  rw [inspection, inspection, context_respelled h source]

/-- An invocation depends on what is configured up to the spelling of the roots. -/
theorem invoke_congr {i' : Invocation} (hcommand : i'.command = i.command)
    (hjson : i'.options.json = i.options.json)
    (hopened : Matched Eq Rerooted (opened disk i) (opened disk i')) :
    invoke disk i' = invoke disk i := by
  have hgenerate : generate disk i' = generate disk i := by
    rw [generate_eq, generate_eq]
    generalize opened disk i = x, opened disk i' = y at hopened
    cases hopened with
    | error h => rw [h]
    | @ok c c' h =>
      obtain ⟨settings, source⟩ := c
      obtain ⟨settings', source'⟩ := c'
      obtain ⟨hsettings, rfl⟩ := h
      obtain ⟨hresult, htree⟩ := call_respelled disk hsettings source'
      simp only [hresult, htree]
  have hinspect : inspect disk i' = inspect disk i := by
    rw [inspect_eq, inspect_eq]
    generalize opened disk i = x, opened disk i' = y at hopened
    cases hopened with
    | error h => rw [h]
    | @ok c c' h =>
      obtain ⟨settings, source⟩ := c
      obtain ⟨settings', source'⟩ := c'
      obtain ⟨hsettings, rfl⟩ := h
      have hstrict : settings'.strictTypes = settings.strictTypes := hsettings.strictTypes
      simp only [inspection_respelled hsettings, Call.entity?, hstrict]
  rw [invoke, invoke, hcommand, hjson, hgenerate, hinspect]

-- ---------------------------------------------------------------------------
-- Named configurations
-- ---------------------------------------------------------------------------

theorem configFor_found (hnone : i.options.config = none)
    (hfind : Config.find? disk (searchStart disk i) = some place) :
    configFor disk i (selectedFile disk i) = (Config.load disk place).mapError .config := by
  change (Config.discover disk i.options.config (searchStart disk i)).mapError _ = _
  rw [hnone, Config.discover_found hfind]

theorem configFor_missing (hnone : i.options.config = none)
    (hfind : Config.find? disk (searchStart disk i) = none) :
    configFor disk i (selectedFile disk i) = .ok {} := by
  change (Config.discover disk i.options.config (searchStart disk i)).mapError _ = _
  rw [hnone, Config.discover_missing hfind]
  rfl

theorem opened_withConfig (hfound : configFor disk i (selectedFile disk i) = .ok config)
    (hload : Config.load disk p = .ok config')
    (hsettings : (settingsFor disk i config).Respells (settingsFor disk i config')) :
    Matched Eq Rerooted (opened disk i) (opened disk (i.withConfig p)) := by
  have hfile : selectedFile disk (i.withConfig p) = selectedFile disk i := rfl
  have hconfig : configFor disk (i.withConfig p) (selectedFile disk i) = .ok config' := by
    change (Config.load disk p).mapError _ = _
    rw [hload]
    rfl
  rw [opened, opened, hfile, hfound, hconfig]
  cases selectedFile disk i with
  | none => exact .error rfl
  | some path =>
    dsimp only
    cases SourceFile.open? (readSource disk) path with
    | error failure => exact .error rfl
    | ok source => exact .ok ⟨hsettings, rfl⟩

/-- A configuration that is found is read the same when it is named by another path to it. Its
roots resolve alike if the directory of the path does; named by the same components, or with
absolute roots, it makes no difference to any run, nor does it where roots are given as options. -/
theorem config_named (disk : Disk) (i : Invocation) (hnone : i.options.config = none)
    (hfind : Config.find? disk (searchStart disk i) = some place)
    (hload : Config.load disk place = .ok config) (hlocate : disk.locate p = disk.locate place)
    (hslash : Disk.endsInSlash p = false) :
    ∃ written config' : Config, Config.load disk p = .ok config' ∧
      config = written.inDirectoryOf place ∧ config' = written.inDirectoryOf p ∧
      config'.onCollision = config.onCollision ∧
      config'.strictTypes = config.strictTypes ∧ config'.dryRun = config.dryRun ∧
      (∀ directory above, p.parent? = some directory → place.parent? = some above →
        ((workingDirectory disk).absolute directory).components = above.components →
        config'.sourceRoots.map (fun r => ((workingDirectory disk).absolute r).components) =
          config.sourceRoots.map (fun r => ((workingDirectory disk).absolute r).components)) ∧
      ((p.components = place.components ∨ ∀ root ∈ written.sourceRoots, root.isAbsolute = true) →
        config'.sourceRoots.map components = config.sourceRoots.map components) ∧
      ((p.components = place.components ∨ (∀ root ∈ written.sourceRoots, root.isAbsolute = true) ∨
        i.options.roots ≠ []) → invoke disk (i.withConfig p) = invoke disk i) := by
  obtain ⟨text, written, htext, hwritten, rfl⟩ := Config.load_ok.mp hload
  have hload' : Config.load disk p = .ok (written.inDirectoryOf p) := by
    refine Config.load_ok.mpr ⟨text, written, ?_, hwritten, rfl⟩
    rw [← htext]
    exact Config.readText_congr hlocate (hslash.trans (Config.endsInSlash_of_find hfind).symm)
  obtain ⟨hpolicy, hstrict, hdry⟩ := inDirectoryOf_settings written place
  obtain ⟨hpolicy', hstrict', hdry'⟩ := inDirectoryOf_settings written p
  have hroots (h : p.components = place.components ∨
      ∀ root ∈ written.sourceRoots, root.isAbsolute = true) :
      (⟨(written.inDirectoryOf place).sourceRoots⟩ : SourceRoots).Respells
        ⟨(written.inDirectoryOf p).sourceRoots⟩ := by
    rcases h with h | h
    · exact Config.inDirectoryOf_respelled written h.symm
    · rw [Config.inDirectoryOf_absolute h, Config.inDirectoryOf_absolute h]
  refine ⟨written, _, hload', rfl, rfl, hpolicy'.trans hpolicy.symm, hstrict'.trans hstrict.symm,
    hdry'.trans hdry.symm, ?_, fun h => (hroots h).symm, fun h => ?_⟩
  · intro directory above hp hplace h
    exact Config.inDirectoryOf_resolved (isAbsolute_workingDirectory disk) hp hplace h written
  · have hfound := configFor_found hnone hfind
    rw [hload] at hfound
    have hgiven (hempty : i.options.roots = []) := hroots <| h.imp_right fun h =>
      h.resolve_right fun hne => hne hempty
    exact invoke_congr rfl rfl (opened_withConfig hfound hload' (settingsFor_respelled disk i hgiven
      (hpolicy'.trans hpolicy.symm) (hstrict'.trans hstrict.symm) (hdry'.trans hdry.symm)))

/-- A second slash in the path of the configuration file changes nothing. -/
theorem config_named_slashes :
    let disk : Disk :=
      { entries := [(["p"], .directory), (["p", "src"], .directory),
          (["p", "src", "app"], .directory), (["p", "src", "app", "domain"], .directory),
          (["p", "src", "app", "domain", "Order.java"], .file "class Order \x7b\x7d".toUTF8),
          (["p", "rest-scaffold.toml"], .file "source-roots = ['src']\n".toUTF8)]
        here := ["p"] }
    let i : Invocation := ⟨.generate, {}, some ⟨"src/app/domain/Order.java"⟩⟩
    let config : Config := { sourceRoots := [⟨"/p/src"⟩] }
    Config.find? disk (searchStart disk i) = some ⟨"/p/rest-scaffold.toml"⟩ ∧
      Config.load disk ⟨"/p/rest-scaffold.toml"⟩ = .ok config ∧
      (∃ config', Config.load disk ⟨"/p//rest-scaffold.toml"⟩ = .ok config' ∧
        config'.sourceRoots.map components = config.sourceRoots.map components) ∧
      invoke disk (i.withConfig ⟨"/p//rest-scaffold.toml"⟩) = invoke disk i := by
  intro disk i config
  have hfind : Config.find? disk (searchStart disk i) = some ⟨"/p/rest-scaffold.toml"⟩ := by
    decide +kernel
  have hload : Config.load disk ⟨"/p/rest-scaffold.toml"⟩ = .ok config := by decide +kernel
  obtain ⟨_, config', hload', -, -, -, -, -, -, hroots, hsame⟩ :=
    config_named disk i (p := ⟨"/p//rest-scaffold.toml"⟩) rfl hfind hload
      (by decide +kernel) (by decide +kernel)
  have hcomponents : (⟨"/p//rest-scaffold.toml"⟩ : Path).components =
      (⟨"/p/rest-scaffold.toml"⟩ : Path).components := by decide +kernel
  exact ⟨hfind, hload, ⟨config', hload', hroots (.inl hcomponents)⟩, hsame (.inl hcomponents)⟩

/-- Named by a relative path the configuration has roots that do not enclose the selected file,
which is an absolute path, although they lead to the same directory. -/
theorem config_named_relatively :
    let disk : Disk :=
      { entries := [(["p"], .directory), (["p", "src"], .directory),
          (["p", "src", "app"], .directory), (["p", "src", "app", "domain"], .directory),
          (["p", "src", "app", "domain", "Order.java"], .file "class Order \x7b\x7d".toUTF8),
          (["p", "rest-scaffold.toml"], .file "source-roots = ['src']\n".toUTF8)]
        here := ["p"] }
    let i : Invocation := ⟨.inspect, {}, some ⟨"src/app/domain/Order.java"⟩⟩
    let p : Path := ⟨"rest-scaffold.toml"⟩
    Config.find? disk (searchStart disk i) = some ⟨"/p/rest-scaffold.toml"⟩ ∧
      (disk.locate p).toOption = (disk.locate ⟨"/p/rest-scaffold.toml"⟩).toOption ∧
      (inspect disk i).toOption.map Inspection.basePackage = some "app" ∧
      (inspect disk (i.withConfig p)).toOption.map Inspection.basePackage = some "" := by
  decide +kernel

end CommandLine

end Scaffold
