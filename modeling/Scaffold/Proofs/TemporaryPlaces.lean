import Scaffold.Proofs.Packages

/-!
# The files of one entity are apart

Each artifact ends its path in a name that tells its kind, whatever stands in
the name of the entity. An extension is replaced in this last name alone, so
the temporary places are told apart from each other and from the files in the
same way. A commit reaches each file directory by directory and reports a
path with the components of the planned one.
-/

namespace Scaffold

/-- What stands behind a later dot does not decide how a text begins. -/
theorem Path.leadComponents_ending {as : List Char} (h : as ≠ []) (ending ending' : List Char) :
    leadComponents (as ++ '.' :: ending) = leadComponents (as ++ '.' :: ending') := by
  match as with
  | [a] => by_cases ha : a = '/' <;> by_cases hb : a = '.' <;> simp_all [leadComponents]
  | a :: b :: as =>
    by_cases ha : a = '/' <;> by_cases hb : a = '.' <;> by_cases hc : b = '/' <;>
      simp_all [leadComponents]

namespace Kind

variable {k l : Kind} {p : Path} {name m : String}

theorem toList_typeName (k : Kind) (name : String) :
    (k.typeName name).toList = name.toList ++ k.ending.toList := by
  rw [typeName, String.toList_append]

theorem toList_fileName_dot (k : Kind) (name : String) :
    (k.fileName name).toList = (k.typeName name).toList ++ '.' :: "java".toList := by
  simp [fileName]

theorem toList_temporaryName (k : Kind) (name : String) :
    (k.temporaryName name).toList = (k.typeName name).toList ++ '.' :: "tmp".toList := by
  simp [temporaryName]

theorem temporaryName_inj (h : k.temporaryName name = l.temporaryName name) : k = l := by
  have htype : k.typeName name = l.typeName name := by
    rw [← String.toList_inj, toList_temporaryName, toList_temporaryName] at h
    exact String.toList_inj.mp (List.append_cancel_right h)
  exact typeName_inj htype

/-- The last names of the files of an entity and of their temporary places. -/
def lastNames (name : String) : List String :=
  all.map (·.fileName name) ++ all.map (·.temporaryName name)

theorem nodup_lastNames (name : String) : (lastNames name).Nodup := by
  rw [lastNames, List.nodup_append]
  refine ⟨List.Nodup.map (fun _ _ h => fileName_inj h) (by decide),
    List.Nodup.map (fun _ _ h => temporaryName_inj h) (by decide), ?_⟩
  intro file hfile temporary htemporary heq
  obtain ⟨k, -, rfl⟩ := List.mem_map.mp hfile
  obtain ⟨l, -, rfl⟩ := List.mem_map.mp htemporary
  exact Disk.temporaryName_ne_fileName k l name heq.symm

/-- The temporary place of a file of the kind is beside the file. -/
theorem components_temporary (hp : (k.fileName name).toList <:+ p.spelling.toList)
    (hlast : p.components.getLast? = some (.normal (k.fileName m))) :
    (Disk.temporary p).components = p.components.dropLast ++ [.normal (k.temporaryName m)] := by
  obtain ⟨front, hp⟩ := hp
  have hending : '/' ∉ k.ending.toList := by cases k <;> decide
  have hne : k.ending.toList ≠ [] := by cases k <;> decide
  obtain ⟨init, last, -, hs⟩ := Text.splitOn_append_of_notMem hending (front ++ name.toList)
  have hstem : last ++ k.ending.toList ≠ [] := by simp [hne]
  have has : front ++ name.toList ++ k.ending.toList ≠ [] := by simp [hne]
  have hfile : p.spelling.toList =
      (front ++ name.toList ++ k.ending.toList) ++ '.' :: "java".toList := by
    rw [← hp, toList_fileName_dot, toList_typeName]
    simp
  have hsegment {ending : List Char} (hl : 1 < ending.length) :
      Path.segmentComponent (String.ofList (last ++ k.ending.toList ++ '.' :: ending)).toList =
        some (.normal (String.ofList (last ++ k.ending.toList ++ '.' :: ending))) := by
    have hlength := List.length_pos_iff.mpr hstem
    rw [String.toList_ofList, Path.segmentComponent_of_length]
    rw [List.length_append, List.length_cons]
    omega
  have hjava := @hsegment "java".toList (by decide)
  have htmp := @hsegment "tmp".toList (by decide)
  have hplace : (Disk.temporary p).spelling.toList =
      (front ++ name.toList ++ k.ending.toList) ++ '.' :: "tmp".toList :=
    Path.toList_withExtension hs (by decide) hfile String.toList_ofList hjava (by decide) hstem
      "tmp"
  have hcomponents := Path.components_ending hs (by decide) hfile String.toList_ofList hjava
  have htemporary := Path.components_ending hs (by decide) hplace String.toList_ofList htmp
  -- The last component of the file says what its stem is.
  have htype : last ++ k.ending.toList = (k.typeName m).toList := by
    rw [hcomponents, List.getLast?_concat, Option.some.injEq, Component.normal.injEq,
      ← String.toList_inj, String.toList_ofList, toList_fileName_dot] at hlast
    exact List.append_cancel_right hlast
  rw [htemporary, hcomponents, List.dropLast_concat, hplace, hfile,
    Path.leadComponents_ending has "tmp".toList "java".toList, htype, ← toList_temporaryName,
    String.ofList_toList]

end Kind

namespace Transaction

open ProjectTree Artifact

variable {e : Entity} {c : Context} {k : Kind} {base : Option Path}

-- ---------------------------------------------------------------------------
-- Temporary places
-- ---------------------------------------------------------------------------

theorem suffix_site (base : Option Path) (a : Artifact) :
    a.fileName.toList <:+ (site base a).spelling.toList := by
  have hplace : a.fileName.toList <:+ (place a).spelling.toList := Path.suffix_join _ _
  cases base with
  | none => exact hplace
  | some dir => exact hplace.trans (Path.suffix_join dir (place a).spelling)

theorem components_temporary_site (base : Option Path) (e : Entity) (c : Context) (k : Kind) :
    (Disk.temporary (site base (ofKind e c k))).components =
      (site base (ofKind e c k)).components.dropLast ++
        [.normal (k.temporaryName (lastSegment e.name))] :=
  Kind.components_temporary (suffix_site base (ofKind e c k)) (getLast?_components_site base e c k)

/-- The temporary place does not depend on how a commit spells the file. -/
theorem components_temporary_destination (dir : Path) (e : Entity) (c : Context) (k : Kind) :
    (Disk.temporary (destination dir (ofKind e c k))).components =
      (Disk.temporary (site (some dir) (ofKind e c k))).components := by
  have hfile : (destination dir (ofKind e c k)).components =
      (site (some dir) (ofKind e c k)).components := components_site k.isAbsolute_relativePath
  have hlast := getLast?_components_site (some dir) e c k
  rw [← hfile] at hlast
  rw [components_temporary_site, ← hfile]
  exact Kind.components_temporary (Path.suffix_join _ _) hlast

/-- The files of an entity and their temporary places are all different. -/
theorem nodup_files (e : Entity) (c : Context) (base : Option Path) :
    (((generateAll e c).map (site base) ++
      ((generateAll e c).map (site base)).map Disk.temporary).map Path.components).Nodup := by
  refine List.Nodup.of_map List.getLast? ?_
  have hfile (k : Kind) := getLast?_components_site base e c k
  have htemporary (k : Kind) : (Disk.temporary (site base (ofKind e c k))).components.getLast? =
      some (.normal (k.temporaryName (lastSegment e.name))) := by
    rw [components_temporary_site, List.getLast?_concat]
  have hnames := (Kind.nodup_lastNames (lastSegment e.name)).map
    (f := fun name => some (Component.normal name)) fun _ _ h => by simpa using h
  simpa [generateAll, Kind.lastNames, Function.comp_def, hfile, htemporary] using hnames

-- ---------------------------------------------------------------------------
-- Reported paths
-- ---------------------------------------------------------------------------

/-- A tree that names what it writes by the directory and the name. -/
class WritesByPath (σ : Type) [ProjectTree σ] : Prop extends NamesByPath σ where
  inserted {tree tree' : σ} {directory path : Path} {name content : String} :
    insertTextFile tree directory name content = (.ok path, tree') → path = directory.join name

instance : WritesByPath MemoryTree where
  inserted h := by
    simp only [insertTextFile, Prod.mk.injEq, Except.ok.injEq] at h
    exact h.1.symm

instance : WritesByPath Disk where
  inserted {tree _ directory _ name content} h := by
    simp only [insertTextFile] at h
    cases hr : (Disk.replaceFile tree (directory.join name) content).1 with
    | error failure => simp [hr, Except.map] at h
    | ok done =>
      simp only [hr, Except.map, Prod.mk.injEq, Except.ok.injEq] at h
      exact h.1.symm

instance {σ : Type} [ProjectTree σ] [WritesByPath σ] : WritesByPath (FaultyTree σ) where
  inserted h := by
    simp only [insertTextFile] at h
    split at h
    · simp at h
    · simp only [Prod.mk.injEq] at h
      exact WritesByPath.inserted (σ := σ) (Prod.ext h.1 rfl)

section
variable {σ : Type} [ProjectTree σ] [WritesByPath σ] {tree tree' : σ} {dir path : Path}
  {a : Artifact} {ws : List PlannedWrite} {created : List Path} {outcomes : List Outcome}

theorem path_of_write (h : write tree dir a = (.ok path, tree')) : path = destination dir a := by
  unfold write ensureSubdirectories at h
  split at h
  · simp at h
  · next directory middle hd =>
    rw [destination, ← descend_names hd]
    exact WritesByPath.inserted h

/-- The outcome tells the write and the path it was planned for or led to. -/
structure Tells (dir : Path) (w : PlannedWrite) (o : Outcome) : Prop where
  kind : o.kind = w.artifact.kind
  path : o.path = w.path ∨ o.path = destination dir w.artifact

theorem Step.tells {w : PlannedWrite} {o : Outcome} (h : Step dir w tree o tree') :
    Tells dir w o := by
  cases h with
  | skip => exact ⟨rfl, .inl rfl⟩
  | create _ hw => exact ⟨rfl, .inr (path_of_write hw)⟩
  | overwrite _ hw => exact ⟨rfl, .inr (path_of_write hw)⟩

theorem tells_commitWrites (h : commitWrites tree dir created ws = (.ok outcomes, tree')) :
    List.Forall₂ (Tells dir) ws outcomes := by
  induction ws generalizing tree created outcomes with
  | nil =>
    simp only [commitWrites, Prod.mk.injEq, Except.ok.injEq] at h
    exact h.1 ▸ .nil
  | cons w ws ih =>
    obtain ⟨o, rest, middle, rfl, hs, hr⟩ := commitWrites_cons_ok h
    exact .cons hs.tells (ih hr)

/-- A commit on any tree reports the paths that were planned, as far as components go. -/
theorem reported_paths {tree₀ : σ} {as : List Artifact} {policy : CollisionPolicy}
    {tx : Transaction} (hr : ∀ a ∈ as, (Path.mk a.relativePath).isAbsolute = false)
    (hp : plan tree₀ base as policy = .ok tx) (hc : tx.commit tree = (.ok outcomes, tree')) :
    List.Forall₂ (fun w o => o.kind = w.artifact.kind ∧ o.path.components = w.path.components)
      tx.writes outcomes := by
  obtain ⟨rfl, -⟩ := plan_ok hp
  cases base with
  | none =>
    simp only [commit, Prod.mk.injEq, Except.ok.injEq] at hc
    rw [← hc.1, List.forall₂_map_right_iff, List.forall₂_same]
    exact fun w _ => ⟨rfl, rfl⟩
  | some dir =>
    have hends : ∀ w ∈ as.map (planWrite tree₀ (some dir) policy),
        (destination dir w.artifact).components = w.path.components := by
      intro w hw
      obtain ⟨a, ha, rfl⟩ := List.mem_map.mp hw
      rw [planWrite_artifact, planWrite_path]
      exact components_site (hr a ha)
    refine ((List.forall₂_and_left _ _).mpr ⟨hends, tells_commitWrites hc⟩).imp ?_
    rintro w o ⟨hend, htells⟩
    refine ⟨htells.kind, ?_⟩
    rcases htells.path with h | h
    · rw [h]
    · rw [h, hend]

/-- The files that a plan names for an entity, their temporary places and the paths that a commit
reports: the first two are all different, and the last are those of the plan. -/
theorem files_of_entity_apart (e : Entity) (c : Context) (base : Option Path) :
    (((generateAll e c).map (site base) ++
      ((generateAll e c).map (site base)).map Disk.temporary).map Path.components).Nodup ∧
    (∀ dir, base = some dir → ∀ a ∈ generateAll e c,
      (destination dir a).components = (site base a).components ∧
      (Disk.temporary (destination dir a)).components =
        (Disk.temporary (site base a)).components) ∧
    ∀ (planned : σ) (policy : CollisionPolicy) (tx : Transaction),
      plan planned base (generateAll e c) policy = .ok tx →
        tx.writes.map PlannedWrite.path = (generateAll e c).map (site base) ∧
        ∀ (tree tree' : σ) (outcomes : List Outcome), tx.commit tree = (.ok outcomes, tree') →
          List.Forall₂
            (fun w o => o.kind = w.artifact.kind ∧ o.path.components = w.path.components)
            tx.writes outcomes := by
  refine ⟨nodup_files e c base, ?_, fun planned policy tx hp => ⟨?_, fun tree tree' outcomes => ?_⟩⟩
  · rintro dir rfl a ha
    obtain ⟨k, -, rfl⟩ := List.mem_map.mp ha
    exact ⟨components_site k.isAbsolute_relativePath, components_temporary_destination dir e c k⟩
  · obtain ⟨rfl, -⟩ := plan_ok hp
    simp [Function.comp_def, planWrite_path]
  · exact reported_paths (separate_generateAll base e c).relative hp

/-- A name that leaves the directory of each kind and ends in dots. -/
theorem files_of_entity_apart_of_dots :
    let e : Entity := ⟨"../a/..", "app.a", [], .java⟩
    let c : Context := ⟨"app", some ⟨"app"⟩⟩
    let t : MemoryTree := {}
    ∃ tx outcomes t', plan t (some ⟨"app"⟩) (generateAll e c) .overwrite = .ok tx ∧
      tx.commit t = (.ok outcomes, t') ∧
      List.Forall₂ (fun w o => o.kind = w.artifact.kind ∧ o.path.components = w.path.components)
        tx.writes outcomes := by
  intro e c t
  let ws := (generateAll e c).map (planWrite t (some ⟨"app"⟩) .overwrite)
  have hp : plan t (some ⟨"app"⟩) (generateAll e c) .overwrite = .ok ⟨some ⟨"app"⟩, ws⟩ := by
    simp [plan, ws]
  have hc := commitWrites_memory t ⟨"app"⟩ [] ws
  have hpaths := ((files_of_entity_apart e c (some ⟨"app"⟩)).2.2 _ _ _ hp).2 _ _ _ hc
  exact ⟨_, _, _, hp, hc, hpaths⟩

end

end Transaction

end Scaffold
