import Scaffold.CommandLine.Arguments
import Scaffold.Proofs.Results

/-!
# Readings of the arguments

What is given behind one subcommand means the same behind another that takes
it too. Options that are written out as arguments are read back as they are.
-/

namespace Scaffold.CommandLine

namespace Reading

variable {r r' : Reading} {policy : Option CollisionPolicy}

-- ---------------------------------------------------------------------------
-- Behind another subcommand
-- ---------------------------------------------------------------------------

/-- What is read stands behind `inspect`, which takes no policy. -/
structure Inspects (r : Reading) : Prop where
  place : r.place = .behind .inspect
  pending : r.pending ≠ some .onCollision

/-- The same reading behind `generate`, once a dry run and perhaps a policy are asked for. -/
def previewing (policy : Option CollisionPolicy) (r : Reading) : Reading :=
  { r with place := .behind .generate, own := { r.own with policy := policy, dryRun := true } }

/-- What is read behind `inspect` is read behind `generate` too. -/
def Carries (policy : Option CollisionPolicy) (x y : Except Stop Reading) : Prop :=
  ∀ r, x = .ok r → r.Inspects ∧ y = .ok (r.previewing policy)

theorem carries_error {stop : Stop} {y : Except Stop Reading} :
    Carries policy (.error stop) y := by
  rintro r ⟨⟩

theorem carries_ok (h : r.Inspects) : Carries policy (.ok r) (.ok (r.previewing policy)) := by
  rintro _ ⟨⟩
  exact ⟨h, rfl⟩

theorem carries_ite {p : Prop} [Decidable p] {x y x' y' : Except Stop Reading}
    (ht : Carries policy x x') (hf : Carries policy y y') :
    Carries policy (if p then x else y) (if p then x' else y') := by
  split
  · exact ht
  · exact hf

theorem Inspects.flag (h : r.Inspects) (given : Bool) (o : Options) :
    Carries policy (r.flag given o)
      ((r.previewing policy).flag given { o with policy := policy, dryRun := true }) := by
  refine carries_ite carries_error ?_
  obtain ⟨hplace, hpending⟩ := h
  rw [setOptions, hplace]
  exact carries_ok ⟨rfl, hpending⟩

theorem Inspects.setValue (h : r.Inspects) {option : Valued} (ho : option ≠ .onCollision)
    (value : String) :
    Carries policy (r.setValue option value) ((r.previewing policy).setValue option value) := by
  have hread : ({ r with pending := none } : Reading).Inspects := ⟨h.place, nofun⟩
  have hown : ({ r with pending := none } : Reading).options = r.own := by
    rw [options, hread.place]
  cases option with
  | config =>
    simp only [Reading.setValue, hown]
    exact hread.flag _ _
  | sourceRoot =>
    simp only [Reading.setValue, hown]
    exact hread.flag _ _
  | onCollision => exact absurd rfl ho

theorem Inspects.value (h : r.Inspects) (s : String) :
    Carries policy (r.value s) ((r.previewing policy).value s) := by
  rw [Reading.value, h.place]
  refine carries_ite carries_error ?_
  exact carries_ok ⟨rfl, h.pending⟩

theorem Inspects.short (h : r.Inspects) (cs : List Char) :
    Carries policy (r.short cs) ((r.previewing policy).short cs) := by
  induction cs with
  | nil => exact carries_ok h
  | cons c cs ih =>
    simp only [Reading.short, h.place, reduceCtorEq, decide_false, Bool.and_false,
      Bool.false_eq_true, if_false]
    exact carries_ite ih (carries_ite carries_error carries_error)

theorem Inspects.takesTypes (h : r.Inspects) (policy : Option CollisionPolicy) :
    r.takesTypes = true ∧ (r.previewing policy).takesTypes = true := by
  simp [Reading.takesTypes, isGenerate, previewing, h.place]

theorem Inspects.isGenerate (h : r.Inspects) (policy : Option CollisionPolicy) :
    r.isGenerate = false ∧ (r.previewing policy).isGenerate = true := by
  simp [Reading.isGenerate, previewing, h.place]

theorem Inspects.options (h : r.Inspects) (policy : Option CollisionPolicy) :
    r.options = r.own ∧
      (r.previewing policy).options = { r.own with policy := policy, dryRun := true } := by
  simp [Reading.options, previewing, h.place]

theorem Inspects.valued (h : r.Inspects) (policy : Option CollisionPolicy) {name : String}
    (hname : name ≠ "on-collision") :
    (r.previewing policy).valued? name = r.valued? name ∧
      r.valued? name ≠ some .onCollision := by
  simp only [valued?, h.takesTypes policy, hname, decide_false, Bool.false_and,
    Bool.false_eq_true, if_false]
  refine ⟨trivial, ?_⟩
  split
  · nofun
  · split <;> nofun

theorem Inspects.long_onCollision (h : r.Inspects) (value : Option String) :
    r.long "on-collision" value = .error .usage := by
  have hvalued : r.valued? "on-collision" = none := by
    simp [valued?, h.isGenerate none]
  cases value <;> simp [Reading.long, hvalued, h.isGenerate none]

/-- A name that `inspect` does not take decides nothing, as it is refused there. -/
theorem Inspects.long (h : r.Inspects) (name : String) (value : Option String) :
    Carries policy (r.long name value) ((r.previewing policy).long name value) := by
  by_cases hname : name = "on-collision"
  · rw [hname, h.long_onCollision]
    exact carries_error
  obtain ⟨hsame, hoption⟩ := h.valued policy hname
  unfold Reading.long
  rw [hsame]
  generalize r.valued? name = option at hoption
  cases option with
  | some option =>
    have ho : option ≠ .onCollision := fun heq => hoption (congrArg some heq)
    cases value with
    | some value => exact h.setValue ho value
    | none => exact carries_ok ⟨h.place, by simpa using ho⟩
  | none =>
    cases value with
    | some value => exact carries_error
    | none =>
      have hplace : (r.previewing policy).place ≠ .front := by simp [previewing]
      simp only [h.takesTypes policy, h.isGenerate policy,
        h.options policy, h.place, hplace, Bool.and_true, Bool.and_false,
        decide_false, decide_eq_true_eq, reduceCtorEq, Bool.false_eq_true, if_false]
      exact carries_ite (h.flag _ _) (carries_ite (h.flag _ _) (carries_ite (carries_ok h)
        (carries_ite carries_error (carries_ite (h.flag _ _) carries_error))))

theorem Inspects.step (h : r.Inspects) (policy : Option CollisionPolicy) (argument : String) :
    Carries policy (r.step argument) ((r.previewing policy).step argument) := by
  have hplace : (r.previewing policy).place = .behind .generate := rfl
  have hpending : (r.previewing policy).pending = r.pending := rfl
  simp only [Reading.step, h.place, hplace, hpending]
  refine carries_ite (h.value _) ?_
  split
  · next option heq =>
    have ho : option ≠ .onCollision := fun hoption => h.pending (heq.trans (congrArg some hoption))
    exact carries_ite carries_error (h.setValue ho _)
  · exact carries_ok ⟨rfl, h.pending⟩
  · exact h.long _ _
  · exact h.value _
  · exact h.short _
  · exact h.value _

theorem Inspects.foldlM (h : r.Inspects) (policy : Option CollisionPolicy)
    (arguments : List String) :
    Carries policy (arguments.foldlM Reading.step r)
      (arguments.foldlM Reading.step (r.previewing policy)) := by
  induction arguments generalizing r with
  | nil => exact carries_ok h
  | cons argument arguments ih =>
    intro last hlast
    rw [List.foldlM_cons, bind_ok] at hlast
    obtain ⟨next, hstep, hread⟩ := hlast
    obtain ⟨hnext, hsame⟩ := h.step policy argument next hstep
    obtain ⟨hinspects, hrest⟩ := ih hnext last hread
    refine ⟨hinspects, ?_⟩
    rw [List.foldlM_cons, bind_ok]
    exact ⟨_, hsame, hrest⟩

end Reading

/-- The dry run of `generate` with the other options of an invocation of `inspect`. -/
def Invocation.previewing (policy : Option CollisionPolicy) (i : Invocation) : Invocation :=
  { i with
    command := .generate
    options := { i.options with policy := policy, dryRun := true } }

def policyArguments (policy : Option CollisionPolicy) : List String :=
  policy.elim [] fun p => ["--on-collision", p.label]

theorem Reading.Inspects.finish {r : Reading} {i : Invocation} (h : r.Inspects)
    (hi : r.finish = .ok i) (policy : Option CollisionPolicy) :
    i.command = .inspect ∧ (r.previewing policy).finish = .ok (i.previewing policy) := by
  unfold Reading.finish at hi
  rw [h.place] at hi
  cases hpending : r.pending with
  | some option =>
    rw [hpending] at hi
    cases hi
  | none =>
    simp only [hpending, reduceCtorEq, decide_false, Bool.false_and, Bool.false_eq_true, if_false,
      Except.ok.injEq] at hi
    subst hi
    refine ⟨rfl, ?_⟩
    unfold Reading.finish
    rw [show (r.previewing policy).pending = none from hpending]
    rfl

/-- Arguments of `inspect` are arguments of `generate`, behind those for a dry run. -/
theorem parse_preview {arguments : List String} {i : Invocation}
    (h : parse ("inspect" :: arguments) = .ok i) (policy : Option CollisionPolicy) :
    i.command = .inspect ∧
      parse ("generate" :: "--dry-run" :: (policyArguments policy ++ arguments)) =
        .ok (i.previewing policy) := by
  let start : Reading := { place := .behind .inspect }
  have hinspects : start.Inspects := ⟨rfl, nofun⟩
  have hfront : (["generate", "--dry-run"] ++ policyArguments policy).foldlM Reading.step {} =
      .ok (start.previewing policy) := by
    cases policy with
    | none => rfl
    | some p => cases p <;> rfl
  obtain ⟨last, hread, hlast⟩ :=
    bind_ok.mp (show (arguments.foldlM Reading.step start >>= Reading.finish) = .ok i from h)
  obtain ⟨hinspected, hsame⟩ := hinspects.foldlM policy arguments last hread
  obtain ⟨hcommand, hfinish⟩ := hinspected.finish hlast policy
  refine ⟨hcommand, ?_⟩
  have hall : (["generate", "--dry-run"] ++ policyArguments policy ++ arguments).foldlM
      Reading.step {} = .ok (last.previewing policy) := by
    rw [List.foldlM_append, bind_ok]
    exact ⟨_, hfront, hsame⟩
  exact bind_ok.mpr ⟨_, hall, hfinish⟩

-- ---------------------------------------------------------------------------
-- Options as arguments
-- ---------------------------------------------------------------------------

/-- What starts with a dash is read as an option, but for the dash alone. -/
def isOption (argument : String) : Bool :=
  argument.toList.head? = some '-' && argument.toList ≠ ['-']

/-- A root that starts with a dash has to stand in the same argument. -/
def rootArguments (root : Path) : List String :=
  if isOption root.spelling then ["--source-root=" ++ root.spelling]
  else ["--source-root", root.spelling]

def switch (given : Bool) (name : String) : List String :=
  if given then [name] else []

/-- Arguments that set the options. The configuration file is left out. -/
def Options.arguments (o : Options) : List String :=
  switch o.json "--json" ++ switch o.plain "--plain" ++ o.roots.flatMap rootArguments ++
    policyArguments o.policy ++ switch o.strictTypes "--strict-types" ++ switch o.dryRun "--dry-run"

/-- A file has been read behind `generate`, and options with it. -/
def Reading.generating (file : String) (o : Options) : Reading :=
  { place := .behind .generate, own := o, file := some file }

def Reading.awaiting (pending : Option Valued) (r : Reading) : Reading :=
  { r with pending := pending }

section
variable {file : String} {o : Options}

theorem setValue_root {root : Path} (h : root.spelling ≠ "") (pending : Option Valued) :
    ((Reading.generating file o).awaiting pending).setValue .sourceRoot root.spelling =
      .ok (.generating file { o with roots := o.roots ++ [root] }) := by
  simp only [Reading.setValue, Reading.flag, h, decide_false, Bool.false_eq_true, if_false]
  rfl

theorem splitValue_root (cs : List Char) :
    Reading.splitValue ("source-root=".toList ++ cs) =
      ("source-root", some (String.ofList cs)) := by
  have hname : ("source-root=".toList ++ cs).takeWhile (· ≠ '=') = "source-root".toList := rfl
  simp only [Reading.splitValue, hname]
  rw [if_pos (by simp)]
  rfl

theorem step_root {root : Path} (h : root.spelling ≠ "") (hvalue : isOption root.spelling = false) :
    ((Reading.generating file o).awaiting (some .sourceRoot)).step root.spelling =
      .ok (.generating file { o with roots := o.roots ++ [root] }) := by
  have hstep : ((Reading.generating file o).awaiting (some .sourceRoot)).step root.spelling =
      ((Reading.generating file o).awaiting (some .sourceRoot)).setValue .sourceRoot
        root.spelling := if_neg (by simpa [isOption] using hvalue)
  rw [hstep, setValue_root h]

/-- The flag and the root in one argument. -/
theorem step_joined {root : Path} (h : root.spelling ≠ "") :
    (Reading.generating file o).step ("--source-root=" ++ root.spelling) =
      .ok (.generating file { o with roots := o.roots ++ [root] }) := by
  have hlist : ("--source-root=" ++ root.spelling).toList =
      '-' :: '-' :: ("source-root=".toList ++ root.spelling.toList) := by simp
  have hsplit := splitValue_root root.spelling.toList
  rw [String.ofList_toList] at hsplit
  simp only [Reading.step, hlist]
  change (Reading.generating file o).long
    (Reading.splitValue ("source-root=".toList ++ root.spelling.toList)).1
    (Reading.splitValue ("source-root=".toList ++ root.spelling.toList)).2 = _
  rw [hsplit]
  exact setValue_root h none

theorem foldlM_root {root : Path} (h : root.spelling ≠ "") :
    (rootArguments root).foldlM Reading.step (.generating file o) =
      .ok (.generating file { o with roots := o.roots ++ [root] }) := by
  unfold rootArguments
  cases hvalue : isOption root.spelling with
  | false =>
    change (((Reading.generating file o).awaiting (some .sourceRoot)).step root.spelling >>=
      pure) = _
    rw [step_root h hvalue]
    rfl
  | true =>
    change ((Reading.generating file o).step ("--source-root=" ++ root.spelling) >>= pure) = _
    rw [step_joined h]
    rfl

theorem foldlM_roots {roots : List Path} (h : ∀ root ∈ roots, root.spelling ≠ "") (o : Options) :
    (roots.flatMap rootArguments).foldlM Reading.step (.generating file o) =
      .ok (.generating file { o with roots := o.roots ++ roots }) := by
  induction roots generalizing o with
  | nil =>
    rw [List.append_nil]
    rfl
  | cons root roots ih =>
    obtain ⟨hroot, hroots⟩ := List.forall_mem_cons.mp h
    rw [List.flatMap_cons, List.foldlM_append, foldlM_root hroot]
    refine (ih hroots _).trans ?_
    rw [List.append_assoc]
    rfl

theorem foldlM_policy (policy : Option CollisionPolicy) (o : Options) :
    (policyArguments policy).foldlM Reading.step (.generating file { o with policy := none }) =
      .ok (.generating file { o with policy := policy }) := by
  cases policy with
  | none => rfl
  | some p => cases p <;> rfl

theorem foldlM_general (json plain : Bool) :
    (switch json "--json" ++ switch plain "--plain").foldlM Reading.step (.generating file {}) =
      .ok (.generating file { json := json, plain := plain }) := by
  cases json <;> cases plain <;> rfl

theorem foldlM_switches (strict dry : Bool) (o : Options) :
    (switch strict "--strict-types" ++ switch dry "--dry-run").foldlM Reading.step
        (.generating file { o with strictTypes := false, dryRun := false }) =
      .ok (.generating file { o with strictTypes := strict, dryRun := dry }) := by
  cases strict <;> cases dry <;> rfl

theorem step_file (hvalue : isOption file = false) (hne : file ≠ "") :
    ({ place := .behind .generate } : Reading).step file = .ok (.generating file {}) := by
  have hread : ({ place := .behind .generate } : Reading).value file =
      .ok (.generating file {}) := by
    simp only [Reading.value, hne, Option.isSome_none, decide_false, Bool.or_false,
      reduceCtorEq, Bool.false_and, Bool.false_eq_true, if_false]
    rfl
  have hdash : file.toList.head? = some '-' → file.toList = ['-'] := by
    simpa [isOption] using hvalue
  unfold Reading.step
  simp only [Bool.false_eq_true, if_false]
  split
  · next heq => cases heq
  · next heq => simp [heq] at hdash
  · next heq => simp [heq] at hdash
  · exact hread
  · next hcons _ heq =>
    have hsingle := hdash (by rw [heq]; rfl)
    rw [heq, List.cons.injEq] at hsingle
    exact absurd hsingle.2 hcons
  · exact hread

theorem foldlM_arguments (hconfig : o.config = none)
    (hroots : ∀ root ∈ o.roots, root.spelling ≠ "") :
    o.arguments.foldlM Reading.step (.generating file {}) = .ok (.generating file o) := by
  obtain ⟨json, plain, config, roots, policy, strict, dry⟩ := o
  obtain rfl : config = none := hconfig
  have hnested : (Options.mk json plain none roots policy strict dry).arguments =
      (switch json "--json" ++ switch plain "--plain") ++ (roots.flatMap rootArguments ++
        (policyArguments policy ++
          (switch strict "--strict-types" ++ switch dry "--dry-run"))) := by
    simp [Options.arguments]
  rw [hnested, List.foldlM_append, bind_ok]
  refine ⟨_, foldlM_general json plain, ?_⟩
  rw [List.foldlM_append, bind_ok]
  refine ⟨_, foldlM_roots hroots _, ?_⟩
  rw [List.foldlM_append, bind_ok]
  refine ⟨_, foldlM_policy policy ⟨json, plain, none, roots, policy, false, false⟩, ?_⟩
  exact foldlM_switches strict dry ⟨json, plain, none, roots, policy, false, false⟩

theorem foldlM_generate (hvalue : isOption file = false) (hne : file ≠ "")
    (hconfig : o.config = none) (hroots : ∀ root ∈ o.roots, root.spelling ≠ "") :
    ("generate" :: file :: o.arguments).foldlM Reading.step {} = .ok (.generating file o) := by
  have hfront : ["generate", file].foldlM Reading.step {} = .ok (.generating file {}) := by
    change (({ place := .behind .generate } : Reading).step file >>= pure) = _
    rw [step_file hvalue hne]
    rfl
  change (["generate", file] ++ o.arguments).foldlM Reading.step {} = _
  rw [List.foldlM_append, bind_ok]
  exact ⟨_, hfront, foldlM_arguments hconfig hroots⟩

/-- Options that are written out behind a file are read back. -/
theorem parse_arguments (hvalue : isOption file = false) (hne : file ≠ "")
    (hconfig : o.config = none) (hroots : ∀ root ∈ o.roots, root.spelling ≠ "") :
    parse ("generate" :: file :: o.arguments) = .ok ⟨.generate, o, some ⟨file⟩⟩ := by
  refine bind_ok.mpr ⟨_, foldlM_generate hvalue hne hconfig hroots, ?_⟩
  simp [Reading.finish, Reading.generating]

/-- In an argument of its own a root that starts with a dash is refused, whatever stands behind. -/
theorem parse_dashed_root {root : Path} (hvalue : isOption file = false) (hne : file ≠ "")
    (hconfig : o.config = none) (hroots : ∀ root ∈ o.roots, root.spelling ≠ "")
    (hdash : isOption root.spelling = true) (behind : List String) :
    parse ("generate" :: file :: (o.arguments ++ "--source-root" :: root.spelling :: behind)) =
      .error .usage := by
  have hstep : ((Reading.generating file o).awaiting (some .sourceRoot)).step root.spelling =
      .error .usage := if_pos (by simpa [isOption] using hdash)
  have hroot : ("--source-root" :: root.spelling :: behind).foldlM Reading.step
      (.generating file o) = .error .usage := by
    change (((Reading.generating file o).awaiting (some .sourceRoot)).step root.spelling >>=
      fun r => behind.foldlM Reading.step r) = _
    rw [hstep]
    rfl
  have hall : ("generate" :: file :: o.arguments ++
      "--source-root" :: root.spelling :: behind).foldlM Reading.step {} = .error .usage := by
    rw [List.foldlM_append, foldlM_generate hvalue hne hconfig hroots]
    exact hroot
  rw [parse, ← List.cons_append, ← List.cons_append, hall]
  rfl

end

end Scaffold.CommandLine
