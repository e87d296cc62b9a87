import Scaffold.Message
import Scaffold.Source
import Scaffold.SourceRoots
import Scaffold.Transaction

/-!
Runs of the generator: a source file is resolved, its artifacts are planned, and the plan is
shown or carried out.
-/
namespace Scaffold

structure Settings where
  /-- Without source roots, they are detected from the file. -/
  roots : Option SourceRoots := none
  policy : CollisionPolicy := .error
  strictTypes : Bool := false
  dryRun : Bool := false
  deriving DecidableEq, Repr

structure Report where
  entity : Entity
  basePackage : String
  baseDirectory : Option Path
  dryRun : Bool
  outcomes : List Outcome
  deriving DecidableEq, Repr

def Report.message (r : Report) : Message :=
  .generating r.entity.name

inductive Phase
  | idle
  | generating
  deriving DecidableEq, Repr

namespace Phase

def all : List Phase := [idle, generating]

def label : Phase → String
  | idle => "idle"
  | generating => "generating"

end Phase

/-- A project tree with the settings under which artifacts are added to it. -/
structure Scaffolder (σ : Type) where
  tree : σ
  settings : Settings := {}
  phase : Phase := .idle

namespace Scaffolder

variable {σ : Type} [ProjectTree σ]

/-- The source roots that the settings give for a file. -/
def rootsFor (settings : Settings) (file : Path) : SourceRoots :=
  settings.roots.getD (SourceRoots.detect file)

/-- Plans the artifacts of an entity, then shows or carries out the plan. -/
def place (s : Scaffolder σ) (file : Path) (entity : Entity) : Except Failure Report × σ :=
  let context := Context.ofFile file (rootsFor s.settings file)
  let report := Report.mk entity context.basePackage context.baseDirectory s.settings.dryRun
  match
    Transaction.plan s.tree context.baseDirectory (Artifact.generateAll entity context)
      s.settings.policy with
  | .error failure => (.error failure, s.tree)
  | .ok transaction =>
    if s.settings.dryRun then (.ok (report transaction.preview), s.tree)
    else
      let done := transaction.commit s.tree
      (done.1.map report, done.2)

def generate (s : Scaffolder σ) (source : SourceFile) : Except Failure Report × Scaffolder σ :=
  match source.resolve s.settings.strictTypes with
  | .error failure => (.error failure, s)
  | .ok entity =>
    let started := { s with phase := .generating }
    let placed := started.place source.path entity
    (placed.1, { started with tree := placed.2, phase := .idle })

/-- Generates for the selected file, if there is one. -/
def run (s : Scaffolder σ) (read : Path → Except String String) (file : Option Path) :
    Except Failure Report × Scaffolder σ :=
  match file with
  | none => (.error .noFileSelected, s)
  | some path =>
    match SourceFile.open? read path with
    | .error failure => (.error failure, s)
    | .ok source => s.generate source

end Scaffolder

end Scaffold
