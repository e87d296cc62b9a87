import Scaffold.Artifact
import Scaffold.Tree

/-!
Artifacts are written together or not at all. A plan looks at the tree once and decides for each
artifact; a commit carries the decisions out in order and, when one write fails, removes the files
it has created.
-/
namespace Scaffold

/-- What to do when a file stands where an artifact goes. -/
inductive CollisionPolicy
  | error
  | skip
  | overwrite
  deriving DecidableEq, Repr

namespace CollisionPolicy

def all : List CollisionPolicy := [error, skip, overwrite]

def label : CollisionPolicy → String
  | error => "error"
  | skip => "skip"
  | overwrite => "overwrite"

end CollisionPolicy

inductive Status
  | planned
  | created
  | overwritten
  | skipped
  deriving DecidableEq, Repr

namespace Status

def all : List Status := [planned, created, overwritten, skipped]

def label : Status → String
  | planned => "planned"
  | created => "created"
  | overwritten => "overwritten"
  | skipped => "skipped"

end Status

structure Outcome where
  kind : Kind
  path : Path
  status : Status
  deriving DecidableEq, Repr

/-- What is to happen to one artifact. -/
inductive Decision
  | create
  | overwrite
  | skip
  deriving DecidableEq, Repr

structure PlannedWrite where
  artifact : Artifact
  path : Path
  decision : Decision
  deriving DecidableEq, Repr

structure Transaction where
  baseDirectory : Option Path
  writes : List PlannedWrite
  deriving DecidableEq, Repr

namespace Transaction

open ProjectTree

variable {σ : Type} [ProjectTree σ]

/-- The place of an artifact below the base directory. -/
def place (a : Artifact) : Path :=
  Path.join ⟨a.relativePath⟩ a.fileName

/-- The file an artifact goes to. -/
def target (base : Path) (a : Artifact) : Path :=
  base.joinPath (place a)

def decisionFor (policy : CollisionPolicy) (present : Bool) : Decision :=
  if present then (if policy = .skip then .skip else .overwrite) else .create

def planWrite (tree : σ) (base : Option Path) (policy : CollisionPolicy) (a : Artifact) :
    PlannedWrite :=
  match base with
  | none => ⟨a, place a, .skip⟩
  | some base => ⟨a, target base a, decisionFor policy (fileExists tree (target base a))⟩

/-- The targets that exist already, in the order of the artifacts. -/
def collisions (writes : List PlannedWrite) : List Path :=
  (writes.filter (·.decision = .overwrite)).map PlannedWrite.path

/-- Without a base directory every artifact is skipped. -/
def plan (tree : σ) (base : Option Path) (artifacts : List Artifact) (policy : CollisionPolicy) :
    Except Failure Transaction :=
  let writes := artifacts.map (planWrite tree base policy)
  if policy = .error ∧ collisions writes ≠ [] then .error (.artifactsExist (collisions writes))
  else .ok ⟨base, writes⟩

def PlannedWrite.outcome (w : PlannedWrite) (status : Status) : Outcome :=
  ⟨w.artifact.kind, w.path, status⟩

/-- The outcomes to expect when nothing is written. -/
def preview (t : Transaction) : List Outcome :=
  t.writes.map fun w =>
    PlannedWrite.outcome w (if w.decision = .skip then .skipped else .planned)

/-- Writes one artifact, creating the directories it goes to. -/
def write (tree : σ) (base : Path) (a : Artifact) : Except Failure Path × σ :=
  match ensureSubdirectories tree base a.relativePath with
  | (.error failure, tree) => (.error failure, tree)
  | (.ok directory, tree) => insertTextFile tree directory a.fileName a.content

/-- Removes the files in order and counts those that could be removed. -/
def rollBack (tree : σ) : List Path → Nat × σ
  | [] => (0, tree)
  | path :: paths =>
    match removeFile tree path with
    | (.ok (), tree) =>
      let rest := rollBack tree paths
      (rest.1 + 1, rest.2)
    | (.error _, tree) => rollBack tree paths

/-- Carries out the writes in order; `created` holds the files created so far, newest first. -/
def commitWrites (tree : σ) (base : Path) (created : List Path) :
    List PlannedWrite → Except Failure (List Outcome) × σ
  | [] => (.ok [], tree)
  | w :: ws =>
    if w.decision = .skip then
      let rest := commitWrites tree base created ws
      (rest.1.map (PlannedWrite.outcome w .skipped :: ·), rest.2)
    else
      match write tree base w.artifact with
      | (.error failure, tree) =>
        let undone := rollBack tree created
        (.error (.commitFailed undone.1 failure), undone.2)
      | (.ok path, tree) =>
        let fresh := w.decision = .create
        let rest := commitWrites tree base (if fresh then path :: created else created) ws
        (rest.1.map (⟨w.artifact.kind, path, if fresh then .created else .overwritten⟩ :: ·),
          rest.2)

def commit (t : Transaction) (tree : σ) : Except Failure (List Outcome) × σ :=
  match t.baseDirectory with
  | none => (.ok (t.writes.map fun w => PlannedWrite.outcome w .skipped), tree)
  | some base => commitWrites tree base [] t.writes

end Transaction

end Scaffold
