import Scaffold.Tree

/-!
A project tree whose changes may fail. A schedule says for each change, counted from the start of
the schedule, whether it fails; a change that fails leaves the tree as it was.
-/
namespace Scaffold

/-- For each kind of change, the calls that fail, counted from zero. -/
structure Schedule where
  inserts : Nat → Bool
  creates : Nat → Bool
  removes : Nat → Bool

namespace Schedule

/-- Nothing fails. -/
def faultless : Schedule := ⟨fun _ => false, fun _ => false, fun _ => false⟩

/-- The first `n` calls succeed; without a bound, all of them. -/
def afterFirst : Option Nat → Nat → Bool
  | none, _ => false
  | some n, call => n ≤ call

end Schedule

structure FaultyTree (σ : Type) where
  tree : σ
  schedule : Schedule := .faultless
  inserts : Nat := 0
  creates : Nat := 0
  removes : Nat := 0

namespace FaultyTree

variable {σ : Type}

/-- The same tree under another schedule, whose calls are counted anew. -/
def withSchedule (t : FaultyTree σ) (schedule : Schedule) : FaultyTree σ :=
  { tree := t.tree, schedule := schedule }

def failedCreate (directory : Path) (name : String) : Failure :=
  .directoryNotCreated (directory.join name) "no more directories"

def failedInsert (directory : Path) (name : String) : Failure :=
  .notWritten (directory.join name) "disk full"

def failedRemove (path : Path) : Failure :=
  .notWritten path "cannot remove"

open ProjectTree in
instance [ProjectTree σ] : ProjectTree (FaultyTree σ) where
  findSubdirectory t directory name := findSubdirectory t.tree directory name
  createSubdirectory t directory name :=
    let called := { t with creates := t.creates + 1 }
    if t.schedule.creates t.creates then (.error (failedCreate directory name), called)
    else
      let result := createSubdirectory t.tree directory name
      (result.1, { called with tree := result.2 })
  fileExists t path := fileExists t.tree path
  insertTextFile t directory name content :=
    let called := { t with inserts := t.inserts + 1 }
    if t.schedule.inserts t.inserts then (.error (failedInsert directory name), called)
    else
      let result := insertTextFile t.tree directory name content
      (result.1, { called with tree := result.2 })
  removeFile t path :=
    let called := { t with removes := t.removes + 1 }
    if t.schedule.removes t.removes then (.error (failedRemove path), called)
    else
      let result := removeFile t.tree path
      (result.1, { called with tree := result.2 })

end FaultyTree

end Scaffold
