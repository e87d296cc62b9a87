import Scaffold.Failure

/-!
A project tree holds directories and text files. Operations that change it return the tree they
leave, whether they succeed or fail.
-/
namespace Scaffold

class ProjectTree (σ : Type) where
  findSubdirectory : σ → Path → String → Option Path
  createSubdirectory : σ → Path → String → Except Failure Path × σ
  fileExists : σ → Path → Bool
  insertTextFile : σ → Path → String → String → Except Failure Path × σ
  removeFile : σ → Path → Except Failure Unit × σ

namespace ProjectTree

variable {σ : Type} [ProjectTree σ]

/-- The directories named by a relative path. -/
def segments (relative : String) : List String :=
  ((Text.splitOn '/' relative.toList).filter (· ≠ [])).map String.ofList

/-- Walks down from `directory`, creating each missing subdirectory on the way. -/
def descend (tree : σ) (directory : Path) : List String → Except Failure Path × σ
  | [] => (.ok directory, tree)
  | name :: names =>
    match findSubdirectory tree directory name with
    | some found => descend tree found names
    | none =>
      match createSubdirectory tree directory name with
      | (.ok created, tree) => descend tree created names
      | (.error failure, tree) => (.error failure, tree)

/-- Finds or creates the directories of a relative path below `base`. -/
def ensureSubdirectories (tree : σ) (base : Path) (relative : String) : Except Failure Path × σ :=
  descend tree base (segments relative)

end ProjectTree

end Scaffold
