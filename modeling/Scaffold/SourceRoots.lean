import Scaffold.Path

/-!
Source roots are the directories that packages are counted from. The package of a directory is
read off the part of its path below the deepest root that encloses it.
-/
namespace Scaffold

structure SourceRoots where
  roots : List Path
  deriving DecidableEq, Repr

namespace SourceRoots

/-- The directories that conventionally hold sources, the most specific first. -/
def conventional : List (List Component) :=
  [["src", "main", "java"], ["src", "main", "kotlin"], ["src", "test", "java"],
   ["src", "test", "kotlin"], ["src"]].map (·.map .normal)

def isConventional (directory : Path) : Bool :=
  conventional.any (· <:+ directory.components)

/-- The nearest conventional directory above the file, if there is one. -/
def detect (file : Path) : SourceRoots :=
  ⟨(file.ancestors.tail.find? isConventional).toList⟩

/-- Of the lists, one that no other exceeds in length; of equals the last. -/
def longest? : List (List α) → Option (List α)
  | [] => none
  | l :: ls =>
    match longest? ls with
    | none => some l
    | some m => if m.length < l.length then some l else some m

def enclosing (roots : SourceRoots) (directory : Path) : List (List Component) :=
  (roots.roots.map Path.components).filter (· <+: directory.components)

/-- The components below the deepest enclosing root, joined by dots; outside every root the empty
package. -/
def packageName (roots : SourceRoots) (directory : Path) : String :=
  match longest? (roots.enclosing directory) with
  | none => ""
  | some root =>
    ".".intercalate ((directory.components.drop root.length).map Component.spelling)

def packageName? (roots : SourceRoots) : Option Path → String
  | none => ""
  | some directory => roots.packageName directory

end SourceRoots

end Scaffold
