import Scaffold.Tree

/-!
A project tree in memory. Paths with the same components name the same entry; an entry keeps the
spelling it was first added under, and the lists are kept in component order.
-/
namespace Scaffold

/-- An ordered list of paths with a value each. -/
abbrev PathMap (α : Type) := List (Path × α)

namespace PathMap

variable {α : Type}

def get? (m : PathMap α) (path : Path) : Option α :=
  (m.find? (·.1.same path)).map Prod.snd

def contains (m : PathMap α) (path : Path) : Bool :=
  m.any (·.1.same path)

/-- Sets the value of a path and keeps the order of the list. -/
def insert (path : Path) (a : α) : PathMap α → PathMap α
  | [] => [(path, a)]
  | entry :: m =>
    match path.compare entry.1 with
    | .lt => (path, a) :: entry :: m
    | .eq => (entry.1, a) :: m
    | .gt => entry :: insert path a m

def erase (m : PathMap α) (path : Path) : PathMap α :=
  m.filter fun entry => !entry.1.same path

end PathMap

structure MemoryTree where
  directories : PathMap Unit := []
  files : PathMap String := []
  /-- How many directories `createSubdirectory` has added. -/
  created : Nat := 0
  deriving DecidableEq, Repr

namespace MemoryTree

def hasDirectory (t : MemoryTree) (path : Path) : Bool :=
  t.directories.contains path

def content? (t : MemoryTree) (path : Path) : Option String :=
  t.files.get? path

/-- Adds a directory and every directory above it; the empty path is none. -/
def withDirectory (t : MemoryTree) (path : Path) : MemoryTree :=
  let above := path.ancestors.filter fun p => p.spelling ≠ ""
  { t with directories := above.foldl (fun m p => PathMap.insert p () m) t.directories }

/-- Adds a file and the directories above it. -/
def withFile (t : MemoryTree) (path : Path) (content : String) : MemoryTree :=
  let t := match path.parent? with
    | some parent => t.withDirectory parent
    | none => t
  { t with files := PathMap.insert path content t.files }

instance : ProjectTree MemoryTree where
  findSubdirectory t directory name :=
    let path := directory.join name
    if t.hasDirectory path then some path else none
  createSubdirectory t directory name :=
    let path := directory.join name
    (.ok path,
      { t with directories := PathMap.insert path () t.directories, created := t.created + 1 })
  fileExists t path := t.files.contains path
  insertTextFile t directory name content :=
    let path := directory.join name
    (.ok path, { t with files := PathMap.insert path content t.files })
  removeFile t path := (.ok (), { t with files := t.files.erase path })

end MemoryTree

end Scaffold
