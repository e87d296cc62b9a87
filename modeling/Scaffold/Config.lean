import Scaffold.Config.Reader
import Scaffold.Transaction
import Scaffold.Tree.Disk

/-!
The configuration file of a project. It is searched for upwards from a directory; the source roots
it names are relative to the directory it stands in.
-/
namespace Scaffold

structure Config where
  sourceRoots : List Path := []
  onCollision : Option CollisionPolicy := none
  strictTypes : Option Bool := none
  dryRun : Option Bool := none
  deriving DecidableEq, Repr

inductive ConfigError
  | unreadable (path : Path)
  | invalid (path : Path)
  deriving DecidableEq, Repr

def ConfigError.message : ConfigError → String
  | unreadable path => "Failed to read config " ++ Failure.quote path.spelling
  | invalid path => "Invalid config " ++ Failure.quote path.spelling

namespace Config

def fileName : String := "rest-scaffold.toml"

def truth? : Value → Option Bool
  | .truth b => some b
  | _ => none

def path? : Value → Option Path
  | .text s => some ⟨s⟩
  | _ => none

def paths? : Value → Option (List Path)
  | .list items => items.mapM path?
  | _ => none

/-- A policy is a text, or a table that maps it to nothing. -/
def policy? : Value → Option CollisionPolicy
  | .text s => CollisionPolicy.all.find? (·.label = s)
  | .table [(s, .table [])] | .table [(s, .list [])] => CollisionPolicy.all.find? (·.label = s)
  | _ => none

/-- Sets one key; any key but those of the configuration is refused. -/
def set? (c : Config) (key : String) (value : Value) : Option Config :=
  if key = "source-roots" then (paths? value).map fun roots => { c with sourceRoots := roots }
  else if key = "on-collision" then
    (policy? value).map fun policy => { c with onCollision := some policy }
  else if key = "strict-types" then (truth? value).map fun b => { c with strictTypes := some b }
  else if key = "dry-run" then (truth? value).map fun b => { c with dryRun := some b }
  else none

def ofEntries? (entries : List (String × Value)) : Option Config :=
  entries.foldlM (fun c entry => c.set? entry.1 entry.2) {}

/-- Reads relative source roots in the directory of the file. -/
def inDirectoryOf (c : Config) (file : Path) : Config :=
  match file.parent? with
  | none => c
  | some directory =>
    { c with
      sourceRoots := c.sourceRoots.map fun root =>
        if root.isAbsolute then root else directory.joinPath root }

def load (disk : Disk) (file : Path) : Except ConfigError Config :=
  match disk.readText file with
  | .error _ => .error (.unreadable file)
  | .ok document =>
    match (read? document).bind ofEntries? with
    | none => .error (.invalid file)
    | some config => .ok (config.inDirectoryOf file)

/-- The nearest configuration file in the directory or above it. -/
def find? (disk : Disk) (directory : Path) : Option Path :=
  (directory.ancestors.map (·.join fileName)).find? disk.isFile

/-- An explicit file wins; without any file the configuration is empty. -/
def discover (disk : Disk) (explicit : Option Path) (directory : Path) :
    Except ConfigError Config :=
  match explicit with
  | some file => load disk file
  | none =>
    match find? disk directory with
    | some file => load disk file
    | none => .ok {}

end Config

end Scaffold
