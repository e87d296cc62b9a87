import Scaffold.CommandLine

/-!
Runs the command line on the machine's own files. What the command may look at is read first; what
it has changed is written afterwards.
-/
namespace Scaffold

def spellingOf (l : Location) : String := "/" ++ "/".intercalate l

/-- The locations that a walk along some components comes through. -/
def visited (l : Location) : List Component → List Location
  | [] => [l]
  | .root :: cs => l :: visited [] cs
  | .current :: cs => l :: visited l cs
  | .parent :: cs => l :: visited l.dropLast cs
  | .normal name :: cs => l :: visited (l ++ [name]) cs

/-- The selected file, the explicit configuration file and those above the selected file. -/
def filesFor (here : Path) (i : CommandLine.Invocation) : List Path :=
  let file := i.file.map here.absolute
  let start := (file.bind Path.parent?).getD here
  file.toList ++ (i.options.config.map here.absolute).toList ++
    start.ancestors.map (·.join Config.fileName)

/-- A directory and those that a walk down from it comes through. -/
def descents (directory : Path) : List String → List Path
  | [] => [directory]
  | name :: names => directory :: descents (directory.join name) names

/-- The directories that artifacts go to. -/
def directoriesFor (here : Path) (i : CommandLine.Invocation) : List Path :=
  match (i.file.map here.absolute).bind fun file => file.parent?.bind Path.parent? with
  | none => []
  | some base =>
    Kind.all.flatMap fun k => descents base (ProjectTree.segments k.relativePath)

/-- Adds what stands at a location of the machine. -/
def withMachineEntry (disk : Disk) (l : Location) : IO Disk := do
  let path := System.mkFilePath [spellingOf l]
  if (disk.entry? l).isSome then return disk
  else if ← path.isDir then return disk.put l .directory
  else
    match ← (IO.FS.readBinFile path).toBaseIO with
    | .ok content => return disk.put l (.file content)
    | .error _ => return disk

/-- Adds what stands on the way to a path and at its end, and in the directory that it names. -/
def withMachinePath (disk : Disk) (path : Path) : IO Disk := do
  let way := visited [] path.components
  let disk ← way.foldlM withMachineEntry disk
  match way.getLast? with
  | none => return disk
  | some l =>
    let directory := System.mkFilePath [spellingOf l]
    if ← directory.isDir then
      let entries ← directory.readDir
      (entries.toList.map fun e => l ++ [e.fileName]).foldlM withMachineEntry disk
    else return disk

/-- Writes what differs from before, directories before what they hold. -/
def writeChanges (before after : Disk) : IO Unit := do
  for (l, _) in before.entries do
    if (after.entry? l).isNone then IO.FS.removeFile (spellingOf l)
  let changed := after.entries.filter fun (l, e) => before.entry? l ≠ some e
  for (l, e) in changed.mergeSort fun a b => a.1.length ≤ b.1.length do
    match e with
    | .directory => IO.FS.createDirAll (spellingOf l)
    | .file content => IO.FS.writeBinFile (spellingOf l) content

end Scaffold

open Scaffold in
def main (arguments : List String) : IO UInt32 := do
  let here : Path := ⟨(← IO.currentDir).toString⟩
  let paths :=
    match CommandLine.parse arguments with
    | .ok i => here :: filesFor here i ++ directoriesFor here i
    | .error _ => []
  let workingDirectory := ((visited [] here.components).getLast?).getD []
  let before ← paths.foldlM withMachinePath { here := workingDirectory }
  let result := CommandLine.run before arguments
  writeChanges before result.disk
  (← IO.getStdout).putStr result.stdout
  (← IO.getStderr).putStr (result.stderr ++ (result.report.map CommandLine.line).getD "")
  return UInt32.ofNat result.exitCode
