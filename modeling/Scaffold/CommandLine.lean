import Scaffold.Codec
import Scaffold.CommandLine.Arguments
import Scaffold.Config

/-!
The command line over a disk: what it prints, how it exits and the disk it leaves.
-/
namespace Scaffold.CommandLine

/-- What went wrong, with its report when it is not told as a message. -/
inductive CommandError
  | failure (f : Failure)
  | config (e : ConfigError)
  deriving DecidableEq, Repr

/-- What `inspect` shows of a kind of artifact. -/
structure Planned where
  kind : Kind
  package : String
  fileName : String
  deriving DecidableEq, Repr

structure Inspection where
  entity : Entity
  basePackage : String
  baseDirectory : Option Path
  artifacts : List Planned
  deriving DecidableEq, Repr

structure Result where
  exitCode : Nat := 0
  stdout : String := ""
  stderr : String := ""
  /-- The report of an error that is not told as a message. -/
  report : Option String := none
  disk : Disk

def line (s : String) : String := s ++ "\n"

def version : String := "rest-scaffold 0.1.0"

def help : String :=
  "Generate a Spring REST slice from a Java or Kotlin entity class\n\n" ++
    "Usage: rest-scaffold [OPTIONS] <generate|inspect|completions|help>\n"

def messageJson (m : Message) : Json :=
  .object
    ([("level", Codec.encode m.level), ("title", .string m.title), ("message", .string m.text)] ++
      Codec.messageEntries m)

def messageText (json : Bool) (m : Message) : String :=
  line (if json then (messageJson m).compact else m.text)

/-- The words of one column have the width of the longest status. -/
def padded (s : String) : String :=
  s ++ String.ofList (List.replicate (11 - s.length) ' ')

def outcomeLine (o : Outcome) : String :=
  line ("  " ++ padded o.status.label ++ " " ++ o.path.spelling)

def reportText (json : Bool) (r : Report) : String :=
  if json then line ((Codec.encode r).pretty 0)
  else messageText false r.message ++ String.join (r.outcomes.map outcomeLine)

def plannedJson (p : Planned) : Json :=
  .object
    [("kind", Codec.encode p.kind), ("package", .string p.package),
     ("file_name", .string p.fileName)]

def inspectionJson (i : Inspection) : Json :=
  .object
    [("class", Codec.encode i.entity), ("base_package", .string i.basePackage),
     ("base_directory", Codec.encode i.baseDirectory),
     ("artifacts", .array (i.artifacts.map plannedJson))]

def plannedLine (p : Planned) : String :=
  line ("  " ++ p.package ++ "." ++
    String.ofList (Text.dropEndings ".java".toList p.fileName.toList))

def inspectionText (json : Bool) (i : Inspection) : String :=
  if json then line ((inspectionJson i).pretty 0)
  else
    line (i.entity.qualifiedName ++ " (" ++ i.entity.language.name ++ ")") ++
      String.join (i.entity.fields.map fun f => line ("  " ++ f.name ++ ": " ++ f.typeText)) ++
      line "" ++
      line ("base package: " ++ if i.basePackage = "" then "<none>" else i.basePackage) ++
      String.join (i.artifacts.map plannedLine)

/-- The working directory. -/
def workingDirectory (disk : Disk) : Path :=
  ⟨"/" ++ "/".intercalate disk.here⟩

/-- The selected file as an absolute path. -/
def selectedFile (disk : Disk) (i : Invocation) : Option Path :=
  i.file.map (workingDirectory disk).absolute

/-- The configuration for the selected file, or else for the working directory. -/
def configFor (disk : Disk) (i : Invocation) (file : Option Path) : Except CommandError Config :=
  let directory := (file.bind Path.parent?).getD (workingDirectory disk)
  (Config.discover disk i.options.config directory).mapError .config

/-- Roots on the command line win over configured ones. -/
def rootsFor (disk : Disk) (i : Invocation) (config : Config) : Option SourceRoots :=
  let roots :=
    if i.options.roots = [] then config.sourceRoots
    else i.options.roots.map (workingDirectory disk).absolute
  if roots = [] then none else some ⟨roots⟩

def settingsFor (disk : Disk) (i : Invocation) (config : Config) : Settings where
  roots := rootsFor disk i config
  policy := (i.options.policy.or config.onCollision).getD .error
  strictTypes := i.options.strictTypes || config.strictTypes.getD false
  dryRun := i.options.dryRun || config.dryRun.getD false

def readSource (disk : Disk) (path : Path) : Except String String :=
  (disk.readText path).mapError DiskError.message

def generate (disk : Disk) (i : Invocation) : Except CommandError Report × Disk :=
  let file := selectedFile disk i
  match configFor disk i file with
  | .error e => (.error e, disk)
  | .ok config =>
    let scaffolder : Scaffolder Disk := { tree := disk, settings := settingsFor disk i config }
    let done := scaffolder.run (readSource disk) file
    (done.1.mapError .failure, done.2.tree)

def inspect (disk : Disk) (i : Invocation) : Except CommandError Inspection := do
  let file := selectedFile disk i
  let config ← configFor disk i file
  let settings := settingsFor disk i config
  match file with
  | none => .error (.failure .noFileSelected)
  | some path =>
    let source ← (SourceFile.open? (readSource disk) path).mapError .failure
    let entity ← (source.resolve settings.strictTypes).mapError .failure
    let context := Context.ofFile path (Scaffolder.rootsFor settings path)
    .ok
      { entity := entity
        basePackage := context.basePackage
        baseDirectory := context.baseDirectory
        artifacts := Kind.all.map fun k => ⟨k, context.packageOf k, k.fileName entity.name⟩ }

def failed (json : Bool) (e : CommandError) (disk : Disk) : Result :=
  match e with
  | .failure f =>
    { exitCode := 1, stderr := messageText json (Message.ofFailure f), disk := disk }
  | .config e => { exitCode := 1, report := some e.message, disk := disk }

def invoke (disk : Disk) (i : Invocation) : Result :=
  let json := i.options.json
  match i.command with
  | .completions => { disk := disk }
  | .generate =>
    match generate disk i with
    | (.ok report, disk) => { stdout := reportText json report, disk := disk }
    | (.error e, disk) => failed json e disk
  | .inspect =>
    match inspect disk i with
    | .ok inspection => { stdout := inspectionText json inspection, disk := disk }
    | .error e => failed json e disk

def run (disk : Disk) (arguments : List String) : Result :=
  match parse arguments with
  | .ok i => invoke disk i
  | .error .help => { stdout := help, disk := disk }
  | .error .version => { stdout := line version, disk := disk }
  | .error .usage => { exitCode := 2, stderr := help, disk := disk }

end Scaffold.CommandLine
