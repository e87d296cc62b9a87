import Scaffold.Tree

/-!
A disk of directories and regular files, with the working directory that relative paths are read
in. Entries are known by the names on the way to them from the root.
-/
namespace Scaffold

inductive Entry
  | directory
  | file (content : ByteArray)

instance : DecidableEq Entry
  | .directory, .directory => .isTrue rfl
  | .directory, .file _ => .isFalse (by simp)
  | .file _, .directory => .isFalse (by simp)
  | .file a, .file b => @decidable_of_decidable_of_iff (a = b) _ (a.decEq b) (by simp)

/-- Why the disk refuses a request. -/
inductive DiskError
  | notFound
  | deviceBusy
  | alreadyExists
  | notADirectory
  | isADirectory
  | nameTooLong
  | nulCharacter
  | invalidText
  deriving DecidableEq, Repr

def DiskError.message : DiskError → String
  | notFound => "No such file or directory (os error 2)"
  | deviceBusy => "Device or resource busy (os error 16)"
  | alreadyExists => "File exists (os error 17)"
  | notADirectory => "Not a directory (os error 20)"
  | isADirectory => "Is a directory (os error 21)"
  | nameTooLong => "File name too long (os error 36)"
  | nulCharacter => "file name contained an unexpected NUL byte"
  | invalidText => "stream did not contain valid UTF-8"

/-- The names on the way from the root. -/
abbrev Location := List String

structure Disk where
  entries : List (Location × Entry) := []
  here : Location := []

namespace Disk

/-- The root is always a directory. -/
def entry? (d : Disk) (l : Location) : Option Entry :=
  if l = [] then some .directory else (d.entries.find? (·.1 = l)).map Prod.snd

def remove (d : Disk) (l : Location) : Disk :=
  { d with entries := d.entries.filter (·.1 ≠ l) }

def put (d : Disk) (l : Location) (e : Entry) : Disk :=
  { d.remove l with entries := (l, e) :: (d.remove l).entries }

def longestName : Nat := 255

def longestPath : Nat := 4095

/-- Walks along the components. All places on the way have to be directories; the last need not
exist. -/
def walk (d : Disk) (l : Location) : List Component → Except DiskError Location
  | [] => .ok l
  | c :: cs =>
    match d.entry? l with
    | none => .error .notFound
    | some (.file _) => .error .notADirectory
    | some .directory =>
      match c with
      | .root => d.walk [] cs
      | .current => d.walk l cs
      | .parent => d.walk l.dropLast cs
      | .normal name =>
        if longestName < name.utf8ByteSize then .error .nameTooLong else d.walk (l ++ [name]) cs

/-- The spelling asks for a directory. -/
def endsInSlash (p : Path) : Bool :=
  p.spelling.toList.getLast? = some '/'

/-- The last segment is a dot behind a slash, which is one step more on the way. -/
def endsInDot (p : Path) : Bool :=
  ['/', '.'] <:+ Text.dropEndWhile (· = '/') p.spelling.toList

/-- The place that a path leads to. -/
def locate (d : Disk) (p : Path) : Except DiskError Location :=
  if '\x00' ∈ p.spelling.toList then .error .nulCharacter
  else if p.spelling = "" then .error .notFound
  else if longestPath < p.spelling.utf8ByteSize then .error .nameTooLong
  else d.walk d.here (p.components ++ if endsInDot p then [.current] else [])

/-- What stands at the place of a path. -/
def lookUp (d : Disk) (p : Path) : Except DiskError Entry := do
  let l ← d.locate p
  match d.entry? l with
  | none => .error .notFound
  | some .directory => .ok .directory
  | some (.file content) =>
    if endsInSlash p then .error .notADirectory else .ok (.file content)

def isDirectory (d : Disk) (p : Path) : Bool :=
  match d.lookUp p with
  | .ok .directory => true
  | _ => false

def isFile (d : Disk) (p : Path) : Bool :=
  match d.lookUp p with
  | .ok (.file _) => true
  | _ => false

def readText (d : Disk) (p : Path) : Except DiskError String := do
  match ← d.lookUp p with
  | .directory => .error .isADirectory
  | .file content =>
    match String.fromUTF8? content with
    | some text => .ok text
    | none => .error .invalidText

/-- Adds one directory to a directory. -/
def createDirectory (d : Disk) (p : Path) : Except DiskError Disk := do
  let l ← d.locate p
  match d.entry? l with
  | some _ => .error .alreadyExists
  | none => .ok (d.put l .directory)

/-- Sets the content of a file, which is created if it is missing. -/
def writeFile (d : Disk) (p : Path) (content : ByteArray) : Except DiskError Disk := do
  let l ← d.locate p
  match d.entry? l with
  | some .directory => .error .isADirectory
  | some (.file _) =>
    if endsInSlash p then .error .notADirectory else .ok (d.put l (.file content))
  | none => if endsInSlash p then .error .isADirectory else .ok (d.put l (.file content))

def deleteFile (d : Disk) (p : Path) : Except DiskError Disk := do
  let l ← d.locate p
  match d.entry? l with
  | none => .error .notFound
  | some .directory => .error .isADirectory
  | some (.file _) =>
    if endsInSlash p then .error .notADirectory else .ok (d.remove l)

/-- Moves a file to a place where no directory stands. -/
def moveFile (d : Disk) (source target : Path) : Except DiskError Disk := do
  let content ← match ← d.lookUp source with
    | .directory => .error .isADirectory
    | .file content => .ok content
  let origin ← d.locate source
  let l ← d.locate target
  if endsInDot target || target.components.getLast? = some .parent then .error .deviceBusy
  else if endsInSlash target then .error .notADirectory
  else
    match d.entry? l with
    | some .directory => .error .isADirectory
    | _ => .ok ((d.remove origin).put l (.file content))

/-- Adds a directory with all directories above it. -/
def withDirectory (d : Disk) (p : Path) : Disk :=
  p.ancestors.reverse.foldl (fun d q => ((d.createDirectory q).toOption).getD d) d

/-- Adds a file with all directories above it. -/
def withFile (d : Disk) (p : Path) (content : ByteArray) : Disk :=
  let d := match p.parent? with
    | some parent => d.withDirectory parent
    | none => d
  ((d.writeFile p content).toOption).getD d

/-- The name under which a text is written before it replaces the file. -/
def temporary (p : Path) : Path :=
  p.withExtension "tmp"

/-- Writes a text beside its target and moves it there; when that fails, the text is removed. -/
def replaceFile (d : Disk) (p : Path) (text : String) : Except Failure Unit × Disk :=
  match d.writeFile (temporary p) text.toUTF8 with
  | .error e => (.error (.notWritten (temporary p) e.message), d)
  | .ok written =>
    match written.moveFile (temporary p) p with
    | .ok moved => (.ok (), moved)
    | .error e =>
      (.error (.notWritten p e.message),
        ((written.deleteFile (temporary p)).toOption).getD written)

instance : ProjectTree Disk where
  findSubdirectory d directory name :=
    let path := directory.join name
    if d.isDirectory path then some path else none
  createSubdirectory d directory name :=
    let path := directory.join name
    match d.createDirectory path with
    | .ok d => (.ok path, d)
    | .error e => (.error (.directoryNotCreated path e.message), d)
  fileExists d path := d.isFile path
  insertTextFile d directory name content :=
    let path := directory.join name
    let done := d.replaceFile path content
    (done.1.map fun _ => path, done.2)
  removeFile d path :=
    match d.deleteFile path with
    | .ok d => (.ok (), d)
    | .error e => (.error (.notWritten path e.message), d)

end Disk

end Scaffold
