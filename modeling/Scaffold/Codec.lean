import Scaffold.Json
import Scaffold.Scaffolder

/-!
Written forms of the library's values. A record is an object with one entry for each of its parts;
it is also read from the array of its parts. Unknown entries are ignored, a known one may not be
repeated, and only an optional directory may be missing. A plain name is also read from an object
that maps it to null.
-/
namespace Scaffold

class Codec (α : Type) where
  encode : α → Json
  decode? : Json → Option α

namespace Codec

/-- The parts of a record in the order of their names. -/
def parts? (names : List String) : Json → Option (List (Option Json))
  | .object entries => names.mapM (Json.value? entries)
  | .array items => if items.length = names.length then some (items.map some) else none
  | _ => none

/-- A part that has to be there. -/
def part? {α : Type} [Codec α] (part : Option Json) : Option α :=
  part.bind decode?

/-- A part that counts as null when it is missing. -/
def optional? {α : Type} [Codec α] (part : Option Json) : Option α :=
  decode? (part.getD .null)

/-- One of some values by its name. -/
def named? {α : Type} (values : List α) (name : α → String) : Json → Option α
  | .string s => values.find? (name · = s)
  | .object [(s, .null)] => values.find? (name · = s)
  | _ => none

instance : Codec String where
  encode := .string
  decode?
    | .string s => some s
    | _ => none

instance : Codec Bool where
  encode := .bool
  decode?
    | .bool b => some b
    | _ => none

instance : Codec Path where
  encode p := .string p.spelling
  decode?
    | .string s => some ⟨s⟩
    | _ => none

instance {α : Type} [Codec α] : Codec (Option α) where
  encode
    | none => .null
    | some a => encode a
  decode?
    | .null => some none
    | j => (decode? j).map some

instance {α : Type} [Codec α] : Codec (List α) where
  encode as := .array (as.map encode)
  decode?
    | .array items => items.mapM decode?
    | _ => none

instance : Codec Language where
  encode l := .string l.name
  decode? := named? Language.all Language.name

instance : Codec Kind where
  encode k := .string k.label
  decode? := named? Kind.all Kind.label

instance : Codec CollisionPolicy where
  encode p := .string p.label
  decode? := named? CollisionPolicy.all CollisionPolicy.label

instance : Codec Status where
  encode s := .string s.label
  decode? := named? Status.all Status.label

instance : Codec Level where
  encode l := .string l.label
  decode? := named? [.info, .error] Level.label

/-- The written name of a phase is capitalised. -/
def phaseName : Phase → String
  | .idle => "Idle"
  | .generating => "Generating"

instance : Codec Phase where
  encode p := .string (phaseName p)
  decode? := named? Phase.all phaseName

instance : Codec Field where
  encode f := .object [("name", encode f.name), ("type_text", encode f.typeText)]
  decode? j := do
    match ← parts? ["name", "type_text"] j with
    | [name, typeText] => return ⟨← part? name, ← part? typeText⟩
    | _ => none

instance : Codec Entity where
  encode e :=
    .object
      [("name", encode e.name), ("qualified_name", encode e.qualifiedName),
       ("fields", encode e.fields), ("language", encode e.language)]
  decode? j := do
    match ← parts? ["name", "qualified_name", "fields", "language"] j with
    | [name, qualifiedName, fields, language] =>
      return ⟨← part? name, ← part? qualifiedName, ← part? fields, ← part? language⟩
    | _ => none

instance : Codec SourceRoots where
  encode r := .object [("roots", encode r.roots)]
  decode? j := do
    match ← parts? ["roots"] j with
    | [roots] => return ⟨← part? roots⟩
    | _ => none

instance : Codec Context where
  encode c :=
    .object [("base_package", encode c.basePackage), ("base_directory", encode c.baseDirectory)]
  decode? j := do
    match ← parts? ["base_package", "base_directory"] j with
    | [basePackage, baseDirectory] => return ⟨← part? basePackage, ← optional? baseDirectory⟩
    | _ => none

instance : Codec Artifact where
  encode a :=
    .object
      [("kind", encode a.kind), ("package", encode a.package),
       ("relative_path", encode a.relativePath), ("file_name", encode a.fileName),
       ("content", encode a.content)]
  decode? j := do
    match ← parts? ["kind", "package", "relative_path", "file_name", "content"] j with
    | [kind, package, relativePath, fileName, content] =>
      return ⟨← part? kind, ← part? package, ← part? relativePath, ← part? fileName,
        ← part? content⟩
    | _ => none

instance : Codec Outcome where
  encode o :=
    .object [("kind", encode o.kind), ("path", encode o.path), ("status", encode o.status)]
  decode? j := do
    match ← parts? ["kind", "path", "status"] j with
    | [kind, path, status] => return ⟨← part? kind, ← part? path, ← part? status⟩
    | _ => none

instance : Codec Report where
  encode r :=
    .object
      [("class", encode r.entity), ("base_package", encode r.basePackage),
       ("base_directory", encode r.baseDirectory), ("dry_run", encode r.dryRun),
       ("artifacts", encode r.outcomes)]
  decode? j := do
    match ← parts? ["class", "base_package", "base_directory", "dry_run", "artifacts"] j with
    | [entity, basePackage, baseDirectory, dryRun, outcomes] =>
      return ⟨← part? entity, ← part? basePackage, ← optional? baseDirectory, ← part? dryRun,
        ← part? outcomes⟩
    | _ => none

def messageEntries : Message → List (String × Json)
  | .noFileSelected => [("kind", .string "no_file_selected")]
  | .noClassFound => [("kind", .string "no_class_found")]
  | .generating className =>
    [("kind", .string "generating"), ("class_name", .string className)]
  | .failed reason => [("kind", .string "failed"), ("reason", .string reason)]

/-- A message whose kind has been read, from its other parts. -/
def messageOfKind? (kind : String) (others : Json) : Option Message :=
  if kind = "no_file_selected" then (parts? [] others).map fun _ => .noFileSelected
  else if kind = "no_class_found" then (parts? [] others).map fun _ => .noClassFound
  else if kind = "generating" then do
    match ← parts? ["class_name"] others with
    | [className] => return .generating (← part? className)
    | _ => none
  else if kind = "failed" then do
    match ← parts? ["reason"] others with
    | [reason] => return .failed (← part? reason)
    | _ => none
  else none

instance : Codec Message where
  encode m := .object (messageEntries m)
  decode?
    | .object entries => do
      let kind : String ← part? (← Json.value? entries "kind")
      messageOfKind? kind (.object entries)
    | .array (kind :: others) => do
      let kind : String ← decode? kind
      messageOfKind? kind (.array others)
    | _ => none

end Codec

end Scaffold
