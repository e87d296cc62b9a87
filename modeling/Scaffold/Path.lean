import Scaffold.Text.Blank

/-!
Paths as they are spelled, read component by component. Two spellings may name the same place:
repeated slashes, trailing slashes and inner `.` segments are no components, while a leading `.`
and every `..` are kept.
-/
namespace Scaffold

inductive Component
  | root
  | current
  | parent
  | normal (name : String)
  deriving DecidableEq, Repr

namespace Component

def spelling : Component → String
  | root => "/"
  | current => "."
  | parent => ".."
  | normal name => name

def rank : Component → Nat
  | root => 0
  | current => 1
  | parent => 2
  | normal _ => 3

/-- Names come last and are compared by code points. -/
def compare : Component → Component → Ordering
  | normal a, normal b => Ord.compare a b
  | a, b => Ord.compare a.rank b.rank

end Component

/-- The spelling is what a path prints as. -/
structure Path where
  spelling : String
  deriving DecidableEq, Repr

namespace Path

/-- The component that a segment behind the first slash stands for. -/
def segmentComponent (segment : List Char) : Option Component :=
  if segment = [] ∨ segment = ['.'] then none
  else if segment = ['.', '.'] then some .parent
  else some (.normal (String.ofList segment))

def leadComponents (cs : List Char) : List Component :=
  match cs with
  | '/' :: _ => [.root]
  | ['.'] => [.current]
  | '.' :: '/' :: _ => [.current]
  | _ => []

def componentsOf (cs : List Char) : List Component :=
  leadComponents cs ++ (Text.splitOn '/' cs).filterMap segmentComponent

def components (p : Path) : List Component :=
  componentsOf p.spelling.toList

/-- Both paths have the same components. -/
def same (p q : Path) : Bool :=
  p.components = q.components

def compareComponents : List Component → List Component → Ordering
  | [], [] => .eq
  | [], _ :: _ => .lt
  | _ :: _, [] => .gt
  | a :: as, b :: bs => (a.compare b).then (compareComponents as bs)

/-- The order of the component lists. -/
def compare (p q : Path) : Ordering :=
  compareComponents p.components q.components

def isAbsolute (p : Path) : Bool :=
  p.spelling.toList.head? = some '/'

/-- An absolute `q` replaces `p`; any other is written behind it, with one slash between. -/
def join (p : Path) (q : String) : Path :=
  if q.toList.head? = some '/' then ⟨q⟩
  else
    match p.spelling.toList.getLast? with
    | none => ⟨q⟩
    | some '/' => ⟨p.spelling ++ q⟩
    | some _ => ⟨p.spelling ++ "/" ++ q⟩

def joinPath (p q : Path) : Path :=
  p.join q.spelling

/-- The segments up to the one that holds the last of so many components. -/
def takeSegments : Nat → List (List Char) → List (List Char)
  | 0, _ | _, [] => []
  | count + 1, segment :: segments =>
    match segmentComponent segment with
    | none => segment :: takeSegments (count + 1) segments
    | some _ => segment :: takeSegments count segments

/-- The beginning of the spelling that ends with the last of so many components. -/
def upTo (p : Path) (count : Nat) : Path :=
  let segments := Text.splitOn '/' p.spelling.toList
  let front : List Char :=
    match count, leadComponents p.spelling.toList, segments with
    | 0, _, _ => []
    | 1, [.root], _ => ['/']
    | count + 1, _ :: _, first :: rest =>
      ['/'].intercalate (first :: takeSegments count rest)
    | count, _, segments => ['/'].intercalate (takeSegments count segments)
  ⟨String.ofList front⟩

/-- The path without its last component; the root and the empty path have no parent. -/
def parent? (p : Path) : Option Path :=
  match p.components.getLast? with
  | none | some .root => none
  | some _ => some (p.upTo (p.components.length - 1))

/-- The path itself, then its parents, nearest first. Nothing is above the root. -/
def ancestors (p : Path) : List Path :=
  let counts := (List.range p.components.length).filter fun count => count ≠ 0 || !p.isAbsolute
  p :: counts.reverse.map p.upTo

def fileName? (p : Path) : Option String :=
  match p.components.getLast? with
  | some (.normal name) => some name
  | _ => none

/-- A name cut at its last dot. A dot that begins the name cuts nothing. -/
def cutName (name : List Char) : List Char × Option (List Char) :=
  let ending := (name.reverse.takeWhile (· ≠ '.')).reverse
  let stem := name.take (name.length - ending.length - 1)
  if '.' ∈ name ∧ stem ≠ [] then (stem, some ending) else (name, none)

def extension? (p : Path) : Option String :=
  p.fileName?.bind fun name => (cutName name.toList).2.map String.ofList

/-- Replaces the extension of the file name, or adds one. A path without a file name stays. -/
def withExtension (p : Path) (extension : String) : Path :=
  match p.fileName? with
  | none => p
  | some name =>
    let whole := (p.upTo p.components.length).spelling.toList
    let cut := name.length - (cutName name.toList).1.length
    ⟨String.ofList (whole.take (whole.length - cut)) ++ "." ++ extension⟩

/-- The place a non-empty path names when read in the directory `here`, without `.` segments. -/
def absolute (here p : Path) : Path :=
  let cs := p.spelling.toList
  let start : Path × List Component :=
    match cs with
    | '/' :: '/' :: '/' :: _ => (⟨""⟩, p.components)
    | '/' :: '/' :: _ => (⟨"//"⟩, p.components.drop 1)
    | '/' :: _ => (⟨""⟩, p.components)
    | _ => (here, p.components.dropWhile (· = .current))
  let whole := start.2.foldl (fun q c => q.join c.spelling) start.1
  if cs.getLast? = some '/' then whole.join "" else whole

end Path

end Scaffold
