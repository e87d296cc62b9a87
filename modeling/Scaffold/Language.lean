import Scaffold.Path

/-!
The languages an entity class may be written in. A file's language is told by its extension,
whatever the case of its ASCII letters.
-/
namespace Scaffold

inductive Language
  | java
  | kotlin
  deriving DecidableEq, Repr

namespace Language

def all : List Language := [java, kotlin]

def name : Language → String
  | java => "Java"
  | kotlin => "Kotlin"

def extensions : Language → List String
  | java => ["java"]
  | kotlin => ["kt", "kts"]

def ofExtension? (extension : String) : Option Language :=
  all.find? fun language => extension.toLower ∈ language.extensions

def ofPath? (path : Path) : Option Language :=
  path.extension?.bind ofExtension?

end Language

end Scaffold
