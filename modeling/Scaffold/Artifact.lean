import Scaffold.Artifact.Template

/-!
The artifacts of an entity: seven source texts, each with the package it declares and the place
and file name it goes to.
-/
namespace Scaffold

structure Artifact where
  kind : Kind
  package : String
  relativePath : String
  fileName : String
  content : String
  deriving DecidableEq, Repr

namespace Artifact

def ofKind (e : Entity) (c : Context) (k : Kind) : Artifact where
  kind := k
  package := c.packageOf k
  relativePath := k.relativePath
  fileName := k.fileName e.name
  content := (Template.ofKind e c k).render (c.packageOf k)

/-- All artifacts of the entity in the order of the kinds. -/
def generateAll (e : Entity) (c : Context) : List Artifact :=
  Kind.all.map (ofKind e c)

end Artifact

end Scaffold
