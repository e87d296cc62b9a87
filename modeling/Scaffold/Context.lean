import Scaffold.Artifact.Kind
import Scaffold.SourceRoots

/-!
Where artifacts go: the base package and the base directory, which is two levels above the file
of the entity class.
-/
namespace Scaffold

structure Context where
  basePackage : String
  baseDirectory : Option Path
  deriving DecidableEq, Repr

namespace Context

def ofFile (file : Path) (roots : SourceRoots) : Context :=
  let directory := file.parent?.bind Path.parent?
  ⟨roots.packageName? directory, directory⟩

def packageOf (c : Context) (k : Kind) : String :=
  c.basePackage ++ "." ++ k.subpackage

def qualifiedType (c : Context) (k : Kind) (className : String) : String :=
  c.packageOf k ++ "." ++ k.typeName className

end Context

end Scaffold
