import Scaffold.Language

/-!
The entity class that every artifact is made from: its name and its fields with their types as
written in the source.
-/
namespace Scaffold

structure Field where
  name : String
  typeText : String
  deriving DecidableEq, Repr

namespace Field

/-- The type text of a field that declares no type. -/
def noType : String := "null"

def isUnresolved (f : Field) : Bool :=
  f.typeText = noType

end Field

structure Entity where
  name : String
  qualifiedName : String
  fields : List Field
  language : Language
  deriving DecidableEq, Repr

namespace Entity

def unresolved (e : Entity) : List String :=
  (e.fields.filter Field.isUnresolved).map Field.name

/-- A name behind its package, if there is one. -/
def qualify (package name : String) : String :=
  if package = "" then name else package ++ "." ++ name

end Entity

end Scaffold
