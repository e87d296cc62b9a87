import Scaffold.Failure
import Scaffold.Source.Java.Reader
import Scaffold.Source.Kotlin.Reader

/-!
A source file and the entity class that it declares.
-/
namespace Scaffold

structure SourceFile where
  path : Path
  language : Language
  text : String
  deriving DecidableEq, Repr

namespace SourceFile

open Source

def pieces (s : SourceFile) : List Piece :=
  Piece.ofLexemes <|
    match s.language with
    | .java => Java.lexemes s.text.toList
    | .kotlin => Kotlin.lexemes s.text.toList

def outline (s : SourceFile) : List Outline :=
  match s.language with
  | .java => Java.outline s.pieces
  | .kotlin => Kotlin.outline s.pieces

/-- The first class-like declaration. -/
def declaration? (s : SourceFile) : Option Declaration :=
  Outline.firstDeclaration? s.outline

def packageName? (s : SourceFile) : Option String :=
  match s.language with
  | .java => Java.packageName? s.pieces
  | .kotlin => Kotlin.packageName? s.pieces

/-- The entity that the file declares. When types are strict, every field has to declare one. -/
def resolve (s : SourceFile) (strict : Bool) : Except Failure Entity :=
  match s.declaration? with
  | none => .error (.noClass s.path)
  | some d =>
    let entity : Entity :=
      ⟨d.name, Entity.qualify (s.packageName?.getD "") d.name, d.fields, s.language⟩
    match strict, d.fields.find? Field.isUnresolved with
    | true, some field => .error (.untypedField d.name field.name)
    | _, _ => .ok entity

/-- Opens a file of a supported language; the language is looked at before the content. -/
def open? (read : Path → Except String String) (path : Path) : Except Failure SourceFile :=
  match Language.ofPath? path with
  | none => .error (.unsupportedLanguage path)
  | some language =>
    match read path with
    | .ok text => .ok ⟨path, language, text⟩
    | .error reason => .error (.unreadable path reason)

end SourceFile

end Scaffold
