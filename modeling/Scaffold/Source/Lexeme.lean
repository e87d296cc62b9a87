import Scaffold.Text.Blank
import Scaffold.Text.Letter

/-!
Source texts are read as lexemes, each with the blanks and comments that stand in front of it. No
character is lost: the lexemes in order, with their gaps, spell the text up to the last lexeme.
-/
namespace Scaffold.Source

/-- What separates lexemes. -/
inductive Trivia
  | blank (text : List Char)
  | comment (text : List Char)
  deriving DecidableEq, Repr

namespace Trivia

def chars : Trivia → List Char
  | blank text => text
  | comment text => text

def hasLineBreak : Trivia → Bool
  | blank text => text.any fun c => c = '\n' || c = '\r'
  | comment _ => false

def comment? : Trivia → Option (List Char)
  | blank _ => none
  | comment text => some text

end Trivia

/-- A string literal, between one quote or between three. -/
inductive StringKind
  | single
  | triple
  deriving DecidableEq, Repr

/-- Code inserted into a string, with the number of braces open in it. -/
structure Insertion where
  kind : StringKind
  braces : Nat
  deriving DecidableEq, Repr

inductive Shape
  /-- Names, keywords and numbers. -/
  | word
  /-- A literal between quotes, or in Kotlin a part of one. -/
  | quoted
  /-- A string of Java, or the part of one that code inserted into it leaves in front or behind:
  whether it begins with the quotes in front, and whether it ends with those behind. -/
  | string (kind : StringKind) (opens closes : Bool)
  /-- Any other single character, an arrow, or in Java a decrement. -/
  | symbol
  deriving DecidableEq, Repr

structure Lexeme where
  gap : List Trivia
  shape : Shape
  text : String
  deriving DecidableEq, Repr

namespace Lexeme

/-- A line break stands in front. -/
def startsLine (l : Lexeme) : Bool :=
  l.gap.any Trivia.hasLineBreak

/-- The first comment in front. -/
def comment? (l : Lexeme) : Option (List Char) :=
  l.gap.findSome? Trivia.comment?

def gapChars (l : Lexeme) : List Char :=
  l.gap.flatMap Trivia.chars

end Lexeme

/-- What has been read so far, newest first: the characters of the lexeme or the trivia that is
being read, the trivia in front of it, and the finished lexemes. -/
structure Reading where
  current : List Char := []
  gap : List Trivia := []
  lexemes : List Lexeme := []

namespace Reading

def push (r : Reading) (c : Char) : Reading :=
  { r with current := c :: r.current }

/-- Finishes the characters read as one lexeme. -/
def finish (r : Reading) (shape : Shape) : Reading :=
  { lexemes := ⟨r.gap.reverse, shape, String.ofList r.current.reverse⟩ :: r.lexemes }

def finishBlank (r : Reading) : Reading :=
  { r with current := [], gap := .blank r.current.reverse :: r.gap }

def finishComment (r : Reading) : Reading :=
  { r with current := [], gap := .comment r.current.reverse :: r.gap }

/-- A lexeme of one character. -/
def symbol (r : Reading) (c : Char) : Reading :=
  (r.push c).finish .symbol

end Reading

/-- A byte order mark in front of a text is no part of it. -/
def withoutMark : List Char → List Char
  | c :: cs => if c = '\uFEFF' then cs else c :: cs
  | [] => []

end Scaffold.Source
