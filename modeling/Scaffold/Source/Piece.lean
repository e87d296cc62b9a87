import Scaffold.Source.Lexeme

/-!
Lexemes grouped by their brackets. A bracket that is never closed is closed where an outer one
closes or at the end of the text; a closing bracket that nothing opens stands for itself.
-/
namespace Scaffold.Source

inductive Piece
  | lexeme (l : Lexeme)
  | group (opening : Lexeme) (inner : List Piece) (closing : Option Lexeme)
  deriving Repr

namespace Piece

def first : Piece → Lexeme
  | lexeme l => l
  | group opening _ _ => opening

def startsLine (p : Piece) : Bool :=
  p.first.startsLine

def word? : Piece → Option String
  | lexeme l => if l.shape = .word then some l.text else none
  | group .. => none

def isWord (p : Piece) (text : String) : Bool :=
  p.word? = some text

def isSymbol : Piece → Char → Bool
  | lexeme l, c => l.shape = .symbol && l.text = c.toString
  | group .., _ => false

def isArrow : Piece → Bool
  | lexeme l => l.shape = .symbol && l.text = "->"
  | group .. => false

/-- What stands between brackets that are opened by the given one. -/
def group? : Piece → Char → Option (List Piece)
  | lexeme _, _ => none
  | group opening inner _, c => if opening.text = c.toString then some inner else none

def isGroup (p : Piece) (c : Char) : Bool :=
  (p.group? c).isSome

def isClosed : Piece → Bool
  | lexeme _ => true
  | group _ _ closing => closing.isSome

def lexemeChars (l : Lexeme) : List Char :=
  l.gapChars ++ l.text.toList

mutual

/-- The characters of a piece with those of the gap in front of it. -/
def chars : Piece → List Char
  | lexeme l => lexemeChars l
  | group opening inner closing =>
    lexemeChars opening ++ charsOf inner ++ (closing.map lexemeChars).getD []

def charsOf : List Piece → List Char
  | [] => []
  | p :: ps => p.chars ++ charsOf ps

end

/-- The source text of some pieces, from the first lexeme to the last. -/
def spell (ps : List Piece) : String :=
  match ps with
  | [] => ""
  | p :: _ => String.ofList ((charsOf ps).drop p.first.gapChars.length)

def closerOf (opening : String) : String :=
  if opening = "(" then ")" else if opening = "[" then "]" else "\x7d"

/-- An open bracket with the pieces that stand before it, newest first. -/
structure Frame where
  opening : Lexeme
  before : List Piece

/-- The open brackets, innermost first, and the pieces read since the last of them, newest
first. -/
structure Nesting where
  frames : List Frame := []
  current : List Piece := []

namespace Nesting

def isOpener (l : Lexeme) : Bool :=
  l.shape = .symbol && (l.text = "(" || l.text = "[" || l.text = "\x7b")

def isCloser (l : Lexeme) : Bool :=
  l.shape = .symbol && (l.text = ")" || l.text = "]" || l.text = "\x7d")

/-- Closes the brackets from the innermost up to the one that fits. -/
def close (closing : Lexeme) : List Frame → List Piece → Nesting
  | [], current => ⟨[], current⟩
  | frame :: frames, current =>
    if closerOf frame.opening.text = closing.text then
      ⟨frames, group frame.opening current.reverse (some closing) :: frame.before⟩
    else close closing frames (group frame.opening current.reverse none :: frame.before)

def add (n : Nesting) (l : Lexeme) : Nesting :=
  if isOpener l then ⟨⟨l, n.current⟩ :: n.frames, []⟩
  else if isCloser l && n.frames.any (closerOf ·.opening.text = l.text) then
    close l n.frames n.current
  else { n with current := lexeme l :: n.current }

/-- Closes all brackets at the end of the text. -/
def finish : List Frame → List Piece → List Piece
  | [], current => current.reverse
  | frame :: frames, current =>
    finish frames (group frame.opening current.reverse none :: frame.before)

end Nesting

def ofLexemes (ls : List Lexeme) : List Piece :=
  let n := ls.foldl Nesting.add {}
  Nesting.finish n.frames n.current

/-- A `<` and what follows it is a list of type arguments: nothing but types up to the `>` that
closes it. The number counts the open angles. -/
def typeArgumentsFollow : Nat → List Piece → Bool
  | _, [] => false
  | depth, p :: ps =>
    if p.isSymbol '<' then typeArgumentsFollow (depth + 1) ps
    else if p.isSymbol '>' then
      if depth ≤ 1 then true else typeArgumentsFollow (depth - 1) ps
    else if p.word?.isSome || p.isGroup '(' || p.isGroup '[' || p.isArrow ||
        [',', '.', '?', '&', '@', '*'].any p.isSymbol then
      typeArgumentsFollow depth ps
    else false

/-- The pieces behind a balanced list of angles, whose first `<` has been read already when the
depth is positive. -/
def skipAngles : Nat → List Piece → List Piece
  | _, [] => []
  | 0, p :: ps => if p.isSymbol '<' then skipAngles 1 ps else p :: ps
  | depth + 1, p :: ps =>
    if p.isSymbol '<' then skipAngles (depth + 2) ps
    else if p.isSymbol '>' then
      match depth with
      | 0 => ps
      | depth + 1 => skipAngles (depth + 1) ps
    else skipAngles (depth + 1) ps

/-- Cuts at the commas that stand outside type arguments. The number counts the open angles. -/
def splitCommas : Nat → List Piece → List (List Piece)
  | _, [] => [[]]
  | depth, p :: ps =>
    let deeper :=
      if p.isSymbol '<' && (depth != 0 || typeArgumentsFollow 1 ps) then depth + 1
      else if p.isSymbol '>' then depth - 1
      else depth
    if p.isSymbol ',' && depth == 0 then [] :: splitCommas 0 ps
    else
      match splitCommas deeper ps with
      | [] => [[p]]
      | part :: parts => (p :: part) :: parts

/-- The names in front with dots between them. The pieces taken so far are given, newest first. -/
def qualifiedName (isName : Piece → Bool) (taken : List Piece) : List Piece → List Piece
  | [] => taken.reverse
  | p :: ps =>
    match taken with
    | [] => if isName p then qualifiedName isName [p] ps else []
    | last :: before =>
      if last.isSymbol '.' then
        if isName p then qualifiedName isName (p :: taken) ps else before.reverse
      else if p.isSymbol '.' then qualifiedName isName (p :: taken) ps
      else taken.reverse

end Piece

end Scaffold.Source
