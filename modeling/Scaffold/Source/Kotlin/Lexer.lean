import Scaffold.Source.Lexeme

/-!
Lexemes of Kotlin, read one character at a time. A string is cut where code is inserted into it:
the parts before and behind are literals, and the code between the braces is read as code.
-/
namespace Scaffold.Source.Kotlin

/-- What the character before belongs to. -/
inductive Mode
  | start
  | blank
  | word
  | quotedName
  | dash
  | slash
  | lineComment
  /-- A block comment inside so many others. -/
  | blockComment (depth : Nat)
  | blockCommentStar (depth : Nat)
  | blockCommentSlash (depth : Nat)
  | quote
  | quoteQuote
  | string (kind : StringKind)
  | stringDollar (kind : StringKind)
  | stringEscape
  /-- So many quotes in a row inside a raw string. -/
  | rawQuotes (count : Nat)
  | character
  | characterEscape
  deriving DecidableEq, Repr

def isWordStart (c : Char) : Bool :=
  Text.isListedLetter c || c = '_' || c.isDigit

def isWordPart (c : Char) : Bool :=
  Text.isListedLetter c || c = '_' || Text.isDigit c

structure Lexer where
  mode : Mode := .start
  reading : Reading := {}
  /-- The insertions that are open, innermost first. -/
  insertions : List Insertion := []

namespace Lexer

/-- Reads a brace, which may end the code inserted into a string. -/
def brace (l : Lexer) (c : Char) : Lexer :=
  let r := l.reading.symbol c
  match l.insertions with
  | [] => ⟨.start, r, []⟩
  | i :: is =>
    if c = '\x7b' then ⟨.start, r, { i with braces := i.braces + 1 } :: is⟩
    else if i.braces = 0 then ⟨.string i.kind, r, is⟩
    else ⟨.start, r, { i with braces := i.braces - 1 } :: is⟩

/-- Reads the first character of a lexeme or of a gap. -/
def begin (l : Lexer) (c : Char) : Lexer :=
  let go (mode : Mode) : Lexer := { l with mode := mode, reading := l.reading.push c }
  if Text.isBlank c then go .blank
  else if isWordStart c then go .word
  else if c = '\x60' then go .quotedName
  else if c = '/' then go .slash
  else if c = '-' then go .dash
  else if c = '"' then go .quote
  else if c = '\'' then go .character
  else if c = '\x7b' || c = '\x7d' then brace l c
  else { l with mode := .start, reading := l.reading.symbol c }

/-- Reads on in a string. -/
def string (l : Lexer) (kind : StringKind) (c : Char) : Lexer :=
  let go (mode : Mode) : Lexer := { l with mode := mode, reading := l.reading.push c }
  if c = '$' then go (.stringDollar kind)
  else
    match kind with
    | .triple => if c = '"' then go (.rawQuotes 1) else go (.string .triple)
    | .single =>
      if c = '"' then { l with mode := .start, reading := (l.reading.push c).finish .quoted }
      else if c = '\n' then begin { l with reading := l.reading.finish .quoted } c
      else if c = '\\' then go .stringEscape
      else go (.string .single)

def step (l : Lexer) (c : Char) : Lexer :=
  let r := l.reading
  let go (mode : Mode) : Lexer := { l with mode := mode, reading := r.push c }
  let behind (shape : Shape) : Lexer := begin { l with reading := r.finish shape } c
  match l.mode with
  | .start => begin l c
  | .blank => if Text.isBlank c then go .blank else begin { l with reading := r.finishBlank } c
  | .word => if isWordPart c then go .word else behind .word
  | .quotedName =>
    if c = '\x60' then { l with mode := .start, reading := (r.push c).finish .word }
    else if c = '\n' then behind .symbol
    else go .quotedName
  | .dash =>
    if c = '>' then { l with mode := .start, reading := (r.push c).finish .symbol }
    else behind .symbol
  | .slash =>
    if c = '/' then go .lineComment
    else if c = '*' then go (.blockComment 0)
    else behind .symbol
  | .lineComment =>
    if c = '\n' then begin { l with reading := r.finishComment } c else go .lineComment
  | .blockComment depth =>
    if c = '*' then go (.blockCommentStar depth)
    else if c = '/' then go (.blockCommentSlash depth)
    else go (.blockComment depth)
  | .blockCommentStar depth =>
    if c = '/' then
      match depth with
      | 0 => { l with mode := .start, reading := (r.push c).finishComment }
      | depth + 1 => go (.blockComment depth)
    else if c = '*' then go (.blockCommentStar depth)
    else go (.blockComment depth)
  | .blockCommentSlash depth =>
    if c = '*' then go (.blockComment (depth + 1))
    else if c = '/' then go (.blockCommentSlash depth)
    else go (.blockComment depth)
  | .quote => if c = '"' then go .quoteQuote else string l .single c
  | .quoteQuote => if c = '"' then go (.string .triple) else behind .quoted
  | .string kind => string l kind c
  | .stringDollar kind =>
    if c = '\x7b' then
      { mode := .start
        reading := (r.finish .quoted).symbol c
        insertions := ⟨kind, 0⟩ :: l.insertions }
    else string l kind c
  | .stringEscape => go (.string .single)
  | .rawQuotes count =>
    if c = '"' then go (.rawQuotes (count + 1))
    else if 3 ≤ count then behind .quoted
    else string l .triple c
  | .character =>
    if c = '\'' then { l with mode := .start, reading := (r.push c).finish .quoted }
    else if c = '\n' then behind .quoted
    else if c = '\\' then go .characterEscape
    else go .character
  | .characterEscape => go .character

/-- The lexemes read when the text ends here. -/
def finish (l : Lexer) : List Lexeme :=
  let r := match l.mode with
    | .start | .blank | .lineComment | .blockComment _ | .blockCommentStar _
    | .blockCommentSlash _ => l.reading
    | .word => l.reading.finish .word
    | .dash | .slash | .quotedName => l.reading.finish .symbol
    | _ => l.reading.finish .quoted
  r.lexemes.reverse

end Lexer

/-- A first line that names an interpreter is no part of the text. -/
def withoutInterpreter : List Char → List Char
  | '#' :: '!' :: cs => cs.dropWhile (· ≠ '\n')
  | cs => cs

def lexemes (text : List Char) : List Lexeme :=
  ((withoutInterpreter (withoutMark text)).foldl Lexer.step {}).finish

end Scaffold.Source.Kotlin
