import Scaffold.Source.Lexeme

/-!
Lexemes of Java, read one character at a time. A string is cut where code is inserted into it: the
part in front ends with the brace that opens the code, and the part behind begins with the brace
that closes it.
-/
namespace Scaffold.Source.Java

/-- What the character before belongs to. -/
inductive Mode
  | start
  | blank
  | word
  | dash
  | slash
  | lineComment
  | blockComment
  | blockCommentStar
  | quote
  | quoteQuote
  /-- Inside a string, in the part that opens it or behind inserted code. -/
  | string (kind : StringKind) (opens : Bool)
  | stringEscape (kind : StringKind) (opens : Bool)
  /-- Behind a quote inside a text block. -/
  | textBlockQuote (opens : Bool)
  | textBlockQuoteQuote (opens : Bool)
  | apostrophe
  | character
  | characterEscape
  deriving DecidableEq, Repr

/-- The shape of the lexeme that is being read, were the text to end. -/
def Mode.ending? : Mode → Option Shape
  | .start | .blank | .lineComment | .blockComment | .blockCommentStar => none
  | .word => some .word
  | .dash | .slash | .apostrophe | .character | .characterEscape => some .symbol
  | .quote => some (.string .single true false)
  | .quoteQuote => some (.string .single true true)
  | .string kind opens | .stringEscape kind opens => some (.string kind opens false)
  | .textBlockQuote opens | .textBlockQuoteQuote opens => some (.string .triple opens false)

def isWordStart (c : Char) : Bool :=
  Text.isIdentifierStart c || c = '_' || c = '$' || c.isDigit

def isWordPart (c : Char) : Bool :=
  Text.isIdentifierContinue c || c = '$' || c = '\u00A2'

structure Lexer where
  mode : Mode := .start
  reading : Reading := {}
  /-- The insertions that are open, innermost first. -/
  insertions : List Insertion := []

namespace Lexer

/-- Reads a brace, which may end the code inserted into a string. -/
def brace (l : Lexer) (c : Char) : Lexer :=
  let sign (is : List Insertion) : Lexer := ⟨.start, l.reading.symbol c, is⟩
  match l.insertions with
  | [] => sign []
  | i :: is =>
    if c = '\x7b' then sign ({ i with braces := i.braces + 1 } :: is)
    else if i.braces = 0 then ⟨.string i.kind false, l.reading.push c, is⟩
    else sign ({ i with braces := i.braces - 1 } :: is)

/-- Reads the first character of a lexeme or of a gap. -/
def begin (l : Lexer) (c : Char) : Lexer :=
  let go (mode : Mode) : Lexer := { l with mode := mode, reading := l.reading.push c }
  if Text.isBlank c then go .blank
  else if isWordStart c then go .word
  else if c = '/' then go .slash
  else if c = '-' then go .dash
  else if c = '"' then go .quote
  else if c = '\'' then go .apostrophe
  else if c = '\x7b' || c = '\x7d' then brace l c
  else { l with mode := .start, reading := l.reading.symbol c }

/-- Reads on in a string, over line ends as well. -/
def string (l : Lexer) (kind : StringKind) (opens : Bool) (c : Char) : Lexer :=
  let go (mode : Mode) : Lexer := { l with mode := mode, reading := l.reading.push c }
  if c = '\\' then go (.stringEscape kind opens)
  else if c = '"' then
    match kind with
    | .single =>
      { l with mode := .start, reading := (l.reading.push c).finish (.string .single opens true) }
    | .triple => go (.textBlockQuote opens)
  else go (.string kind opens)

/-- Reads on in a character literal, which no line end is part of. -/
def character (l : Lexer) (c : Char) : Lexer :=
  let go (mode : Mode) : Lexer := { l with mode := mode, reading := l.reading.push c }
  if c = '\n' then begin { l with reading := l.reading.finish .symbol } c
  else if c = '\\' then go .characterEscape
  else go .character

def step (l : Lexer) (c : Char) : Lexer :=
  let r := l.reading
  let go (mode : Mode) : Lexer := { l with mode := mode, reading := r.push c }
  let close (shape : Shape) : Lexer :=
    { l with mode := .start, reading := (r.push c).finish shape }
  let behind (shape : Shape) : Lexer := begin { l with reading := r.finish shape } c
  match l.mode with
  | .start => begin l c
  | .blank => if Text.isBlank c then go .blank else begin { l with reading := r.finishBlank } c
  | .word => if isWordPart c then go .word else behind .word
  | .dash => if c = '>' || c = '-' then close .symbol else behind .symbol
  | .slash =>
    if c = '/' then go .lineComment
    else if c = '*' then go .blockComment
    else behind .symbol
  | .lineComment =>
    if c = '\n' then begin { l with reading := r.finishComment } c else go .lineComment
  | .blockComment => if c = '*' then go .blockCommentStar else go .blockComment
  | .blockCommentStar =>
    if c = '/' then { l with mode := .start, reading := (r.push c).finishComment }
    else if c = '*' then go .blockCommentStar
    else go .blockComment
  | .quote => if c = '"' then go .quoteQuote else string l .single true c
  | .quoteQuote =>
    if c = '"' then go (.string .triple true) else behind (.string .single true true)
  | .string kind opens => string l kind opens c
  | .stringEscape kind opens =>
    if c = '\x7b' then
      { mode := .start
        reading := (r.push c).finish (.string kind opens false)
        insertions := ⟨kind, 0⟩ :: l.insertions }
    else go (.string kind opens)
  | .textBlockQuote opens =>
    if c = '"' then go (.textBlockQuoteQuote opens) else string l .triple opens c
  | .textBlockQuoteQuote opens =>
    if c = '"' then close (.string .triple opens true) else string l .triple opens c
  | .apostrophe => if c = '\'' then close .symbol else character l c
  | .character => if c = '\'' then close .quoted else character l c
  | .characterEscape => go .character

/-- The lexemes read when the text ends here. -/
def finish (l : Lexer) : List Lexeme :=
  match l.mode.ending? with
  | none => l.reading.lexemes.reverse
  | some shape => (l.reading.finish shape).lexemes.reverse

end Lexer

def lexemes (text : List Char) : List Lexeme :=
  ((withoutMark text).foldl Lexer.step {}).finish

end Scaffold.Source.Java
