import Scaffold.Text.Blank

/-!
Reads the text of a configuration file: lines that set keys to texts, truth values, lists and
tables, and headers of tables. What no setting can hold (numbers, dates and lists of headed tables)
is refused.
-/
namespace Scaffold.Config

inductive Value
  | text (s : String)
  | truth (b : Bool)
  | list (items : List Value)
  | table (entries : List (String × Value))
  deriving Repr

namespace Reader

/-- A reader takes what it reads off the front of the characters. -/
abbrev Reads (α : Type) := List Char → Option (α × List Char)

def isSpace (c : Char) : Bool := c = ' ' || c = '\t'

def skipSpace (cs : List Char) : List Char := cs.dropWhile isSpace

/-- Control characters other than tabs appear nowhere. -/
def isAllowed (c : Char) : Bool :=
  c = '\t' || (c.toNat ≥ 32 && c.toNat ≠ 127)

/-- The line break in front, if there is one. -/
def lineBreak? : List Char → Option (List Char)
  | '\n' :: cs => some cs
  | '\r' :: '\n' :: cs => some cs
  | _ => none

/-- A comment up to its line break. -/
def skipComment : Reads Unit
  | '#' :: cs =>
    let comment := cs.takeWhile fun c => c ≠ '\n' && c ≠ '\r'
    if comment.all isAllowed then some ((), cs.drop comment.length) else none
  | cs => some ((), cs)

/-- Blanks, comments and line breaks, for as many steps as given. -/
def skipLines : Nat → Reads Unit
  | 0, cs => some ((), cs)
  | steps + 1, cs =>
    match skipComment (skipSpace cs) with
    | none => none
    | some ((), cs) =>
      match lineBreak? cs with
      | some rest => skipLines steps rest
      | none => some ((), cs)

/-- What stands behind the rest of a line, which is blank or a comment. -/
def lineEnd? (cs : List Char) : Option (List Char) := do
  let ((), rest) ← skipComment (skipSpace cs)
  if rest = [] then return [] else lineBreak? rest

def hexValue? (c : Char) : Option Nat :=
  if c.isDigit then some (c.toNat - 48)
  else if 'a' ≤ c ∧ c ≤ 'f' then some (c.toNat - 87)
  else if 'A' ≤ c ∧ c ≤ 'F' then some (c.toNat - 55)
  else none

/-- A code point in exactly so many hexadecimal digits. -/
def codePoint? (digits : Nat) (cs : List Char) : Option (Char × List Char) := do
  let front := cs.take digits
  if front.length ≠ digits then none
  else
    let values ← front.mapM hexValue?
    let n := values.foldl (fun n v => 16 * n + v) 0
    if n.isValidChar then some (Char.ofNat n, cs.drop digits) else none

/-- The character behind a backslash. -/
def escaped? : Reads Char
  | 'b' :: cs => some ('\x08', cs)
  | 't' :: cs => some ('\t', cs)
  | 'n' :: cs => some ('\n', cs)
  | 'f' :: cs => some ('\x0c', cs)
  | 'r' :: cs => some ('\r', cs)
  | '"' :: cs => some ('"', cs)
  | '\\' :: cs => some ('\\', cs)
  | 'u' :: cs => codePoint? 4 cs
  | 'U' :: cs => codePoint? 8 cs
  | _ => none

/-- The rest of a text of one line, with escapes. -/
def lineText : Nat → Reads (List Char)
  | 0, _ => none
  | steps + 1, cs =>
    match cs with
    | '"' :: rest => some ([], rest)
    | '\\' :: rest => do
      let (c, rest) ← escaped? rest
      let (text, rest) ← lineText steps rest
      return (c :: text, rest)
    | c :: rest =>
      if isAllowed c then (lineText steps rest).map fun read => (c :: read.1, read.2) else none
    | [] => none

/-- The rest of a literal text of one line. -/
def literalText (cs : List Char) : Option (List Char × List Char) :=
  let text := cs.takeWhile (· ≠ '\'')
  match cs.drop text.length with
  | '\'' :: rest => if text.all isAllowed then some (text, rest) else none
  | _ => none

/-- Up to two quotes may stand right before the three that end a long text. -/
def closeLong (quote : Char) : Reads (List Char)
  | a :: b :: c :: rest =>
    if a = quote ∧ b = quote ∧ c = quote then
      match rest with
      | d :: e :: more =>
        if d = quote ∧ e = quote then some ([quote, quote], more)
        else if d = quote then some ([quote], e :: more)
        else some ([], d :: e :: more)
      | [d] => if d = quote then some ([quote], []) else some ([], [d])
      | [] => some ([], [])
    else none
  | _ => none

/-- The rest of a text between three quotes. With escapes, a backslash at the end of a line joins
the lines. -/
def longText (quote : Char) : Nat → Reads (List Char)
  | 0, _ => none
  | steps + 1, cs =>
    match closeLong quote cs with
    | some read => some read
    | none =>
      match cs with
      | [] => none
      | c :: rest =>
        if c = '\\' ∧ quote = '"' then
          match lineBreak? (skipSpace rest) with
          | some more =>
            longText quote steps (more.dropWhile fun c => isSpace c || c = '\n' || c = '\r')
          | none =>
            match escaped? rest with
            | some (c, rest) => (longText quote steps rest).map fun read => (c :: read.1, read.2)
            | none => none
        else
          match lineBreak? cs with
          | some more => (longText quote steps more).map fun read => ('\n' :: read.1, read.2)
          | none =>
            if isAllowed c then (longText quote steps rest).map fun read => (c :: read.1, read.2)
            else none

/-- A line break right behind the opening quotes is no part of a long text. -/
def dropFirstBreak (cs : List Char) : List Char :=
  (lineBreak? cs).getD cs

def text? : Reads (List Char)
  | '"' :: '"' :: '"' :: cs => longText '"' (cs.length + 1) (dropFirstBreak cs)
  | '\'' :: '\'' :: '\'' :: cs => longText '\'' (cs.length + 1) (dropFirstBreak cs)
  | '"' :: cs => lineText (cs.length + 1) cs
  | '\'' :: cs => literalText cs
  | _ => none

def isKeyPart (c : Char) : Bool :=
  c.isAlphanum || c = '_' || c = '-'

/-- One key: a bare word or a text of one line. -/
def key? (cs : List Char) : Option (String × List Char) :=
  match cs with
  | '"' :: rest => (lineText (rest.length + 1) rest).map fun read => (String.ofList read.1, read.2)
  | '\'' :: rest => (literalText rest).map fun read => (String.ofList read.1, read.2)
  | _ =>
    let word := cs.takeWhile isKeyPart
    if word = [] then none else some (String.ofList word, cs.drop word.length)

/-- Reads the `=` between a key and its value. -/
def equals? (cs : List Char) : Option (List Char) :=
  match skipSpace cs with
  | '=' :: rest => some (skipSpace rest)
  | _ => none

mutual

/-- A value; the number bounds the steps. -/
def value? : Nat → Reads Value
  | 0, _ => none
  | steps + 1, cs =>
    match cs with
    | '[' :: rest => (items? steps rest).map fun read => (.list read.1, read.2)
    | '\x7b' :: rest =>
      match skipSpace rest with
      | '\x7d' :: more => some (.table [], more)
      | more => (entries? steps more).map fun read => (.table read.1, read.2)
    | 't' :: 'r' :: 'u' :: 'e' :: rest => some (.truth true, rest)
    | 'f' :: 'a' :: 'l' :: 's' :: 'e' :: rest => some (.truth false, rest)
    | _ => (text? cs).map fun read => (.text (String.ofList read.1), read.2)

/-- The items of a list up to its closing bracket. -/
def items? : Nat → Reads (List Value)
  | 0, _ => none
  | steps + 1, cs => do
    let ((), cs) ← skipLines cs.length cs
    match cs with
    | ']' :: rest => return ([], rest)
    | _ =>
      let (item, rest) ← value? steps cs
      let ((), rest) ← skipLines rest.length rest
      match rest with
      | ',' :: more =>
        let (items, more) ← items? steps more
        return (item :: items, more)
      | ']' :: more => return ([item], more)
      | _ => none

/-- The entries of a table up to its closing brace. -/
def entries? : Nat → Reads (List (String × Value))
  | 0, _ => none
  | steps + 1, cs => do
    let (key, rest) ← key? (skipSpace cs)
    let (value, rest) ← value? steps (← equals? rest)
    match skipSpace rest with
    | ',' :: more =>
      let (entries, more) ← entries? steps more
      return ((key, value) :: entries, more)
    | '\x7d' :: more => return ([(key, value)], more)
    | _ => none

end

/-- A key, or several with dots between them. -/
def keys? : Nat → Reads (List String)
  | 0, _ => none
  | steps + 1, cs => do
    let (key, rest) ← key? cs
    match skipSpace rest with
    | '.' :: more =>
      let (keys, more) ← keys? steps (skipSpace more)
      return (key :: keys, more)
    | _ => return ([key], rest)

/-- The keys of a header, behind its bracket. -/
def header? (cs : List Char) : Option (List String × List Char) := do
  let (keys, rest) ← keys? (cs.length + 1) (skipSpace cs)
  match skipSpace rest with
  | ']' :: more => return (keys, more)
  | _ => none

/-- What a line defines: the value at the end of a path of keys, or the table there if the line is a
header. The tables on the path that lie behind the front are the line's own. -/
structure Definition where
  front : List String
  path : List String
  value : Option Value

/-- A value is not extended, and a table that a header defines is not made by another line. -/
def Definition.clashes (d e : Definition) : Bool :=
  d.path.isPrefixOf e.path && (d.value.isSome || e.front.length < d.path.length)

/-- The lines of a document under a header. -/
def lines? (header : List String) : Nat → List Char → Option (List Definition)
  | 0, _ => none
  | steps + 1, cs => do
    let ((), cs) ← skipLines cs.length cs
    match cs with
    | [] => return []
    | '[' :: rest =>
      let (path, rest) ← header? rest
      return ⟨path.dropLast, path, none⟩ :: (← lines? path steps (← lineEnd? rest))
    | _ =>
      let (keys, rest) ← keys? (cs.length + 1) cs
      let (value, rest) ← value? (rest.length + 1) (← equals? rest)
      return ⟨header, header ++ keys, some value⟩ :: (← lines? header steps (← lineEnd? rest))

def tableOf : Value → List (String × Value)
  | .table entries => entries
  | _ => []

/-- The entries with a value at the end of a path, or with a table if there is none yet. -/
def define (value : Option Value) : List String → List (String × Value) → List (String × Value)
  | [], entries => entries
  | key :: path, entries =>
    let inner := ((entries.find? (·.1 = key)).map (tableOf ·.2)).getD []
    let new := if path = [] then value.getD (.table inner) else .table (define value path inner)
    entries.filter (·.1 ≠ key) ++ [(key, new)]

end Reader

/-- The keys that a document sets, in order. -/
def read? (document : String) : Option (List (String × Value)) := do
  let cs := document.toList
  let cs := if cs.head? = some '\uFEFF' then cs.drop 1 else cs
  let definitions ← Reader.lines? [] (cs.length + 1) cs
  if definitions.Pairwise fun d e => !d.clashes e && !e.clashes d then
    return definitions.foldl (fun entries d => Reader.define d.value d.path entries) []
  else none

end Scaffold.Config
