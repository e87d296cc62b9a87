import Scaffold.Source.Kotlin.Lexer
import Scaffold.Source.Outline

/-!
Declarations of Kotlin. Class headers, primary constructors and properties are read piece by
piece; expressions and statements are kept as they are and only searched for further declarations.
-/
namespace Scaffold.Source.Kotlin

/-- Keywords that are never identifiers. -/
def reserved : List String :=
  ["as", "break", "class", "continue", "do", "else", "false", "for", "fun", "if", "in",
   "interface", "is", "null", "object", "package", "return", "super", "this", "throw", "true",
   "try", "typealias", "typeof", "val", "var", "when", "while"]

def modifierWords : List String :=
  ["abstract", "actual", "annotation", "companion", "const", "crossinline", "data", "enum",
   "expect", "external", "final", "infix", "inline", "inner", "internal", "lateinit", "noinline",
   "open", "operator", "override", "private", "protected", "public", "sealed", "suspend",
   "tailrec", "value", "vararg"]

/-- Modifiers of classes that may also be read as names where an expression may stand. -/
def softModifierWords : List String :=
  ["actual", "annotation", "data", "enum", "expect", "inner", "value"]

/-- The identifier that a piece is. -/
def name? (p : Piece) : Option String :=
  p.word?.filter fun w => w ∉ reserved && (w.toList.head?.map Char.isDigit) = some false

/-- How far an annotation has been read. -/
inductive AnnotationState
  | outside
  | sign
  | name
  | dot
  /-- Type arguments are open, so many deep. -/
  | arguments (depth : Nat)
  deriving DecidableEq, Repr

namespace AnnotationState

/-- No annotation is open. Behind a name the last one may still go on. -/
def isComplete : AnnotationState → Bool
  | outside | name => true
  | _ => false

/-- How far an annotation has been read behind a piece, if the piece belongs to one. Some
parentheses behind its name are its arguments. An annotation may name the part it is for, as in
`@get:Name`. -/
def next? (isApplied : Piece → Bool) (state : AnnotationState) (p : Piece) :
    Option AnnotationState :=
  match state with
  | .outside => if p.isSymbol '@' then some .sign else none
  | .sign =>
    if p.isGroup '[' then some .outside
    else if (name? p).isSome then some .name
    else none
  | .name =>
    if p.isSymbol '@' then some .sign
    else if p.isSymbol '.' then some .dot
    else if p.isSymbol ':' then some .sign
    else if p.isSymbol '<' then some (.arguments 1)
    else if p.isGroup '(' && isApplied p then some .outside
    else none
  | .dot => if (name? p).isSome then some .name else none
  | .arguments depth =>
    if p.isSymbol '<' then some (.arguments (depth + 1))
    else if p.isSymbol '>' then some (if depth ≤ 1 then .name else .arguments (depth - 1))
    else some (.arguments depth)

end AnnotationState

/-- The pieces behind the given modifiers and those annotations whose first piece is accepted. The
arguments of an annotation stand on its line. -/
def dropMarks (words : List String) (accepts : Piece → Bool) (state : AnnotationState) :
    List Piece → List Piece
  | [] => []
  | p :: ps =>
    if state.isComplete && p.isSymbol '@' && !ps.head?.any accepts then p :: ps
    else
      match state.next? (!·.startsLine) p with
      | some next => dropMarks words accepts next ps
      | none =>
        if state.isComplete && words.any p.isWord then dropMarks words accepts .outside ps
        else p :: ps

def dropModifiers (ps : List Piece) : List Piece :=
  dropMarks modifierWords (fun _ => true) .outside ps

def dropAnnotations (ps : List Piece) : List Piece :=
  dropMarks [] (fun _ => true) .outside ps

/-- The pieces behind the annotations of the file as a whole. -/
def dropFileAnnotations (ps : List Piece) : List Piece :=
  dropMarks [] (·.isWord "file") .outside ps

/-- A piece on a new line that goes on with the expression of the line before. -/
def continuesLine (p : Piece) (ps : List Piece) : Bool :=
  p.isArrow || p.isGroup '\x7b' || p.isGroup '[' || p.isGroup '(' || p.isWord "else" ||
    p.isWord "in" ||
    [',', '.', ':', '*', '%', '>', '<', '=', '?', '|', '&', '/'].any p.isSymbol ||
    ((p.isSymbol '+' || p.isSymbol '-') && !ps.head?.any fun q =>
      q.first.gap = [] && (q.isSymbol '+' || q.isSymbol '-' ||
        q.word?.any fun w => w.toList.head?.any Char.isDigit)) ||
    (p.isSymbol '!' && ps.head?.any (·.isSymbol '='))

/-- Nothing more belongs to the statement before these pieces. -/
def endsStatement : List Piece → Bool
  | [] => true
  | p :: ps => p.isSymbol ';' || (p.startsLine && !continuesLine p ps)

/-- How far a type has been read. -/
inductive TypeState
  /-- A name or a parenthesis has to follow, perhaps behind annotations. -/
  | expected (mark : AnnotationState)
  /-- A name has been read. -/
  | named
  /-- A parenthesis has been read, which may be a parameter list. -/
  | closed
  /-- Type arguments are open, so many deep. -/
  | arguments (depth : Nat)
  deriving DecidableEq, Repr

namespace TypeState

/-- A type may end here. -/
def isEnded : TypeState → Bool
  | named | closed => true
  | _ => false

/-- How far a type has been read behind a piece, if the piece belongs to it. The arguments of an
annotation follow its name at once. -/
def next? (state : TypeState) (p : Piece) : Option TypeState :=
  match state with
  | .expected mark =>
    match mark.next? (·.first.gap = []) p with
    | some next => some (.expected next)
    | none =>
      if !mark.isComplete then none
      else if p.isWord "suspend" then some (.expected .outside)
      else if (name? p).isSome then some .named
      else if p.isGroup '(' then some .closed
      else none
  | .arguments depth =>
    if p.isSymbol '<' then some (.arguments (depth + 1))
    else if p.isSymbol '>' then some (if depth ≤ 1 then .named else .arguments (depth - 1))
    else some (.arguments depth)
  | .named | .closed =>
    if p.isArrow then if state = .closed then some (.expected .outside) else none
    else if p.isSymbol '<' then if state = .named then some (.arguments 1) else none
    else if p.isSymbol '.' || p.isSymbol '&' then some (.expected .outside)
    else if p.isSymbol '?' then some state
    else none

end TypeState

/-- The type in front and what follows. -/
def splitType (state : TypeState) (taken : List Piece) : List Piece → List Piece × List Piece
  | [] => (taken.reverse, [])
  | p :: ps =>
    match state.next? p with
    | some next => splitType next (p :: taken) ps
    | none => (taken.reverse, p :: ps)

/-- The text of the first named part behind the colon: the type, or a comment in front of it. The
dynamic type has no name; then the text is that of a default value, if there is one. -/
def typeText (withDefault : Bool) (ps : List Piece) : String :=
  match ps with
  | [] => Field.noType
  | p :: _ =>
    match p.first.comment? with
    | some comment => String.ofList comment
    | none =>
      let split := splitType (.expected .outside) [] ps
      if p.isWord "dynamic" && split.1.length = 1 then
        match split.2 with
        | q :: default =>
          if withDefault && q.isSymbol '=' && !default.isEmpty then Piece.spell default
          else Field.noType
        | [] => Field.noType
      else if split.1.isEmpty then Field.noType
      else Piece.spell split.1

def bindsProperty (p : Piece) : Bool :=
  p.isWord "val" || p.isWord "var"

/-- The property that one parameter of a primary constructor declares, if it is bound with `val`
or `var`. -/
def parameterField? (parameter : List Piece) : Option Field :=
  match dropModifiers parameter with
  | binder :: p :: colon :: type =>
    if bindsProperty binder && colon.isSymbol ':' then
      (name? p).map fun name => ⟨name, typeText true type⟩
    else none
  | _ => none

def parameterFields (parameters : List Piece) : List Field :=
  (Piece.splitCommas 0 parameters).filterMap parameterField?

/-- The name of a variable behind its receiver type, and what follows. The name read last is
kept; the depth counts the open angles. -/
def variableName? (last : Option String) (depth : Nat) :
    List Piece → Option (String × List Piece)
  | [] => last.map fun name => (name, [])
  | p :: ps =>
    match depth, last with
    | depth + 1, _ =>
      if p.isSymbol '<' then variableName? last (depth + 2) ps
      else if p.isSymbol '>' then variableName? last depth ps
      else variableName? last (depth + 1) ps
    | 0, none =>
      match name? p with
      | some name => variableName? (some name) 0 ps
      | none =>
        if p.isGroup '(' || ['.', '?'].any p.isSymbol then variableName? none 0 ps else none
    | 0, some name =>
      if p.isSymbol '.' then variableName? none 0 ps
      else if p.isSymbol '<' then variableName? last 1 ps
      else if p.isSymbol '?' then variableName? last 0 ps
      else some (name, p :: ps)

/-- A destructuring declaration has no variable of its own; it counts as its initialiser when that
is a bare name. -/
def destructuredField? : List Piece → Option Field
  | equals :: value :: behind =>
    if equals.isSymbol '=' && endsStatement behind then
      (name? value).map fun name => ⟨name, Field.noType⟩
    else none
  | _ => none

/-- The field of a property, from behind its `val` or `var`. Annotations of its variable or of its
receiver type are passed over. -/
def propertyField? (ps : List Piece) : Option Field :=
  match dropAnnotations (Piece.skipAngles 0 ps) with
  | [] => none
  | p :: rest =>
    if p.isGroup '(' && !rest.head?.any fun q => q.isSymbol '.' || q.isSymbol '?' then
      destructuredField? rest
    else
      (variableName? none 0 (p :: rest)).map fun (name, behind) =>
        match behind with
        | colon :: type =>
          ⟨name, if colon.isSymbol ':' then typeText false type else Field.noType⟩
        | [] => ⟨name, Field.noType⟩

/-- The fields of the properties that stand directly in a body. -/
def bodyFields : List Piece → List Field
  | [] => []
  | p :: ps =>
    if bindsProperty p then (propertyField? ps).toList ++ bodyFields ps else bodyFields ps

/-- Words that an operand follows. -/
def operatorWords : List String := ["as", "else", "if", "in", "is", "return", "throw"]

/-- An expression may end behind the piece, given that it may end in front of it. A name behind an
operand is the function of an infix call. -/
def completes (complete : Bool) (p : Piece) : Bool :=
  if p.isSymbol '!' || p.isSymbol '?' then complete
  else if (name? p).isSome then !complete
  else
    match p with
    | .lexeme l => l.shape ≠ .symbol && !operatorWords.any p.isWord
    | .group .. => true

/-- How far the header of a class has been read behind its primary constructor. -/
inductive HeaderState
  /-- The name or the constructor has been read. -/
  | named
  /-- A supertype. -/
  | supertype (type : TypeState)
  /-- A supertype with its arguments. -/
  | called
  /-- The expression that a supertype is delegated to, which may end here or not. -/
  | delegate (complete : Bool)
  /-- Type arguments in such an expression are open, so many deep. -/
  | delegateArguments (depth : Nat)
  /-- The type parameter of a constraint has to follow, perhaps behind annotations. -/
  | parameter (mark : AnnotationState)
  /-- The type parameter of a constraint has been read. -/
  | constrained
  /-- The type that bounds a type parameter. -/
  | bound (type : TypeState)
  deriving DecidableEq, Repr

namespace HeaderState

/-- A body may follow. Braces behind an expression belong to the expression. -/
def takesBody : HeaderState → Bool
  | named | called => true
  | supertype type | bound type => type.isEnded
  | delegate _ | delegateArguments _ | parameter _ | constrained => false

/-- What goes on behind a supertype. -/
def behindSupertype? (p : Piece) : Option HeaderState :=
  if p.isSymbol ',' then some (.supertype (.expected .outside))
  else if p.isWord "by" then some (.delegate false)
  else if p.isWord "where" then some (.parameter .outside)
  else none

/-- How far the header has been read behind a piece in front of others, if the piece belongs to it.
Nothing ends at the end of a line that something has to follow. -/
def next? (state : HeaderState) (p : Piece) (ps : List Piece) : Option HeaderState :=
  match state with
  | .named =>
    if p.isSymbol ':' then some (.supertype (.expected .outside))
    else if p.isWord "where" then some (.parameter .outside)
    else none
  | .supertype type =>
    match type.next? p with
    | some next => some (.supertype next)
    | none =>
      if !type.isEnded then none
      else if type = .named ∧ p.isGroup '(' ∧ !p.startsLine then some .called
      else behindSupertype? p
  | .called => behindSupertype? p
  | .delegate complete =>
    if complete && p.isSymbol ',' then some (.supertype (.expected .outside))
    else if complete && p.isWord "where" then some (.parameter .outside)
    else if complete && endsStatement (p :: ps) then none
    else if p.isSymbol '<' && Piece.typeArgumentsFollow 1 ps then some (.delegateArguments 1)
    else some (.delegate (completes complete p))
  | .delegateArguments depth =>
    if p.isSymbol '<' then some (.delegateArguments (depth + 1))
    else if p.isSymbol '>' then
      some (if depth ≤ 1 then .delegate true else .delegateArguments (depth - 1))
    else some (.delegateArguments depth)
  | .parameter mark =>
    match mark.next? (!·.startsLine) p with
    | some next => some (.parameter next)
    | none => if mark.isComplete && (name? p).isSome then some .constrained else none
  | .constrained => if p.isSymbol ':' then some (.bound (.expected .outside)) else none
  | .bound type =>
    match type.next? p with
    | some next => some (.bound next)
    | none => if type.isEnded && p.isSymbol ',' then some (.parameter .outside) else none

end HeaderState

/-- The body in front or behind supertypes and constraints, if there is one, and what follows. -/
def splitBody (state : HeaderState) : List Piece → Option Piece × List Piece
  | [] => (none, [])
  | p :: ps =>
    match state.next? p ps with
    | some next => splitBody next ps
    | none => if state.takesBody && p.isGroup '\x7b' then (some p, ps) else (none, p :: ps)

/-- The keywords of a class or an interface in front, behind the modifiers, and what follows. -/
def classKeyword? : List Piece → Option (List Piece)
  | p :: ps =>
    if p.isWord "class" || p.isWord "interface" then some ps
    else
      match ps with
      | q :: rest => if p.isWord "fun" && q.isWord "interface" then some rest else none
      | [] => none
  | [] => none

/-- The parameters of the primary constructor in front, if there is one, and what follows. -/
def splitConstructor (ps : List Piece) : List Piece × List Piece :=
  let rest := dropModifiers ps
  match rest with
  | p :: q :: more =>
    if p.isWord "constructor" then
      match q.group? '(' with
      | some parameters => (parameters, more)
      | none => ([], ps)
    else
      match ps.head?.bind (·.group? '(') with
      | some parameters => (parameters, ps.drop 1)
      | none => ([], ps)
  | _ =>
    match ps.head?.bind (·.group? '(') with
    | some parameters => (parameters, ps.drop 1)
    | none => ([], ps)

/-- The braces open with an infix call that lacks its second operand. No member does. -/
def lacksOperand (braces : Piece) : Bool :=
  match dropModifiers ((braces.group? '\x7b').getD []) with
  | p :: q :: rest =>
    (name? p).isSome && (name? q).isSome && !q.startsLine && endsStatement rest
  | _ => false

/-- More stands on the line behind braces that open with an infix call that lacks its second
operand. The line is then read as one expression, and a `class` in it as a name. -/
def runsOn (braces : Piece) (behind : List Piece) : Bool :=
  lacksOperand braces && behind.head?.any fun p => !p.startsLine && !p.isSymbol ';'

/-- The class declaration in front of the pieces, and what follows it. -/
def classDeclaration? (ps : List Piece) : Option (Declaration × List Piece) := do
  let rest ← classKeyword? (dropModifiers ps)
  let name ← rest.head?.bind name?
  let (parameters, rest) := splitConstructor (Piece.skipAngles 0 (rest.drop 1))
  let (body, rest) := splitBody .named rest
  if body.any fun braces => !braces.isClosed || runsOn braces rest then none
  else
    let inBody := (body.bind (·.group? '\x7b')).getD []
    some (⟨name, parameterFields parameters ++ bodyFields inBody⟩, rest)

/-- The pieces of a body can all stand among the statements of a function literal: there is no
secondary constructor and no list of several enumeration entries. -/
def readsAsStatements (enumeration : Bool) (body : List Piece) : Bool :=
  let entries := body.takeWhile fun p => !p.isSymbol ';'
  !(enumeration && entries.any (·.isSymbol ',')) &&
    (body.zip (body.drop 1)).all fun (p, q) => !(p.isWord "constructor" && q.isGroup '(')

/-- The pieces behind an empty argument list in front and a function literal behind it, each of
which may be missing. -/
def dropCall (enumeration : Bool) (ps : List Piece) : List Piece :=
  let behindArguments :=
    match ps with
    | p :: rest => if (p.group? '(').any List.isEmpty then rest else ps
    | [] => []
  match behindArguments with
  | p :: rest =>
    if p.isClosed && (p.group? '\x7b').any (readsAsStatements enumeration) then rest
    else behindArguments
  | [] => []

/-- The pieces behind a modifier of a constructor and the word `constructor`. -/
def dropConstructorWords : List Piece → List Piece
  | p :: q :: rest =>
    if modifierWords.any p.isWord && q.isWord "constructor" then rest else p :: q :: rest
  | ps => ps

/-- Behind annotations, a soft modifier, `class` and a name are read as an expression where one
may stand: the modifier and the name are operands, `class` is the function between them, an empty
constructor is a call and the body a function literal. The words in front of a constructor are a
function and an operand more. Gives the pieces behind the name. -/
def infixReading? (ps : List Piece) : Option (List Piece) := do
  if !ps.head?.any (·.isSymbol '@') then none
  match dropAnnotations ps with
  | soft :: keyword :: p :: rest =>
    let _ ← name? p
    let keywords := softModifierWords.any soft.isWord &&
      (keyword.isWord "class" || keyword.isWord "interface")
    if !keywords then none
    let behindTypes := Piece.skipAngles 0 rest
    let types := rest.take (rest.length - behindTypes.length)
    let behind := dropCall (soft.isWord "enum")
      (if types.isEmpty then dropConstructorWords rest else behindTypes)
    let called := behind.length < behindTypes.length
    if (types.isEmpty || (called && !types.any (·.isSymbol ':'))) && endsStatement behind then
      some rest
    else none
  | _ => none

/-- An object in front of the pieces, and what follows its body. -/
def objectDeclaration? (ps : List Piece) : Option (List Piece) :=
  match ps with
  | p :: rest =>
    if p.isWord "object" then
      let behindName := if (rest.head?.bind name?).isSome then rest.drop 1 else rest
      match splitBody .named behindName with
      | (some _, behind) => some behind
      | (none, _) => none
    else none
  | [] => none

def recognise : Recogniser := fun members previous ps =>
  let head (label : Label) (inMembers : Bool) (rest : List Piece) : Head :=
    ⟨label, ps.length - rest.length, inMembers⟩
  if previous.any fun p => p.isSymbol '.' || p.isSymbol ':' || runsOn p ps then none
  else
    match (if members then none else infixReading? ps) with
    | some rest => some (head .region false rest)
    | none =>
      match classDeclaration? ps with
      | some (d, rest) => some (head (.declaration d) true rest)
      | none => (objectDeclaration? ps).map (head .region true)

def outline (ps : List Piece) : List Outline :=
  Outline.ofPieces recognise (dropFileAnnotations ps)

/-- The package that the header names, as written: what stands between the keyword and the end of
the header, blanks at its ends left out. Only annotations of the file may stand in front. -/
def packageName? (ps : List Piece) : Option String :=
  match dropFileAnnotations ps with
  | p :: rest =>
    let name := Piece.qualifiedName (name? · |>.isSome) [] rest
    if p.isWord "package" && !name.isEmpty then
      let ending :=
        match (rest.drop name.length).head? with
        | some q => if q.isSymbol ';' then q.first.gapChars else []
        | none => []
      some (String.ofList (Text.trim (Piece.charsOf name ++ ending)))
    else none
  | [] => none

end Scaffold.Source.Kotlin
