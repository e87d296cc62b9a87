import Scaffold.Source.Java.Lexer
import Scaffold.Source.Outline

/-!
Declarations of Java. Type declarations and the members of their bodies are read piece by piece;
expressions and statements are kept as they are and only searched for further declarations.
-/
namespace Scaffold.Source.Java

def reserved : List String :=
  ["abstract", "assert", "boolean", "break", "byte", "case", "catch", "char", "class", "continue",
   "default", "do", "double", "else", "enum", "extends", "final", "finally", "float", "for", "if",
   "implements", "import", "instanceof", "int", "interface", "long", "native", "new", "package",
   "private", "protected", "public", "return", "short", "static", "strictfp", "super", "switch",
   "synchronized", "this", "throw", "throws", "transient", "try", "void", "volatile", "while",
   "true", "false", "null"]

def primitive : List String :=
  ["boolean", "byte", "char", "double", "float", "int", "long", "short", "void"]

def modifierWords : List String :=
  ["abstract", "default", "final", "native", "private", "protected", "public", "sealed", "static",
   "strictfp", "synchronized", "transient", "volatile"]

/-- Words that may stand between the name of a type declaration and its body. -/
def headerWords : List String := ["extends", "implements", "super"]

/-- The identifier that a piece is. -/
def name? (p : Piece) : Option String :=
  p.word?.filter fun w => w ∉ reserved && (w.toList.head?.map Char.isDigit) = some false

def isTypeWord (p : Piece) : Bool :=
  (name? p).isSome || primitive.any p.isWord

/-- How far an annotation has been read. -/
inductive AnnotationState
  | outside
  | sign
  | name
  | dot
  deriving DecidableEq, Repr

/-- The pieces behind the modifiers and annotations. -/
def dropModifiers : AnnotationState → List Piece → List Piece
  | _, [] => []
  | .sign, p :: ps => if (name? p).isSome then dropModifiers .name ps else p :: ps
  | .dot, p :: ps => if (name? p).isSome then dropModifiers .name ps else p :: ps
  | state, p :: ps =>
    if state = .name ∧ p.isSymbol '.' then dropModifiers .dot ps
    else if state = .name ∧ p.isGroup '(' then dropModifiers .outside ps
    else if p.isSymbol '@' then
      match ps with
      | q :: _ => if q.isWord "interface" then p :: ps else dropModifiers .sign ps
      | [] => []
    else if modifierWords.any p.isWord then dropModifiers .outside ps
    else
      match ps with
      | q :: r :: rest =>
        if p.isWord "non" && q.isSymbol '-' && r.isWord "sealed" then dropModifiers .outside rest
        else p :: ps
      | _ => p :: ps

/-- The longest sequence of `[]` pairs in front, each with its annotations, and what follows. The
pieces read since the last pair are kept apart, newest first. -/
def splitDimensions (state : AnnotationState) (taken pending : List Piece) :
    List Piece → List Piece × List Piece
  | [] => (taken.reverse, pending.reverse)
  | p :: ps =>
    let goOn (state : AnnotationState) := splitDimensions state taken (p :: pending) ps
    let stop := (taken.reverse, pending.reverse ++ p :: ps)
    match state with
    | .sign | .dot => if (name? p).isSome then goOn .name else stop
    | .outside | .name =>
      if p.isGroup '[' then splitDimensions .outside (p :: pending ++ taken) [] ps
      else if p.isSymbol '@' then goOn .sign
      else if state = .name ∧ p.isSymbol '.' then goOn .dot
      else if state = .name ∧ p.isGroup '(' then goOn .outside
      else stop

/-- How far a type has been read. -/
inductive TypeState
  /-- A name has to follow. -/
  | expected
  /-- A name has been read. -/
  | named
  /-- Type arguments are open, so many deep. -/
  | arguments (depth : Nat)
  /-- An annotation is open. -/
  | annotated (state : AnnotationState)
  deriving DecidableEq, Repr

/-- The class or primitive type in front, without its dimensions, and what follows. -/
def splitType (state : TypeState) (taken : List Piece) : List Piece → List Piece × List Piece
  | [] => (taken.reverse, [])
  | p :: ps =>
    let goOn (state : TypeState) := splitType state (p :: taken) ps
    let stop := (taken.reverse, p :: ps)
    match state with
    | .expected =>
      if isTypeWord p then goOn .named
      else if p.isSymbol '@' then goOn (.annotated .sign)
      else stop
    | .annotated .sign | .annotated .dot =>
      if (name? p).isSome then goOn (.annotated .name) else stop
    | .annotated _ =>
      if p.isSymbol '.' then goOn (.annotated .dot)
      else if p.isGroup '(' then goOn .expected
      else if p.isSymbol '@' then goOn (.annotated .sign)
      else if isTypeWord p then goOn .named
      else stop
    | .named =>
      if p.isSymbol '<' then goOn (.arguments 1)
      else if p.isSymbol '.' then
        match ps with
        | q :: _ => if isTypeWord q || q.isSymbol '@' then goOn .expected else stop
        | [] => stop
      else stop
    | .arguments depth =>
      if p.isSymbol '<' then goOn (.arguments (depth + 1))
      else if p.isSymbol '>' then goOn (if depth ≤ 1 then .named else .arguments (depth - 1))
      else goOn (.arguments depth)

/-- The whole type in front and what follows. -/
def readType (ps : List Piece) : List Piece × List Piece :=
  let base := splitType .expected [] ps
  if base.1 = [] then ([], ps)
  else
    let dimensions := splitDimensions .outside [] [] base.2
    (base.1 ++ dimensions.1, dimensions.2)

/-- The fields of a list of declarators: each has the declared type with its own dimensions. -/
def declarators (type : List Piece) (ps : List Piece) : List Field :=
  (Piece.splitCommas 0 ps).filterMap fun part =>
    match part with
    | [] => none
    | p :: rest =>
      (name? p).map fun name =>
        ⟨name, Piece.spell type ++ Piece.spell (splitDimensions .outside [] [] rest).1⟩

/-- The fields that one member declares. Methods, constructors and nested records have a parameter
list and declare none; nor do other nested types and initialisers, which have no type in front. -/
def memberFields (member : List Piece) : List Field :=
  let rest := Piece.skipAngles 0 (dropModifiers .outside member)
  let typed := readType rest
  match typed.1, typed.2 with
  | [], _ => []
  | type, [] => declarators type []
  | type, p :: more =>
    if p.isGroup '(' || (Piece.skipAngles 0 more).head?.any (·.isGroup '(') then []
    else declarators type (p :: more)

/-- The word that stands before the default value of an annotation element. A method has it among
its modifiers. -/
def startsDefault (current : List Piece) (p : Piece) : Bool :=
  p.isWord "default" && !(dropModifiers .outside current.reverse).isEmpty

/-- Cuts a body into its members. A member ends with a semicolon, or with a block that is no part
of an initialiser or a default value. The pieces of the member being read are kept newest first. -/
def members (current : List Piece) (assigned : Bool) : List Piece → List (List Piece)
  | [] => [current.reverse]
  | p :: ps =>
    if p.isSymbol ';' then current.reverse :: members [] false ps
    else if p.isGroup '\x7b' && !assigned then (p :: current).reverse :: members [] false ps
    else members (p :: current) (assigned || p.isSymbol '=' || startsDefault current p) ps

def bodyFields (body : List Piece) : List Field :=
  (members [] false body).flatMap memberFields

/-- The members of an enumeration stand behind the semicolon that ends its constants. -/
def behindConstants (body : List Piece) : List Piece :=
  (body.dropWhile fun p => !p.isSymbol ';').drop 1

/-- The fields of record components: every component but one of variable arity. -/
def componentFields (parameters : List Piece) : List Field :=
  (Piece.splitCommas 0 parameters).filterMap fun part =>
    let typed := readType (dropModifiers .outside part)
    match typed.1, typed.2 with
    | [], _ => none
    | type, p :: more =>
      if more.head?.any (·.isSymbol '.') then none
      else (name? p).map fun name => ⟨name, Piece.spell type⟩
    | _, [] => none

inductive TypeKind
  /-- A class, an interface or an annotation type: the body holds members only. -/
  | plain
  /-- Constants stand before the members. -/
  | enumeration
  /-- The parameters are fields, too. -/
  | record
  deriving DecidableEq, Repr

/-- The keyword of a type declaration in front, and what follows. -/
def typeKeyword? : List Piece → Option (TypeKind × List Piece)
  | p :: ps =>
    if p.isWord "class" || p.isWord "interface" then some (.plain, ps)
    else if p.isWord "enum" then some (.enumeration, ps)
    else if p.isWord "record" then some (.record, ps)
    else
      match ps with
      | q :: rest => if p.isSymbol '@' && q.isWord "interface" then some (.plain, rest) else none
      | [] => none
  | [] => none

/-- The body of a type declaration and what follows it, from behind its name and parameters. -/
def findBody? : List Piece → Option (List Piece × List Piece)
  | [] => none
  | p :: ps =>
    match p.group? '\x7b' with
    | some body => some (body, ps)
    | none =>
      if (name? p).isSome || headerWords.any p.isWord || primitive.any p.isWord ||
          p.isGroup '(' || p.isGroup '[' || ['.', ',', '<', '>', '?', '&', '@'].any p.isSymbol then
        findBody? ps
      else none

def fieldsOf (kind : TypeKind) (parameters body : List Piece) : List Field :=
  match kind with
  | .record => componentFields parameters ++ bodyFields body
  | .enumeration => bodyFields (behindConstants body)
  | .plain => bodyFields body

/-- The type declaration whose keyword stands in front, and what follows it. A record has
parameters, and every type declaration has a body. -/
def introduced? (ps : List Piece) : Option (Declaration × List Piece) := do
  let (kind, rest) ← typeKeyword? ps
  let (p, rest) ← rest.head?.map fun p => (p, rest.drop 1)
  let name ← name? p
  let (parameters, rest) ←
    if kind = .record then
      let behind := Piece.skipAngles 0 rest
      (behind.head?.bind (·.group? '(')).map fun parameters => (parameters, behind.drop 1)
    else some ([], rest)
  let (body, rest) ← findBody? rest
  return (⟨name, fieldsOf kind parameters body⟩, rest)

/-- The type declaration in front of the pieces, be it modified, and what follows it. -/
def typeDeclaration? (ps : List Piece) : Option (Declaration × List Piece) :=
  introduced? (dropModifiers .outside ps)

/-- A type declaration may stand anywhere but behind a dot, where `class` is a literal. -/
def recognise : Recogniser := fun _ previous ps =>
  if previous.any (·.isSymbol '.') then none
  else
    (typeDeclaration? ps).map fun found =>
      ⟨.declaration found.1, ps.length - found.2.length, true⟩

def outline (ps : List Piece) : List Outline :=
  Outline.ofPieces recognise ps

/-- The package named by the first package declaration, as written. -/
def packageName? : List Piece → Option String
  | [] => none
  | p :: ps =>
    let name := Piece.qualifiedName (name? · |>.isSome) [] ps
    if p.isWord "package" && !name.isEmpty then some (Piece.spell name) else packageName? ps

end Scaffold.Source.Java
