import Scaffold.Proofs.Grammar
import Scaffold.Source.Java.Reader

/-!
# The grammar of Java

The published grammar of Java, rule by rule, over the lexemes of its lexer:
operators of more than one character are several lexemes there, and so are
numbers with a point or a signed exponent. A string that code is inserted into
is several parts with the code between them. Reserved words are no identifiers.
The words `record` and `sealed`, which may begin a declaration, name no types.
-/

namespace Scaffold.Source.Java

inductive Terminal
  | word (text : String)
  | symbol (c : Char)
  | arrow
  | decrement
  | identifier
  | typeIdentifier
  | number
  | character
  | string (kind : StringKind) (opens closes : Bool)
  deriving DecidableEq

def isHexDigit (c : Char) : Bool :=
  c.isDigit || 'a' ≤ c && c ≤ 'f' || 'A' ≤ c && c ≤ 'F'

/-- What stands behind a backslash in front: the digits of a code, where an `x` or a `u` announces
one, or any other character. -/
def escapes : List Char → Bool
  | [] => false
  | c :: cs =>
    let digits := cs.takeWhile isHexDigit
    if c = 'x' then 2 ≤ digits.length
    else if c = 'u' then
      match cs with
      | '\x7b' :: ds =>
        let digits := ds.takeWhile isHexDigit
        0 < digits.length && (ds.drop digits.length).head? = some '\x7d'
      | _ => 4 ≤ digits.length
    else true

/-- Every escape in the characters is one of the language. -/
def escapesWell : List Char → Bool
  | '\\' :: c :: cs => escapes (c :: cs) && escapesWell cs
  | _ :: cs => escapesWell cs
  | [] => true

/-- Brackets are no lexemes of their own: they come in pairs. -/
def Terminal.admits (t : Terminal) (l : Lexeme) : Bool :=
  let p := Piece.lexeme l
  !Piece.Nesting.isOpener l && !Piece.Nesting.isCloser l &&
  match t with
  | word text => p.isWord text
  | symbol c => p.isSymbol c
  | arrow => p.isArrow
  | decrement => l.shape = .symbol && l.text = "--"
  | identifier => (name? p).isSome
  | typeIdentifier => (name? p).any (· ∉ ["record", "sealed"])
  | number => p.word?.any fun w => (w.toList.head?.map Char.isDigit) = some true
  | character => l.shape = .quoted
  | string kind opens closes =>
    l.shape = .string kind opens closes && (kind = .triple || escapesWell l.text.toList)

/-- The kinds of nodes. -/
inductive Node
  -- names and types
  | identifier | type | annotatedType | unannotatedType | simpleType | packagePrefix | scopedType
  | genericType | arrayType | dimensions | typeArguments | wildcard | typeParameters
  | typeParameter | typeBound
  -- annotations
  | annotationUse | elementValuePair | elementValue | elementValueArray | modifiers
  -- expressions
  | expression | assignment | binary | instanceOf | lambda | ternary | unary | update | cast
  | primary | numeral | stringLiteral | classLiteral | newObject | objectCreation | fieldAccess
  | arrayAccess | methodInvocation | argumentList | methodReference | dimensionExpression
  | arrayCreation | arrayInitializer | variableInitializer | recordPattern
  | recordPatternComponent | typePattern
  -- statements
  | statement | block | expressionStatement | labeled | ifStatement | whileStatement
  | forStatement | forEach | doStatement | assertStatement | breakStatement | continueStatement
  | returnStatement | yieldStatement | throwStatement | synchronizedStatement | tryStatement
  | resource | catchClause | finallyClause | localVariable | switchExpression | switchGroup
  | switchRule | switchLabels | groupMark | ruleMark
  -- declarations
  | program | packageDeclaration | importDeclaration | moduleDeclaration | moduleDirective
  | moduleTargets | classDeclaration | recordDeclaration | interfaceDeclaration
  | annotationTypeDeclaration | enumDeclaration | superclass | superInterfaces
  | extendsInterfaces | permits | classBody | interfaceBody | annotationTypeBody | enumBody
  | enumConstant | enumBodyDeclarations | fieldDeclaration | constantDeclaration
  | variableDeclarator | methodDeclaration | constructorDeclaration | constructorBody
  | explicitConstructorCall | compactConstructor | staticInitializer | annotationElement
  | formalParameters | receiverParameter | formalParameter | spreadParameter | throws
  deriving DecidableEq

open Rule

namespace Node

def word (text : String) : Rule Terminal Node := token (.word text)

def sym (c : Char) : Rule Terminal Node := token (.symbol c)

/-- An operator, symbol by symbol. -/
def operator (text : String) : Rule Terminal Node := inOrder (text.toList.map sym)

def words (texts : List String) : Rule Terminal Node := oneOf (texts.map word)

def operators (texts : List String) : Rule Terminal Node := oneOf (texts.map operator)

def parens (r : Rule Terminal Node) : Rule Terminal Node := group '(' r

def brackets (r : Rule Terminal Node) : Rule Terminal Node := group '[' r

def braces (r : Rule Terminal Node) : Rule Terminal Node := group '\x7b' r

def commas (r : Rule Terminal Node) : Rule Terminal Node := separated (sym ',') r

def name : Rule Terminal Node := separated (sym '.') (token .identifier)

def annotations : Rule Terminal Node := many (node annotationUse)

/-- The members of a class. -/
def members : List Node :=
  [fieldDeclaration, recordDeclaration, methodDeclaration, compactConstructor, classDeclaration,
   interfaceDeclaration, annotationTypeDeclaration, enumDeclaration, block, staticInitializer,
   constructorDeclaration]

def interfaceMembers : List Node :=
  [constantDeclaration, enumDeclaration, methodDeclaration, classDeclaration,
   interfaceDeclaration, recordDeclaration, annotationTypeDeclaration]

def annotationMembers : List Node :=
  [annotationElement, constantDeclaration, classDeclaration, interfaceDeclaration,
   recordDeclaration, enumDeclaration, annotationTypeDeclaration]

/-- Any number of members, with stray semicolons between them. -/
def membersOf (kinds : List Node) : Rule Terminal Node :=
  many (oneOf (sym ';' :: kinds.map node))

def declarators : Rule Terminal Node := commas (node variableDeclarator)

/-- A declared name with its dimensions. -/
def declared : Rule Terminal Node := inOrder [node identifier, opt (node dimensions)]

/-- Parameters, behind a receiver if there is one. -/
def parameters : Rule Terminal Node :=
  oneOf [node receiverParameter,
    inOrder [opt (inOrder [node receiverParameter, sym ',']),
      opt (commas (oneOf [node formalParameter, node spreadParameter]))]]

def updateOperator : Rule Terminal Node := oneOf [operator "++", token .decrement]

/-- A string with code inserted into it. -/
def template (kind : StringKind) : Rule Terminal Node :=
  inOrder [token (.string kind true false), node expression,
    many (inOrder [token (.string kind false false), node expression]),
    token (.string kind false true)]

def switchBlock : Rule Terminal Node :=
  braces (oneOf [many (node switchGroup), many (node switchRule)])

def rule : Node → Rule Terminal Node
  | identifier => token .identifier
  | type => oneOf [node unannotatedType, node annotatedType]
  | annotatedType => inOrder [some (node annotationUse), node unannotatedType]
  | unannotatedType => oneOf [node simpleType, node arrayType]
  | simpleType =>
    oneOf [words primitive, token .typeIdentifier, node scopedType, node genericType]
  | packagePrefix => inOrder [token .typeIdentifier, many (inOrder [sym '.', token .identifier])]
  | scopedType =>
    inOrder [oneOf [node packagePrefix, node scopedType, node genericType], sym '.', annotations,
      token .typeIdentifier]
  | genericType =>
    inOrder [oneOf [token .typeIdentifier, node scopedType], node typeArguments]
  | arrayType => inOrder [node unannotatedType, node dimensions]
  | dimensions => some (inOrder [annotations, brackets empty])
  | typeArguments => angles (opt (commas (oneOf [node type, node wildcard])))
  | wildcard => inOrder [annotations, sym '?', opt (inOrder [words ["extends", "super"], node type])]
  | typeParameters => angles (commas (node typeParameter))
  | typeParameter => inOrder [annotations, token .typeIdentifier, opt (node typeBound)]
  | typeBound => inOrder [word "extends", separated (sym '&') (node type)]
  | annotationUse =>
    inOrder [sym '@', many (inOrder [token .identifier, sym '.']), token .typeIdentifier,
      opt (parens (oneOf [opt (commas (node elementValuePair)), node elementValue]))]
  | elementValuePair => inOrder [token .identifier, sym '=', node elementValue]
  | elementValue => oneOf [node expression, node elementValueArray, node annotationUse]
  | elementValueArray => braces (inOrder [opt (commas (node elementValue)), opt (sym ',')])
  | modifiers =>
    some (oneOf [node annotationUse, words modifierWords,
      inOrder [word "non", sym '-', word "sealed"]])
  | expression =>
    oneOf [node assignment, node binary, node instanceOf, node lambda, node ternary, node update,
      node primary, node unary, node cast, node switchExpression]
  | assignment =>
    inOrder [oneOf [token .identifier, node fieldAccess, node arrayAccess],
      operators ["=", "+=", "-=", "*=", "/=", "&=", "|=", "^=", "%=", "<<=", ">>=", ">>>="],
      node expression]
  | binary =>
    inOrder [node expression,
      operators [">", "<", ">=", "<=", "==", "!=", "&&", "||", "+", "-", "*", "/", "&", "|", "^",
        "%", "<<", ">>", ">>>"],
      node expression]
  | instanceOf =>
    inOrder [node expression, word "instanceof", opt (word "final"),
      oneOf [inOrder [node type, opt (token .identifier)], node recordPattern]]
  | lambda =>
    inOrder [oneOf [token .identifier, node formalParameters, parens (commas (token .identifier))],
      token .arrow, oneOf [node expression, node block]]
  | ternary =>
    inOrder [node expression, sym '?', node expression, sym ':', node expression]
  | unary => inOrder [operators ["+", "-", "!", "~"], node expression]
  | update =>
    oneOf [inOrder [node expression, updateOperator], inOrder [updateOperator, node expression]]
  | cast => inOrder [parens (separated (sym '&') (node type)), node expression]
  | primary =>
    oneOf [node numeral, node stringLiteral, token .character,
      words ["true", "false", "null", "this"], token .identifier, node classLiteral,
      parens (node expression), node objectCreation, node fieldAccess, node arrayAccess,
      node methodInvocation, node methodReference, node arrayCreation,
      inOrder [node primary, sym '.', node stringLiteral]]
  | numeral =>
    inOrder [
      oneOf [token .number, inOrder [sym '.', token .number],
        inOrder [token .number, sym '.', opt (oneOf [token .number, token .identifier])]],
      opt (inOrder [operators ["+", "-"], token .number])]
  | stringLiteral =>
    oneOf [token (.string .single true true), token (.string .triple true true),
      template .single, template .triple]
  | classLiteral => inOrder [node unannotatedType, sym '.', word "class"]
  | newObject =>
    inOrder [word "new", annotations, opt (inOrder [node typeArguments, annotations]),
      node simpleType, node argumentList, opt (node classBody)]
  | objectCreation =>
    oneOf [node newObject, inOrder [node primary, sym '.', node newObject]]
  | fieldAccess =>
    inOrder [oneOf [node primary, word "super"], opt (inOrder [sym '.', word "super"]), sym '.',
      oneOf [token .identifier, word "this"]]
  | arrayAccess => inOrder [node primary, brackets (node expression)]
  | methodInvocation =>
    inOrder [
      oneOf [token .identifier,
        inOrder [oneOf [node primary, word "super"], sym '.', opt (inOrder [word "super", sym '.']),
          opt (node typeArguments), token .identifier]],
      node argumentList]
  | argumentList => parens (opt (commas (node expression)))
  | methodReference =>
    inOrder [oneOf [node type, node primary, word "super"], operator "::",
      opt (node typeArguments), oneOf [word "new", token .identifier]]
  | dimensionExpression => inOrder [annotations, brackets (node expression)]
  | arrayCreation =>
    inOrder [word "new", annotations, node simpleType,
      oneOf [inOrder [some (node dimensionExpression), opt (node dimensions)],
        inOrder [node dimensions, node arrayInitializer]]]
  | arrayInitializer =>
    braces (inOrder [opt (commas (node variableInitializer)), opt (sym ',')])
  | variableInitializer => oneOf [node expression, node arrayInitializer]
  | recordPattern =>
    inOrder [oneOf [token .identifier, node scopedType, node genericType],
      parens (opt (commas (oneOf [node recordPatternComponent, node recordPattern])))]
  | recordPatternComponent =>
    oneOf [token .identifier, inOrder [node unannotatedType, token .identifier]]
  | typePattern => inOrder [node unannotatedType, token .identifier]
  | statement =>
    oneOf [sym ';', node packageDeclaration, node importDeclaration, node moduleDeclaration,
      node classDeclaration, node recordDeclaration, node interfaceDeclaration,
      node annotationTypeDeclaration, node enumDeclaration, node block, node expressionStatement,
      node labeled, node ifStatement, node whileStatement, node forStatement, node forEach,
      node doStatement, node assertStatement, node breakStatement, node continueStatement,
      node returnStatement, node yieldStatement, node throwStatement, node synchronizedStatement,
      node tryStatement, node localVariable, node switchExpression]
  | block => braces (many (node statement))
  | expressionStatement => inOrder [node expression, sym ';']
  | labeled => inOrder [inOrder [token .identifier, sym ':'], node statement]
  | ifStatement =>
    inOrder [inOrder [word "if", parens (node expression)], node statement,
      opt (inOrder [word "else", node statement])]
  | whileStatement =>
    inOrder [inOrder [word "while", parens (node expression)], node statement]
  | forStatement =>
    inOrder [
      inOrder [word "for",
        parens (inOrder [
          oneOf [node localVariable, inOrder [opt (commas (node expression)), sym ';']],
          opt (node expression), sym ';', opt (commas (node expression))])],
      node statement]
  | forEach =>
    inOrder [
      inOrder [word "for",
        parens (inOrder [opt (node modifiers), node unannotatedType, declared, sym ':',
          node expression])],
      node statement]
  | doStatement =>
    inOrder [word "do", node statement, word "while", parens (node expression), sym ';']
  | assertStatement =>
    inOrder [word "assert", node expression, opt (inOrder [sym ':', node expression]), sym ';']
  | breakStatement => inOrder [word "break", opt (token .identifier), sym ';']
  | continueStatement => inOrder [word "continue", opt (token .identifier), sym ';']
  | returnStatement => inOrder [word "return", opt (node expression), sym ';']
  | yieldStatement => inOrder [word "yield", node expression, sym ';']
  | throwStatement => inOrder [word "throw", node expression, sym ';']
  | synchronizedStatement =>
    inOrder [word "synchronized", parens (node expression), node block]
  | tryStatement =>
    inOrder [word "try",
      opt (parens (inOrder [separated (sym ';') (node resource), opt (sym ';')])), node block,
      many (node catchClause), opt (node finallyClause)]
  | resource =>
    oneOf [inOrder [opt (node modifiers), node unannotatedType, declared, sym '=',
        node expression],
      token .identifier, node fieldAccess]
  | catchClause =>
    inOrder [word "catch",
      parens (inOrder [opt (node modifiers), separated (sym '|') (node unannotatedType),
        declared]),
      node block]
  | finallyClause => inOrder [word "finally", node block]
  | localVariable => inOrder [opt (node modifiers), node unannotatedType, declarators, sym ';']
  | switchExpression => inOrder [word "switch", parens (node expression), switchBlock]
  | switchGroup =>
    inOrder [
      some (oneOf [inOrder [word "case", node switchLabels, node groupMark],
        inOrder [word "default", sym ':']]),
      many (node statement)]
  | switchRule =>
    inOrder [
      oneOf [inOrder [word "case", node switchLabels, node ruleMark],
        inOrder [word "default", token .arrow]],
      oneOf [node expressionStatement, node throwStatement, node block]]
  | switchLabels =>
    oneOf [node typePattern, node recordPattern,
      commas (oneOf [node expression, word "default"])]
  | groupMark => oneOf [sym ':', inOrder [word "when", node expression, sym ':']]
  | ruleMark => oneOf [token .arrow, inOrder [word "when", node expression, token .arrow]]
  | program => many (oneOf [node statement, node methodDeclaration])
  | packageDeclaration => inOrder [annotations, word "package", name, sym ';']
  | importDeclaration =>
    inOrder [word "import", opt (word "static"), name, opt (operator ".*"), sym ';']
  | moduleDeclaration =>
    inOrder [annotations, opt (word "open"), word "module", name,
      braces (many (node moduleDirective))]
  | moduleDirective =>
    oneOf [
      inOrder [word "requires", many (words ["transitive", "static"]), name, sym ';'],
      inOrder [words ["exports", "opens", "provides"], name, node moduleTargets],
      inOrder [word "uses", name, sym ';']]
  | moduleTargets => oneOf [sym ';', inOrder [words ["to", "with"], commas name, sym ';']]
  | classDeclaration =>
    inOrder [opt (node modifiers), word "class", node identifier, opt (node typeParameters),
      opt (node superclass), opt (node superInterfaces), opt (node permits), node classBody]
  | recordDeclaration =>
    inOrder [opt (node modifiers), word "record", node identifier, opt (node typeParameters),
      node formalParameters, opt (node superInterfaces), node classBody]
  | interfaceDeclaration =>
    inOrder [opt (node modifiers), word "interface", node identifier, opt (node typeParameters),
      opt (node extendsInterfaces), opt (node permits), node interfaceBody]
  | annotationTypeDeclaration =>
    inOrder [opt (node modifiers), inOrder [sym '@', word "interface"], node identifier,
      node annotationTypeBody]
  | enumDeclaration =>
    inOrder [opt (node modifiers), word "enum", node identifier, opt (node superInterfaces),
      node enumBody]
  | superclass => inOrder [word "extends", node type]
  | superInterfaces => inOrder [word "implements", commas (node type)]
  | extendsInterfaces => inOrder [word "extends", commas (node type)]
  | permits => inOrder [word "permits", commas (node type)]
  | classBody => braces (membersOf members)
  | interfaceBody => braces (membersOf interfaceMembers)
  | annotationTypeBody => braces (membersOf annotationMembers)
  | enumBody =>
    braces (inOrder [opt (commas (node enumConstant)), opt (sym ','),
      opt (node enumBodyDeclarations)])
  | enumConstant =>
    inOrder [opt (node modifiers), node identifier, opt (node argumentList),
      opt (node classBody)]
  | enumBodyDeclarations => inOrder [sym ';', membersOf members]
  | fieldDeclaration =>
    inOrder [opt (node modifiers), node unannotatedType, declarators, sym ';']
  | constantDeclaration =>
    inOrder [opt (node modifiers), node unannotatedType, declarators, sym ';']
  | variableDeclarator =>
    inOrder [declared, opt (inOrder [sym '=', node variableInitializer])]
  | methodDeclaration =>
    inOrder [opt (node modifiers), opt (inOrder [node typeParameters, annotations]),
      node unannotatedType, node identifier, node formalParameters, opt (node dimensions),
      opt (node throws), oneOf [node block, sym ';']]
  | constructorDeclaration =>
    inOrder [opt (node modifiers), opt (node typeParameters), token .typeIdentifier,
      node formalParameters, opt (node throws), node constructorBody]
  | constructorBody => braces (inOrder [opt (node explicitConstructorCall), many (node statement)])
  | explicitConstructorCall =>
    inOrder [
      oneOf [inOrder [opt (node typeArguments), words ["this", "super"]],
        inOrder [node primary, sym '.', opt (node typeArguments), word "super"]],
      node argumentList, sym ';']
  | compactConstructor => inOrder [opt (node modifiers), token .typeIdentifier, node block]
  | staticInitializer => inOrder [word "static", node block]
  | annotationElement =>
    inOrder [opt (node modifiers), node unannotatedType, node identifier, parens empty,
      opt (node dimensions), opt (inOrder [word "default", node elementValue]), sym ';']
  | formalParameters => parens parameters
  | receiverParameter =>
    inOrder [annotations, node unannotatedType, many (inOrder [token .identifier, sym '.']),
      word "this"]
  | formalParameter => inOrder [opt (node modifiers), node unannotatedType, declared]
  | spreadParameter =>
    inOrder [opt (node modifiers), node unannotatedType, operator "...", annotations,
      node variableDeclarator]
  | throws => inOrder [word "throws", commas (node type)]

end Node

def grammar : Grammar Terminal Node := ⟨Terminal.admits, Node.rule⟩

end Scaffold.Source.Java
