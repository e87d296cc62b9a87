import Scaffold.Proofs.Java.Grammar
import Scaffold.Entity

/-!
# What a syntax tree of Java declares

Names, members and fields are read off the nodes of a tree: a field or constant
declaration has one entry for each of its declarators, and a record has one for
each component in front of those of its members.
-/

namespace Scaffold.Source.Java

open Source.Tree

abbrev Trees := List (Tree Node)

/-- What stands below the children of one kind. -/
def children (n : Node) (ts : Trees) : List Trees :=
  ts.filterMap fun
    | .node m us => if m = n then some us else none
    | _ => none

@[simp] theorem children_nil (n : Node) : children n [] = [] := rfl

@[simp] theorem children_append (n : Node) (ts us : Trees) :
    children n (ts ++ us) = children n ts ++ children n us :=
  List.filterMap_append

@[simp] theorem children_leaf (n : Node) (l : Lexeme) (ts : Trees) :
    children n (.leaf l :: ts) = children n ts := rfl

@[simp] theorem children_group (n : Node) (o e : Lexeme) (us ts : Trees) :
    children n (.group o us e :: ts) = children n ts := rfl

@[simp] theorem children_same (n : Node) (us ts : Trees) :
    children n (.node n us :: ts) = us :: children n ts := by
  simp [children]

theorem children_other {n m : Node} (h : m ≠ n) (us ts : Trees) :
    children n (.node m us :: ts) = children n ts := by
  simp [children, h]

/-- What stands below the first child of a kind. -/
def child (n : Node) (ts : Trees) : Trees :=
  (children n ts).head?.getD []

/-- What stands between the brackets that the trees consist of. -/
def between : Trees → Trees
  | [.group _ ts _] => ts
  | _ => []

/-- The name that a declaration or a declarator gives. -/
def nameOf (ts : Trees) : String :=
  match child .identifier ts with
  | [.leaf l] => l.text
  | _ => ""

/-- The text of the trees, verbatim from the first lexeme to the last. -/
def spelled (ts : Trees) : String :=
  Piece.spell (piecesOf ts)

/-- The field that a declarator gives: the declared type with the declarator's own dimensions. -/
def entry (type declarator : Trees) : Field :=
  ⟨nameOf declarator, spelled type ++ spelled (child .dimensions declarator)⟩

/-- The fields that a member declares: one for each declarator of a field or constant. -/
def entries : Tree Node → List Field
  | .node .fieldDeclaration ts | .node .constantDeclaration ts =>
    (children .variableDeclarator ts).map (entry (child .unannotatedType ts))
  | _ => []

/-- The kinds of nodes that declare a class, a record, an interface, an annotation type or an
enumeration. -/
def Node.declares : Node → Bool
  | .classDeclaration | .recordDeclaration | .interfaceDeclaration | .annotationTypeDeclaration
  | .enumDeclaration => true
  | _ => false

/-- The members in the body of a declaration; those of an enumeration stand behind its
constants. -/
def membersIn : Node → Trees → Trees
  | .classDeclaration, ts | .recordDeclaration, ts => between (child .classBody ts)
  | .interfaceDeclaration, ts => between (child .interfaceBody ts)
  | .annotationTypeDeclaration, ts => between (child .annotationTypeBody ts)
  | .enumDeclaration, ts => child .enumBodyDeclarations (between (child .enumBody ts))
  | _, _ => []

/-- The fields of record components: those of a fixed arity. -/
def components (ts : Trees) : List Field :=
  (children .formalParameter (between (child .formalParameters ts))).map fun us =>
    ⟨nameOf us, spelled (child .unannotatedType us)⟩

def fieldsIn (n : Node) (ts : Trees) : List Field :=
  (if n = .recordDeclaration then components ts else []) ++ (membersIn n ts).flatMap entries

/-- A declaration in a tree: its kind and what stands below it. -/
structure Declared where
  kind : Node
  trees : Trees

def Declared.declaration (d : Declared) : Declaration :=
  ⟨nameOf d.trees, fieldsIn d.kind d.trees⟩

mutual

/-- The first declaration of a tree, outer before inner. -/
def firstDeclared : Tree Node → Option Declared
  | .leaf _ => none
  | .group _ ts _ => firstOf ts
  | .node n ts => if n.declares then some ⟨n, ts⟩ else firstOf ts

def firstOf : Trees → Option Declared
  | [] => none
  | t :: ts => (firstDeclared t).or (firstOf ts)

end

theorem firstOf_append (ts us : Trees) : firstOf (ts ++ us) = (firstOf ts).or (firstOf us) := by
  induction ts with
  | nil => rfl
  | cons t ts ih => simp [firstOf, ih, Option.or_assoc]

/-- The source text is accepted, with its syntax tree. -/
structure Accepts (text : String) (ts : Trees) : Prop where
  parses : Parses grammar (grammar.rule .program) ts
  lexemes : Piece.lexemesOf (piecesOf ts) = lexemes text.toList

end Scaffold.Source.Java
