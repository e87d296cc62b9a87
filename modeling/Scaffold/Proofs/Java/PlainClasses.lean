import Scaffold.Proofs.Java.Units
import Scaffold.Proofs.PlainClasses

/-!
# Plain classes of Java

The members of a plain class are private fields of the grammar.
-/

namespace Scaffold

namespace Source

open Piece Source.Tree Java

namespace TypeTerm

/-- A type argument. -/
def argument (t : Tree Node) : Tree Node := .node .type [.node .unannotatedType [t]]

mutual

def tree (k : Nat) (blank : String) : TypeTerm → Tree Node
  | apply n [] => .node .simpleType [.leaf (.word blank n.text)]
  | apply n (t :: ts) =>
    .node .simpleType [.node .genericType
      [.leaf (.word blank n.text),
       .node .typeArguments
        (.leaf (.sign "" '<') :: (argument (t.tree k "") :: restTrees k ts) ++ [.leaf (.sign "" '>')])]]

def restTrees (k : Nat) : List TypeTerm → Trees
  | [] => []
  | t :: ts => .leaf (.sign "" ',') :: argument (t.tree k (spaces k)) :: restTrees k ts

end

mutual

theorem pieces_tree (k : Nat) (blank : String) (t : TypeTerm) :
    (t.tree k blank).pieces = (t.lexemes k blank).map .lexeme := by
  match t with
  | apply n [] => simp [tree, lexemes]
  | apply n (t :: ts) =>
    simp [tree, lexemes, argument, pieces_tree k "" t, pieces_restTrees k ts]

theorem pieces_restTrees (k : Nat) (ts : List TypeTerm) :
    piecesOf (restTrees k ts) = (restLexemes k ts).map .lexeme := by
  match ts with
  | [] => rfl
  | t :: ts =>
    simp [restTrees, restLexemes, argument, pieces_tree k (spaces k) t, pieces_restTrees k ts]

end

theorem admits_typeIdentifier (blank : String) (n : CommonName) :
    grammar.admits .typeIdentifier (.word blank n.text) = true := by
  have hname : isNameText n.text = true := by
    have := n.java_name ""
    simp [isNameText, isName, this]
  refine admits_typeIdentifier_text hname ?_ ?_
  · intro h
    exact n.notMem_keywords (h ▸ by decide)
  · intro h
    exact n.notMem_keywords (h ▸ by decide)

theorem parses_argument {t : Tree Node} (h : Parses grammar (.node .simpleType) [t]) :
    Parses grammar (.oneOf [.node .type, .node .wildcard]) [argument t] :=
  .left (.node (.left (.node (.left h))))

mutual

theorem parses_tree (k : Nat) (blank : String) (t : TypeTerm) :
    Parses grammar (.node .simpleType) [t.tree k blank] := by
  match t with
  | apply n [] =>
    exact .node (.right (.left (.token (admits_typeIdentifier blank n))))
  | apply n (t :: ts) =>
    have harguments := Parses.seq (parses_argument (parses_tree k "" t)) (parses_restTrees k ts)
    refine .node (.right (.right (.right (.node (.seq (.left (.token (admits_typeIdentifier blank n)))
      (.node (.angles ?_ (.left harguments) ?_)))))))
    · simp [isSymbol, Lexeme.sign]
    · simp [isSymbol, Lexeme.sign]

theorem parses_restTrees (k : Nat) (ts : List TypeTerm) :
    Parses grammar (.many (.seq (Node.sym ',') (.oneOf [.node .type, .node .wildcard])))
      (restTrees k ts) := by
  match ts with
  | [] => exact .stop
  | t :: ts =>
    exact .more (.seq (.token (admits_sign (by decide))) (parses_argument (parses_tree k (spaces k) t)))
      (parses_restTrees k ts)

end

end TypeTerm

namespace PlainClass

/-- The members of the class. -/
def members (k : Nat) (c : PlainClass) : Trees :=
  c.fields.map fun f => privateField " " [] [f.2.tree k " "] f.1.text

theorem pieces_members (k : Nat) (c : PlainClass) :
    piecesOf (c.members k) = (c.fields.flatMap (memberLexemes k)).map .lexeme := by
  rw [members]
  induction c.fields with
  | nil => rfl
  | cons f fs ih =>
    simp [ih, pieces_privateField, memberLexemes, TypeTerm.pieces_tree]

theorem parses_members (k : Nat) (c : PlainClass) :
    Parses grammar (Node.membersOf Node.members) (c.members k) := by
  have hname (n : CommonName) : isNameText n.text = true := by
    have := n.java_name ""
    simp [isNameText, isName, this]
  rw [members]
  induction c.fields with
  | nil => exact .stop
  | cons f fs ih =>
    have hfield : Parses grammar (.node .fieldDeclaration)
        [privateField " " [] [f.2.tree k " "] f.1.text] :=
      parses_privateField (by simp) (.left (f.2.parses_tree k " ")) (hname f.1)
    exact .more (Parses.oneOf (List.mem_cons_of_mem _ (List.mem_map_of_mem (by decide))) hfield) ih

/-- The pieces of the text in Java. -/
def javaPieces (k : Nat) (c : PlainClass) : List Piece :=
  (c.packageLexemes ++ [Lexeme.sign "" ';', Lexeme.word " " "class", Lexeme.word " " c.name.text]).map
      .lexeme ++
    [.group (.sign " " '\x7b') (piecesOf (c.members k)) (some (.sign " " '\x7d'))]

theorem pieces_javaText (k : Nat) (c : PlainClass) :
    Piece.ofLexemes (Java.lexemes (c.javaText k).toList) = c.javaPieces k := by
  have hnested : Nested (c.javaPieces k) := by
    refine .append (.flat ?_) (.group (c := '\x7b') ?_ ((c.parses_members k).nested grammar_unbracketed))
    · simpa [or_imp, forall_and] using c.isFlat_packageLexemes
    · constructor <;> decide
  have hlexemes : lexemesOf (c.javaPieces k) = c.javaLexemes k := by
    rw [javaPieces, lexemesOf_append, lexemesOf_flat]
    simp [javaLexemes, lexemesOf, Piece.lexemes, pieces_members]
  rw [lexemes_javaText, ← hlexemes, hnested.ofLexemes_lexemesOf]

theorem spelled_tree (k : Nat) (blank : String) (t : TypeTerm) :
    spelled [t.tree k blank] = t.text k := by
  rw [spelled, piecesOf_cons, TypeTerm.pieces_tree, piecesOf_nil, List.append_nil,
    TypeTerm.spell_lexemes]

theorem resolve_javaText (path : Path) (k : Nat) (c : PlainClass) (strict : Bool) :
    SourceFile.resolve ⟨path, .java, c.javaText k⟩ strict = .ok (c.entity k .java) := by
  have hname (blank : String) (n : CommonName) : isName (lexeme (.word blank n.text)) = true := by
    simp [isName, n.java_name]
  have hkeyword : typeKeyword? [lexeme (.word " " "class"), lexeme (.word " " c.name.text),
      .group (.sign " " '\x7b') (piecesOf (c.members k)) (some (.sign " " '\x7d'))] =
        some (.plain, lexeme (.word " " c.name.text) ::
          ([] ++ .group (.sign " " '\x7b') (piecesOf (c.members k)) (some (.sign " " '\x7d')) :: [])) :=
    typeKeyword_word (k := "class") rfl (by decide)
  have hclass : typeDeclaration? ([] ++ [lexeme (.word " " "class"), lexeme (.word " " c.name.text),
      .group (.sign " " '\x7b') (piecesOf (c.members k)) (some (.sign " " '\x7d'))]) =
        some (⟨c.name.text, fieldsOf .plain [] (piecesOf (c.members k))⟩, []) :=
    typeDeclaration_read .plain [] ⟨[], by simp, rfl⟩ (settled_keyword (k := "class") rfl (by decide))
      hkeyword (by simp) (c.name.java_name _) (by simp) (by simp [group?, Lexeme.sign])
  have hfields : fieldsOf .plain [] (piecesOf (c.members k)) = (c.entity k .java).fields := by
    rw [fieldsOf, body_read (.inl rfl) (c.parses_members k), members, List.flatMap_map]
    simp [entity, spelled_tree, ← List.map_eq_flatMap]
  have hpackage : spell (c.nameLexemes.map .lexeme) = c.packageName :=
    spell_flat (b := " ") (by simp [written_nameLexemes]) (by simp [nameLexemes])
  rw [SourceFile.resolve_unit c.links []
    (k := lexeme (.word "" "package")) (p := lexeme (.word " " c.package.text))
    (e := lexeme (.sign "" ';')) rfl rfl (hname _ _) (by simp [links, hname]) rfl
    (by simp) hclass ?_ strict, ← map_nameLexemes, hpackage, hfields]
  · rw [c.qualify_packageName]
    rfl
  · rw [← map_nameLexemes, SourceFile.pieces]
    simp [pieces_javaText, javaPieces, packageLexemes]

end PlainClass

end Source

end Scaffold
