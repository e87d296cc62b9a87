import Scaffold.Proofs.Java.Spacings
import Scaffold.Proofs.Java.Verbatim

/-!
# Blanks and comments in a source

A source is resolved alike with more blanks and comments between its lexemes,
whatever the comments say. Only the texts that are read verbatim show what
stands inside them, and a slash makes a comment of a comment behind it.
-/

namespace Scaffold

namespace Source.Java

open Piece Source.Tree

variable {front back t : List Char} {ts : Trees}

/-- The gaps in the package name, the field types and the declarator dimensions. -/
def verbatimGaps (ts : Trees) : List Nat :=
  packageGaps 0 (piecesOf ts) ++ declaredGaps ts

theorem Accepts.named {text : String} (h : Accepts text ts) : Named (piecesOf ts) :=
  h.parses.shown packageTest_shows (by decide)

/-- A source with more between two lexemes has the same tree with another gap. -/
theorem accepts_spaced (hts : Accepts (String.ofList (front ++ back)) ts) (hcut : Between front back)
    (ht : Spacing t) (hp : Parted front t) :
    ∃ e : Respacing, (∀ i ≠ (lexemes front).length, ∀ gap, e i gap = gap) ∧
      Accepts (String.ofList (front ++ t ++ back)) (respaces e 0 ts) := by
  obtain ⟨l, ls, g, hwhole, hspaced⟩ := hcut.lexemes_spaced ht hp
  let e : Respacing := fun i gap => if i = (lexemes front).length then g else gap
  have hother : ∀ i ≠ (lexemes front).length, ∀ gap, e i gap = gap := fun i hi gap => if_neg hi
  have hfront : ((lexemes front).mapIdx fun i l => l.respace e (0 + i)) = lexemes front :=
    mapIdx_respace_keep fun i hi => hother i (by rw [List.mem_range'_1] at hi; omega)
  have hback : (ls.mapIdx fun i l => l.respace e ((lexemes front).length + 1 + i)) = ls :=
    mapIdx_respace_keep fun i hi => hother i (by rw [List.mem_range'_1] at hi; omega)
  have hcut : l.respace e (lexemes front).length = l.regap g := congrArg l.regap (if_pos rfl)
  have hshift (i : Nat) : 0 + (i + 1 + (lexemes front).length) = (lexemes front).length + 1 + i := by
    omega
  refine ⟨e, hother, hts.parses.respaces grammar_gapless 0, ?_⟩
  rw [piecesOf_respaces, Piece.lexemes_respaces, hts.lexemes, String.toList_ofList,
    String.toList_ofList, hwhole, hspaced, List.mapIdx_append, hfront, List.mapIdx_cons]
  simp only [hshift, hback, Nat.zero_add, hcut]

end Source.Java

namespace SourceFile

open Source Source.Java Source.Tree

theorem packageName_accepted {s : SourceFile} {ts : Trees} (hs : s.language = .java)
    (h : Accepts s.text ts) : s.packageName? = Java.packageName? (piecesOf ts) := by
  rw [packageName?, hs, pieces_accepted hs h]

/-- Two texts of a file are resolved alike if they declare the same in the same package. -/
theorem resolve_congr {s : SourceFile} {text : String}
    (hd : declaration? { s with text } = s.declaration?)
    (hp : packageName? { s with text } = s.packageName?) (strict : Bool) :
    resolve { s with text } strict = s.resolve strict := by
  simp only [resolve, hd, hp]

/-- More blanks and comments between two lexemes of an accepted source change nothing about what it
is resolved to, outside the package name, the field types and the declarator dimensions. -/
theorem resolve_spaced {s : SourceFile} {ts : Trees} {front back t : List Char}
    (hs : s.language = .java) (hts : Accepts s.text ts) (htext : s.text.toList = front ++ back)
    (hcut : Between front back) (hfree : (lexemes front).length ∉ verbatimGaps ts)
    (ht : Spacing t) (hp : Parted front t) (strict : Bool) :
    resolve { s with text := String.ofList (front ++ t ++ back) } strict = s.resolve strict := by
  have hold : Accepts (String.ofList (front ++ back)) ts := by
    rwa [← htext, String.ofList_toList]
  obtain ⟨e, he, hnew⟩ := accepts_spaced hold hcut ht hp
  have hkeeps : e.Keeps (verbatimGaps ts) := fun i hi => he i fun heq => hfree (heq ▸ hi)
  obtain ⟨hpackage, hdeclared⟩ := Respacing.keeps_append.mp hkeeps
  let s' : SourceFile := { s with text := String.ofList (front ++ t ++ back) }
  have hs' : s'.language = .java := hs
  refine resolve_congr (?_ : s'.declaration? = _) (?_ : s'.packageName? = _) strict
  · rw [declaration_accepted hs hts, declaration_accepted hs' hnew]
    exact firstDeclaration_respaces hdeclared
  · rw [packageName_accepted hs hts, packageName_accepted hs' hnew, piecesOf_respaces]
    exact packageName_respaces hts.named hpackage

/-- A name that is declared, perhaps with a value. -/
def declarator (name : String) (value : Trees) : Source.Tree Node :=
  .node .variableDeclarator (.node .identifier [.leaf (.word " " name)] :: value)

/-- A field of a type that is one word. -/
def wordField (type : Lexeme) (declarators : Trees) (semicolon : Lexeme) : Source.Tree Node :=
  .node .fieldDeclaration
    (.node .unannotatedType [.node .simpleType [.leaf type]] :: declarators ++ [.leaf semicolon])

/-- A field with a template that a call is inserted into. -/
def templateField : Source.Tree Node :=
  let argument : Source.Tree Node := .node .expression [.node .primary [.node .stringLiteral
    [.leaf ⟨[], .string .single true true, "\"\x7d\""⟩]]]
  let call : Source.Tree Node := .node .expression [.node .primary [.node .methodInvocation
    [.leaf (.word "" "f"),
     .node .argumentList [.group (.sign "" '(') [argument] (.sign "" ')')]]]]
  let template : Source.Tree Node := .node .stringLiteral
    [.leaf ⟨[], .string .single true false, "\"\\\x7b"⟩, call,
     .leaf ⟨[], .string .single false true, "\x7d\""⟩]
  wordField (.word "" "String")
    [declarator "s" [.leaf (.sign " " '='), .node .variableInitializer [.node .expression
      [.node .primary [.node .primary [.leaf (.word " " "STR")], .leaf (.sign "" '.'), template]]]]]
    (.sign "" ';')

/-- A template up to what is passed to the call. -/
def templateFront : String := "class Point \x7bString s = STR.\"\\\x7bf("

/-- A string that ends like the inserted code, the end of that code and that of the template. -/
def templateBack : String := "\"\x7d\")\x7d\";\x7d"

theorem accepts_template :
    Accepts (templateFront ++ templateBack) (pointClass [templateField]) where
  lexemes := by decide
  parses := .of_check 110 (by decide +kernel)

/-- A comment about another class. -/
def classComment : String := "/*class Q \x7blong z;\x7d*/"

/-- The comment stands between the type and the name of a field, and inside the code that is
inserted into a template. -/
theorem resolve_spaced_of_point :
    Spacing classComment.toList ∧
    (Between "class Point \x7bint".toList " x, y[];\x7d".toList ∧
      (lexemes "class Point \x7bint".toList).length ∉ verbatimGaps (pointClass [pointField]) ∧
      Parted "class Point \x7bint".toList classComment.toList ∧
      resolve
          ⟨⟨"Point.java"⟩, .java, "class Point \x7bint" ++ classComment ++ " x, y[];\x7d"⟩ true =
        resolve ⟨⟨"Point.java"⟩, .java, "class Point \x7bint" ++ " x, y[];\x7d"⟩ true) ∧
    (Between templateFront.toList templateBack.toList ∧
      (lexemes templateFront.toList).length ∉ verbatimGaps (pointClass [templateField]) ∧
      Parted templateFront.toList classComment.toList ∧
      resolve ⟨⟨"Point.java"⟩, .java, templateFront ++ classComment ++ templateBack⟩ true =
        resolve ⟨⟨"Point.java"⟩, .java, templateFront ++ templateBack⟩ true) := by
  have hcontent : '/' ∉ "class Q \x7blong z;\x7d".toList := by decide
  have ht : Spacing classComment.toList := .block fun h => hcontent (h.subset (by simp))
  have hresolve {front back : String} {ts : Trees} (haccepts : Accepts (front ++ back) ts)
      (hcut : Between front.toList back.toList)
      (hfree : (lexemes front.toList).length ∉ verbatimGaps ts)
      (hp : Parted front.toList classComment.toList) :
      resolve ⟨⟨"Point.java"⟩, .java, front ++ classComment ++ back⟩ true =
        resolve ⟨⟨"Point.java"⟩, .java, front ++ back⟩ true := by
    have hspaced := resolve_spaced (s := ⟨⟨"Point.java"⟩, .java, front ++ back⟩) rfl haccepts
      String.toList_append hcut hfree ht hp true
    simpa [String.ofList_append, String.append_assoc] using hspaced
  refine ⟨ht, ?_, ?_⟩
  · have hcut : Between "class Point \x7bint".toList " x, y[];\x7d".toList := by
      refine ⟨by decide, .word " " "x", [.sign "" ',', .word " " "y", .sign "" '[', .sign "" ']',
        .sign "" ';', .sign "" '\x7d'], ?_⟩
      decide
    have hfree : (lexemes "class Point \x7bint".toList).length ∉
        verbatimGaps (pointClass [pointField]) := by decide
    have hp : Parted "class Point \x7bint".toList classComment.toList :=
      ⟨by decide, fun h => absurd h (by decide)⟩
    exact ⟨hcut, hfree, hp, hresolve accepts_pointClass hcut hfree hp⟩
  · have hcut : Between templateFront.toList templateBack.toList := by
      refine ⟨by decide, ⟨[], .string .single true true, "\"\x7d\""⟩, [.sign "" ')',
        ⟨[], .string .single false true, "\x7d\""⟩, .sign "" ';', .sign "" '\x7d'], ?_⟩
      decide
    have hfree : (lexemes templateFront.toList).length ∉
        verbatimGaps (pointClass [templateField]) := by decide
    have hp : Parted templateFront.toList classComment.toList :=
      ⟨by decide, fun h => absurd h (by decide)⟩
    exact ⟨hcut, hfree, hp, hresolve accepts_template hcut hfree hp⟩

-- ---------------------------------------------------------------------------
-- Comments that are none
-- ---------------------------------------------------------------------------

/-- Sources whose first declarations have different fields are resolved differently. -/
theorem resolve_ne {s s' : SourceFile} {ts ts' : Trees} {d d' : Declared} (hs : s.language = .java)
    (hs' : s'.language = .java) (hts : Accepts s.text ts) (hts' : Accepts s'.text ts')
    (hd : firstOf ts = some d) (hd' : firstOf ts' = some d')
    (hne : fieldsIn d'.kind d'.trees ≠ fieldsIn d.kind d.trees) (strict : Bool) :
    s'.resolve strict ≠ s.resolve strict := by
  intro heq
  obtain ⟨e, he, -, hf⟩ := resolve_accepted hs hts hd strict
  obtain ⟨e', he', -, hf'⟩ := resolve_accepted hs' hts' hd' strict
  obtain rfl : e' = e := Except.ok.inj (he'.symm.trans (heq.trans he))
  exact hne (hf'.symm.trans hf)

/-- A number as an expression. -/
def numeral (blank text : String) : Source.Tree Node :=
  .node .expression [.node .primary [.node .numeral [.leaf (.word blank text)]]]

/-- A field whose value is a quotient, in front of another name. -/
def quotientField : Source.Tree Node :=
  wordField (.word "" "int")
    [declarator "x" [.leaf (.sign " " '='), .node .variableInitializer [.node .expression
      [.node .binary [numeral " " "6", .leaf (.sign "" '/'), numeral "" "2"]]]],
     .leaf (.sign "" ','), declarator "y" []]
    (.sign "\n" ';')

/-- The field when all behind the slash is a comment. -/
def dividendField : Source.Tree Node :=
  wordField (.word "" "int")
    [declarator "x" [.leaf (.sign " " '='), .node .variableInitializer [numeral " " "6"]]]
    ⟨[.comment "//**/2, y".toList, .blank ['\n']], .symbol, ";"⟩

/-- A field behind a line that is a comment. -/
def commentedField (comment name : String) : Source.Tree Node :=
  wordField ⟨[.comment comment.toList, .blank ['\n']], .word, "int"⟩ [declarator name []]
    (.sign "" ';')

/-- A comment behind a slash is part of the line comment that both slashes begin, and a comment in a
line comment ends with the line. -/
theorem comment_taken :
    (Accepts "class Point \x7bint x = 6/2, y\n;\x7d" (pointClass [quotientField]) ∧
      Between "class Point \x7bint x = 6/".toList "2, y\n;\x7d".toList ∧
      (lexemes "class Point \x7bint x = 6/".toList).length ∉
        verbatimGaps (pointClass [quotientField]) ∧
      Spacing "/**/".toList ∧
      resolve ⟨⟨"Point.java"⟩, .java, "class Point \x7bint x = 6//**/2, y\n;\x7d"⟩ true ≠
        resolve ⟨⟨"Point.java"⟩, .java, "class Point \x7bint x = 6/2, y\n;\x7d"⟩ true) ∧
    (Accepts "class Point \x7b//\nint x;\x7d" (pointClass [commentedField "//" "x"]) ∧
      Between "class Point \x7b//".toList "\nint x;\x7d".toList ∧
      (lexemes "class Point \x7b//".toList).length ∉
        verbatimGaps (pointClass [commentedField "//" "x"]) ∧
      Spacing "/*\nint y;//*/".toList ∧
      resolve ⟨⟨"Point.java"⟩, .java, "class Point \x7b///*\nint y;//*/\nint x;\x7d"⟩ true ≠
        resolve ⟨⟨"Point.java"⟩, .java, "class Point \x7b//\nint x;\x7d"⟩ true) := by
  have hquotient : Accepts "class Point \x7bint x = 6/2, y\n;\x7d" (pointClass [quotientField]) :=
    { lexemes := by decide, parses := .of_check 80 (by decide) }
  have hdividend : Accepts "class Point \x7bint x = 6//**/2, y\n;\x7d"
      (pointClass [dividendField]) :=
    { lexemes := by decide, parses := .of_check 80 (by decide) }
  have hone : Accepts "class Point \x7b//\nint x;\x7d" (pointClass [commentedField "//" "x"]) :=
    { lexemes := by decide, parses := .of_check 40 (by decide) }
  have htwo : Accepts "class Point \x7b///*\nint y;//*/\nint x;\x7d"
      (pointClass [commentedField "///*" "y", commentedField "//*/" "x"]) :=
    { lexemes := by decide, parses := .of_check 40 (by decide) }
  have hslash : Between "class Point \x7bint x = 6/".toList "2, y\n;\x7d".toList :=
    ⟨by decide, .word "" "2", [.sign "" ',', .word " " "y", .sign "\n" ';', .sign "" '\x7d'],
      by decide⟩
  have hline : Between "class Point \x7b//".toList "\nint x;\x7d".toList :=
    ⟨by decide, ⟨[.comment "//".toList, .blank ['\n']], .word, "int"⟩,
      [.word " " "x", .sign "" ';', .sign "" '\x7d'], by decide⟩
  have hempty : ¬['*', '/'] <:+: [] := by simp
  have hcontent : '*' ∉ "\nint y;//".toList := by decide
  refine ⟨⟨hquotient, hslash, by decide, .block hempty, ?_⟩,
    ⟨hone, hline, by decide, .block fun h => hcontent (h.subset (by simp)), ?_⟩⟩
  · exact resolve_ne rfl rfl hquotient hdividend rfl rfl (by decide) true
  · exact resolve_ne rfl rfl hone htwo rfl rfl (by decide) true

end SourceFile

end Scaffold
