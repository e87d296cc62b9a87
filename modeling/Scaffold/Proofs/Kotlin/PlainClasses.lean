import Scaffold.Proofs.Kotlin.Types
import Scaffold.Proofs.PlainClasses
import Scaffold.Proofs.Searches
import Scaffold.Source

/-!
# Plain classes of Kotlin

The properties of a plain class are read alike in the constructor and in the
body.
-/

namespace Scaffold

namespace Source.Kotlin

open Piece

variable {p q : Piece} {ps qs rest : List Piece} {previous : Option Piece}

-- ---------------------------------------------------------------------------
-- Modifiers and headers
-- ---------------------------------------------------------------------------

/-- No modifier and no annotation. -/
def isSettled (p : Piece) : Bool := !p.isSymbol '@' && !modifierWords.any p.isWord

theorem dropModifiers_settled (h : isSettled p = true) : dropModifiers (p :: ps) = p :: ps := by
  simp only [isSettled, Bool.and_eq_true, Bool.not_eq_true'] at h
  simp [dropModifiers, dropMarks, AnnotationState.next?, h]

theorem dropAnnotations_settled (h : p.isSymbol '@' = false) :
    dropAnnotations (p :: ps) = p :: ps := by
  simp [dropAnnotations, dropMarks, AnnotationState.next?, h]

theorem dropFileAnnotations_settled (h : p.isSymbol '@' = false) :
    dropFileAnnotations (p :: ps) = p :: ps := by
  simp [dropFileAnnotations, dropMarks, AnnotationState.next?, h]

/-- No declaration begins with a piece that is no modifier and none of the keywords. -/
theorem recognise_inert (hp : isSettled p = true)
    (hk : ∀ w ∈ ["class", "interface", "fun", "object"], p.isWord w = false) (members : Bool) :
    recognise members previous (p :: ps) = none := by
  have hat : p.isSymbol '@' = false := by
    simp only [isSettled, Bool.and_eq_true, Bool.not_eq_true'] at hp
    exact hp.1
  have hclass : classDeclaration? (p :: ps) = none := by
    have hkeyword : classKeyword? (p :: ps) = none := by
      cases ps <;> simp [classKeyword?, hk]
    simp [classDeclaration?, dropModifiers_settled hp, hkeyword]
  have hinfix : infixReading? (p :: ps) = none := by
    simp [infixReading?, hat]
  simp [recognise, hclass, hinfix, objectDeclaration?, hk]

end Source.Kotlin

namespace Source

open Piece Kotlin

variable {ps rest : List Piece}

namespace TypeTerm

mutual

/-- A type is one piece and perhaps a list of type arguments. -/
theorem angled {plain : Piece → Bool} (hplain : ∀ b t, plain (lexeme (.word b t)) = true) (k : Nat)
    (blank : String) (t : TypeTerm) : Angled plain ((t.lexemes k blank).map .lexeme) := by
  match t with
  | apply n [] => exact .cons (hplain _ _) .nil
  | apply n (t :: ts) =>
    have hinner : Angled isArgument ((t.lexemes k "" ++ restLexemes k ts).map .lexeme) := by
      rw [List.map_append]
      exact (angled (fun _ _ => rfl) k "" t).append (restAngled k ts)
    have hblock : Angled plain (lexeme (.sign "" '<') ::
        (t.lexemes k "" ++ restLexemes k ts).map .lexeme ++ lexeme (.sign "" '>') :: []) :=
      .block (by simp) hinner (by simp) .nil
    refine .cons (hplain _ _) ?_
    simpa using hblock

theorem restAngled (k : Nat) (ts : List TypeTerm) :
    Angled isArgument ((restLexemes k ts).map .lexeme) := by
  match ts with
  | [] => exact .nil
  | t :: ts =>
    have htype : Angled isArgument ((t.lexemes k (spaces k)).map .lexeme) :=
      angled (fun _ _ => rfl) k (spaces k) t
    exact .cons (by simp [isArgument]) (by simpa using htype.append (restAngled k ts))

end

theorem spells (k : Nat) (blank : String) (t : TypeTerm) :
    Spells .named ((t.lexemes k blank).map .lexeme) := by
  have hname (n : CommonName) : Spells .named [lexeme (.word blank n.text)] :=
    .name (by simp [isName, n.kotlin_name]) (n.isWord_keyword (by decide))
  match t with
  | apply n [] => exact hname n
  | apply n (t :: ts) =>
    have hinner : Angled isArgument ((t.lexemes k "" ++ restLexemes k ts).map .lexeme) := by
      rw [List.map_append]
      exact (angled (fun _ _ => rfl) k "" t).append (restAngled k ts)
    have happlied := (hname n).applied (a := lexeme (.sign "" '<')) (b := lexeme (.sign "" '>'))
      (by simp) hinner (by simp)
    simpa [lexemes] using happlied

theorem readText_lexemes (k : Nat) (blank : String) (t : TypeTerm) :
    readText ((t.lexemes k blank).map .lexeme) [] = t.text k := by
  obtain ⟨n, ls, hls⟩ : ∃ n ls, t.lexemes k blank = .word blank (CommonName.text n) :: ls := by
    match t with
    | apply n [] | apply n (t :: ts) => exact ⟨n, _, rfl⟩
  have hcomment : (Lexeme.word blank n.text).comment? = none := by
    by_cases hb : blank = "" <;>
      simp [Lexeme.comment?, Lexeme.word, Lexeme.blanks, hb, Trivia.comment?]
  have hdynamic : (lexeme (.word blank n.text)).isWord "dynamic" = false :=
    n.isWord_keyword (by decide)
  rw [← t.spell_lexemes k blank, hls]
  simp [readText, comment?, isDynamic, first, hcomment, hdynamic]

end TypeTerm

namespace PlainClass

theorem angled_property (k : Nat) (blank : String) (f : CommonName × TypeTerm) :
    Angled isLoose ((propertyLexemes k blank f).map .lexeme) :=
  .cons rfl (.cons rfl (.cons (by simp [isLoose]) (f.2.angled (fun _ _ => rfl) k " ")))

theorem closing_property (k : Nat) (blank : String) (f : CommonName × TypeTerm) :
    Closing ((propertyLexemes k blank f).map .lexeme) := by
  have htype : Closing ((f.2.lexemes k " ").map .lexeme) :=
    .arguments (f.2.angled (fun _ _ => rfl) k " ")
  have hcolon : Closing [lexeme (.sign "" ':')] := .piece (by simp) (by simp)
  exact (Closing.piece rfl rfl).append ((Closing.piece rfl rfl).append (hcolon.append htype))

/-- The property that a parameter binds. -/
theorem parameterField_lexemes (k : Nat) (blank : String) (f : CommonName × TypeTerm) :
    parameterField? ((propertyLexemes k blank f).map .lexeme) = some ⟨f.1.text, f.2.text k⟩ := by
  have hval : isSettled (lexeme (.word blank "val")) = true := by
    change isSettled (lexeme (.word "" "val")) = true
    decide
  have htype := (f.2.spells k " ").typeText_defaulted .nil
  rw [List.append_nil, f.2.readText_lexemes] at htype
  simp only [propertyLexemes, List.map_cons, parameterField?, dropModifiers_settled hval]
  simp [bindsProperty, isWord, f.1.kotlin_name, htype]

theorem parameterFields_lexemes (k : Nat) (fs : List (CommonName × TypeTerm)) :
    parameterFields ((parameterLexemes k fs).map .lexeme) =
      fs.map fun f => ⟨f.1.text, f.2.text k⟩ := by
  cases fs with
  | nil => rfl
  | cons f fs =>
    let ws := fs.map fun f => (lexeme (.sign "" ','), (propertyLexemes k " " f).map lexeme)
    have hpieces : (parameterLexemes k (f :: fs)).map lexeme =
        (propertyLexemes k "" f).map lexeme ++ ws.flatMap fun w => w.1 :: w.2 := by
      simp [parameterLexemes, ws, List.map_flatMap, List.flatMap_map]
    have hws : ∀ w ∈ ws, w.1.isSymbol ',' = true ∧ Angled isLoose w.2 ∧ Closing w.2 := by
      intro w hw
      obtain ⟨g, -, rfl⟩ := List.mem_map.mp hw
      exact ⟨by simp, angled_property k " " g, closing_property k " " g⟩
    rw [parameterFields, hpieces, splitCommas_joined (angled_property k "" f) hws (.inl rfl)]
    simp [ws, parameterField_lexemes, Function.comp_def]

theorem bodyFields_append (h : ∀ p ∈ ps, bindsProperty p = false) :
    bodyFields (ps ++ rest) = bodyFields rest := by
  induction ps with
  | nil => rfl
  | cons p ps ih =>
    rw [List.forall_mem_cons] at h
    rw [List.cons_append, bodyFields, h.1, if_neg (by decide), ih h.2]

theorem bindsProperty_name (blank : String) (n : CommonName) :
    bindsProperty (lexeme (.word blank n.text)) = false := by
  rw [bindsProperty, n.isWord_keyword (by decide), n.isWord_keyword (by decide)]
  rfl

/-- The properties of a body, each on a line of its own. -/
theorem bodyFields_lexemes (k : Nat) (blank : String) (fs : List (CommonName × TypeTerm)) :
    bodyFields ((fs.flatMap (propertyLexemes k blank)).map .lexeme) =
      fs.map fun f => ⟨f.1.text, f.2.text k⟩ := by
  induction fs with
  | nil => rfl
  | cons f fs ih =>
    have hends : EndsType ((fs.flatMap (propertyLexemes k blank)).map .lexeme) := by
      cases fs with
      | nil => simp [EndsType]
      | cons g gs =>
        have hval : (lexeme (.word blank "val")).isArrow = false := isArrow_word rfl
        simp [EndsType, propertyLexemes, hval]
    have htype := ((f.2.spells k " ").typeText_append hends).trans (f.2.readText_lexemes k " ")
    have hunbound : ∀ p ∈ lexeme (.word " " f.1.text) :: lexeme (.sign "" ':') ::
        (f.2.lexemes k " ").map lexeme, bindsProperty p = false := by
      simp only [List.forall_mem_cons, bindsProperty_name, List.forall_mem_map]
      refine ⟨trivial, rfl, fun l hl => ?_⟩
      rcases f.2.isPart_lexemes k " " l hl with ⟨b, n, rfl⟩ | ⟨b, c, -, rfl⟩
      · exact bindsProperty_name b n
      · rfl
    have hpieces : ((f :: fs).flatMap (propertyLexemes k blank)).map lexeme =
        lexeme (.word blank "val") :: ((lexeme (.word " " f.1.text) :: lexeme (.sign "" ':') ::
          (f.2.lexemes k " ").map lexeme) ++ (fs.flatMap (propertyLexemes k blank)).map lexeme) := by
      simp [propertyLexemes]
    have hval : bindsProperty (lexeme (.word blank "val")) = true := rfl
    rw [hpieces, bodyFields, if_pos hval, bodyFields_append hunbound, ih]
    have hname : (lexeme (.word " " f.1.text)).isSymbol '@' = false := rfl
    simp [propertyField?, skipAngles, dropAnnotations_settled hname, variableName?,
      f.1.kotlin_name, htype]

-- ---------------------------------------------------------------------------
-- The class
-- ---------------------------------------------------------------------------

section

variable {ls : List Lexeme} {l : Lexeme} {previous : Option Piece}

/-- A lexeme that begins no declaration. -/
def isInert (l : Lexeme) : Bool :=
  isSettled (lexeme l) &&
    !(["class", "interface", "fun", "object"].any fun w => (lexeme l).isWord w)

theorem firstDeclaration_inert (h : ∀ k ∈ ls ++ [l], isInert k = true) :
    Outline.firstDeclaration?
        (Outline.scan recognise false false 0 previous ((ls ++ [l]).map lexeme ++ rest)).2 =
      Outline.firstDeclaration? (Outline.scan recognise false false 0 (some (lexeme l)) rest).2 := by
  have hstep {previous : Option Piece} {k : Lexeme} {ps : List Piece} (hk : isInert k = true) :
      Outline.firstDeclaration? (Outline.scan recognise false false 0 previous (lexeme k :: ps)).2 =
        Outline.firstDeclaration? (Outline.scan recognise false false 0 (some (lexeme k)) ps).2 := by
    simp only [isInert, Bool.and_eq_true, Bool.not_eq_true', List.any_eq_false,
      Bool.not_eq_true] at hk
    exact Outline.firstDeclaration_lexeme (recognise_inert hk.1 hk.2 false)
  induction ls generalizing previous with
  | nil => exact hstep (h l (by simp))
  | cons k ks ih =>
    rw [List.cons_append, List.forall_mem_cons] at h
    rw [List.cons_append, List.map_cons, List.cons_append, hstep h.1, ih h.2]

end

theorem isInert_name (blank : String) (n : CommonName) : isInert (.word blank n.text) = true := by
  have hmodifier : modifierWords.any (lexeme (.word blank n.text)).isWord = false := by
    refine List.any_eq_false.mpr fun w hw => ?_
    simp [n.isWord_keyword ((by decide : ∀ w ∈ modifierWords, w ∈ keywords) w hw)]
  simp [isInert, isSettled, hmodifier, n.isWord_keyword (by decide : "class" ∈ keywords),
    n.isWord_keyword (by decide : "interface" ∈ keywords),
    n.isWord_keyword (by decide : "fun" ∈ keywords),
    n.isWord_keyword (by decide : "object" ∈ keywords)]

theorem isInert_packageLexemes (c : PlainClass) : ∀ l ∈ c.packageLexemes, isInert l = true := by
  simp only [packageLexemes, nameLexemes, List.forall_mem_cons, List.forall_mem_flatMap,
    List.not_mem_nil, false_imp_iff, implies_true, and_true]
  exact ⟨by decide, isInert_name _ _, fun n _ => ⟨by decide, isInert_name _ _⟩⟩

/-- The header ends with a name. -/
theorem packageLexemes_last (c : PlainClass) :
    ∃ ls blank n, c.packageLexemes = ls ++ [.word blank (CommonName.text n)] := by
  rcases List.eq_nil_or_concat c.subpackages with h | ⟨ns, n, h⟩
  · exact ⟨[.word "" "package"], " ", c.package, by simp [packageLexemes, nameLexemes, h]⟩
  · exact ⟨.word "" "package" :: .word " " c.package.text ::
      ns.flatMap (fun n => [.sign "" '.', .word "" n.text]) ++ [.sign "" '.'], "", n,
      by simp [packageLexemes, nameLexemes, h]⟩

/-- The header and one group behind the name of the class. -/
def kotlinPieces (c : PlainClass) (o e : Lexeme) (inner : List Piece) : List Piece :=
  c.packageLexemes.map lexeme ++
    [lexeme (.word "\n" "class"), lexeme (.word " " c.name.text), .group o inner (some e)]

variable {o e : Lexeme} {inner : List Piece}

theorem classDeclaration_constructor (n : CommonName) (ho : o.text = "(") :
    classDeclaration? [lexeme (.word "\n" "class"), lexeme (.word " " n.text),
      .group o inner (some e)] = some (⟨n.text, parameterFields inner⟩, []) := by
  have hclass : isSettled (lexeme (.word "\n" "class")) = true := by
    change isSettled (lexeme (.word "" "class")) = true
    decide
  have hgroup : isSettled (.group o inner (some e)) = true := rfl
  have hsplit : splitConstructor [.group o inner (some e)] = (inner, []) := by
    simp [splitConstructor, dropModifiers_settled hgroup, group?, ho]
  have hkeyword : (lexeme (.word "\n" "class")).isWord "class" = true := rfl
  rw [classDeclaration?, dropModifiers_settled hclass, classKeyword?, if_pos (by simp [hkeyword])]
  simp [n.kotlin_name, skipAngles, isSymbol, hsplit, splitBody, bodyFields]

theorem classDeclaration_body (n : CommonName) (ho : o.text = "\x7b") :
    classDeclaration? [lexeme (.word "\n" "class"), lexeme (.word " " n.text),
      .group o inner (some e)] = some (⟨n.text, bodyFields inner⟩, []) := by
  have hclass : isSettled (lexeme (.word "\n" "class")) = true := by
    change isSettled (lexeme (.word "" "class")) = true
    decide
  have hgroup : isSettled (.group o inner (some e)) = true := rfl
  have hsplit : splitConstructor [.group o inner (some e)] = ([], [.group o inner (some e)]) := by
    simp [splitConstructor, dropModifiers_settled hgroup, group?, ho]
  have hkeyword : (lexeme (.word "\n" "class")).isWord "class" = true := rfl
  have hparameters : parameterFields [] = [] := rfl
  have hinner : group? (.group o inner (some e)) '\x7b' = some inner := by simp [group?, ho]
  have hbody : splitBody .named [.group o inner (some e)] = (some (.group o inner (some e)), []) :=
    if_pos (by simp [HeaderState.takesBody, isGroup, hinner])
  rw [classDeclaration?, dropModifiers_settled hclass, classKeyword?, if_pos (by simp [hkeyword])]
  simp [n.kotlin_name, skipAngles, isSymbol, hsplit, hbody, hinner, isClosed, runsOn, hparameters]

theorem trim_packageName (c : PlainClass) :
    Text.trim (' ' :: c.packageName.toList) = c.packageName.toList := by
  have hink : ∀ d ∈ c.packageName.toList, Text.isBlank d = false := by
    intro d hd
    rw [toList_packageName, List.mem_append, List.mem_flatMap] at hd
    rcases hd with hd | ⟨n, -, hd⟩
    · exact c.package.isBlank_chars hd
    · rcases List.mem_cons.mp hd with rfl | hd
      · decide
      · exact n.isBlank_chars hd
  have hdrop {ds : List Char} (h : ∀ d ∈ ds, Text.isBlank d = false) :
      ds.dropWhile Text.isBlank = ds := by
    cases ds with
    | nil => rfl
    | cons d ds => rw [List.dropWhile_cons, if_neg (by simp [h d])]
  have hend : c.packageName.toList.reverse.dropWhile Text.isBlank = c.packageName.toList.reverse :=
    hdrop (by simpa using hink)
  rw [Text.trim, List.dropWhile_cons, if_pos (by decide), hdrop hink, Text.dropEndWhile, hend,
    List.reverse_reverse]

theorem packageName_kotlinPieces (c : PlainClass) :
    packageName? (c.kotlinPieces o e inner) = some c.packageName := by
  have hname : qualifiedName (name? · |>.isSome) [] (c.nameLexemes.map lexeme ++
      [lexeme (.word "\n" "class"), lexeme (.word " " c.name.text), .group o inner (some e)]) =
        c.nameLexemes.map lexeme := by
    rw [map_nameLexemes]
    refine qualifiedName_dotted (fun q hq => ?_) (by simp [CommonName.kotlin_name])
      (by simp [links, CommonName.kotlin_name]) rfl
    cases q with
    | group => rfl
    | lexeme l =>
      simp only [name?, word?] at hq
      split at hq <;> simp_all [isSymbol]
  rw [kotlinPieces, packageLexemes, List.map_cons, List.cons_append, packageName?,
    dropFileAnnotations_settled rfl]
  dsimp only
  rw [hname, List.drop_left, charsOf_flat, written_nameLexemes]
  simp [trim_packageName, nameLexemes,
    show (lexeme (.word "" "package")).isWord "package" = true from rfl]

theorem firstDeclaration_kotlinPieces (c : PlainClass) {d : Declaration}
    (h : classDeclaration? [lexeme (.word "\n" "class"), lexeme (.word " " c.name.text),
      .group o inner (some e)] = some (d, [])) :
    Outline.firstDeclaration? (outline (c.kotlinPieces o e inner)) = some d := by
  obtain ⟨ls, blank, n, hlast⟩ := c.packageLexemes_last
  have hinert : ∀ l ∈ ls ++ [.word blank n.text], isInert l = true :=
    hlast ▸ c.isInert_packageLexemes
  have hheader : dropFileAnnotations (c.kotlinPieces o e inner) = c.kotlinPieces o e inner :=
    dropFileAnnotations_settled rfl
  have hrecognise : recognise false (some (lexeme (.word blank n.text)))
      [lexeme (.word "\n" "class"), lexeme (.word " " c.name.text), .group o inner (some e)] =
        some ⟨.declaration d, 3, true⟩ := by
    simp [recognise, runsOn, lacksOperand, group?, dropModifiers, dropMarks, infixReading?, h]
  rw [outline, hheader, Outline.ofPieces, kotlinPieces, hlast, firstDeclaration_inert hinert]
  exact Outline.firstDeclaration_head hrecognise rfl

theorem resolve_kotlinPieces {s : SourceFile} (k : Nat) (c : PlainClass)
    (hs : s.language = .kotlin) (hpieces : s.pieces = c.kotlinPieces o e inner)
    (h : classDeclaration? [lexeme (.word "\n" "class"), lexeme (.word " " c.name.text),
      .group o inner (some e)] = some (⟨c.name.text, (c.entity k .kotlin).fields⟩, []))
    (strict : Bool) : s.resolve strict = .ok (c.entity k .kotlin) := by
  have hdeclaration : s.declaration? = some ⟨c.name.text, (c.entity k .kotlin).fields⟩ := by
    rw [SourceFile.declaration?, SourceFile.outline, hs, hpieces]
    exact c.firstDeclaration_kotlinPieces h
  have hpackage : s.packageName? = some c.packageName := by
    rw [SourceFile.packageName?, hs, hpieces]
    exact c.packageName_kotlinPieces
  have hfields := c.entity_resolved k .kotlin
  simp only [SourceFile.resolve, hdeclaration, hpackage, Option.getD_some, hs, hfields,
    qualify_packageName]
  rfl

/-- The group behind the name of the class is nested as it is written. -/
theorem ofLexemes_kotlinPieces (c : PlainClass) {d : Char} {ls : List Lexeme}
    (he : Encloses d o e) (hls : ∀ l ∈ ls, isFlat l = true) :
    Piece.ofLexemes (c.packageLexemes ++ [.word "\n" "class", .word " " c.name.text, o] ++ ls ++ [e]) =
      c.kotlinPieces o e (ls.map lexeme) := by
  have hnested : Nested (c.kotlinPieces o e (ls.map lexeme)) := by
    have hname : Nested ([Lexeme.word "\n" "class", .word " " c.name.text].map lexeme) :=
      .flat (by simp)
    exact (Nested.flat c.isFlat_packageLexemes).append (hname.append (.group he (.flat hls)))
  rw [← hnested.ofLexemes_lexemesOf]
  simp [kotlinPieces, lexemesOf_append, lexemesOf, Piece.lexemes]

theorem resolve_constructorText (path : Path) (k : Nat) (c : PlainClass) (strict : Bool) :
    SourceFile.resolve ⟨path, .kotlin, c.constructorText k⟩ strict = .ok (c.entity k .kotlin) := by
  have hflat : ∀ l ∈ parameterLexemes k c.fields, isFlat l = true := by
    cases c.fields with
    | nil => simp [parameterLexemes]
    | cons f fs =>
      simp only [parameterLexemes, List.forall_mem_append, List.forall_mem_flatMap,
        List.forall_mem_cons]
      exact ⟨isFlat_propertyLexemes k "" f, fun g _ => ⟨by decide, isFlat_propertyLexemes k " " g⟩⟩
  have hpieces : SourceFile.pieces ⟨path, .kotlin, c.constructorText k⟩ =
      c.kotlinPieces (.sign "" '(') (.sign "" ')') ((parameterLexemes k c.fields).map lexeme) := by
    rw [SourceFile.pieces]
    simp only [lexemes_constructorText]
    exact c.ofLexemes_kotlinPieces (d := '(') (by constructor <;> decide) hflat
  refine c.resolve_kotlinPieces k rfl hpieces ?_ strict
  rw [classDeclaration_constructor c.name rfl, parameterFields_lexemes]
  rfl

theorem resolve_bodyText (path : Path) (k indent : Nat) (c : PlainClass) (strict : Bool) :
    SourceFile.resolve ⟨path, .kotlin, c.bodyText k indent⟩ strict = .ok (c.entity k .kotlin) := by
  have hflat : ∀ l ∈ c.fields.flatMap (propertyLexemes k ("\n" ++ spaces indent)),
      isFlat l = true :=
    List.forall_mem_flatMap.mpr fun f _ => isFlat_propertyLexemes k _ f
  have hpieces : SourceFile.pieces ⟨path, .kotlin, c.bodyText k indent⟩ =
      c.kotlinPieces (.sign " " '\x7b') (.sign "\n" '\x7d')
        ((c.fields.flatMap (propertyLexemes k ("\n" ++ spaces indent))).map lexeme) := by
    rw [SourceFile.pieces]
    simp only [lexemes_bodyText]
    exact c.ofLexemes_kotlinPieces (d := '\x7b') (by constructor <;> decide) hflat
  refine c.resolve_kotlinPieces k rfl hpieces ?_ strict
  rw [classDeclaration_body c.name rfl, bodyFields_lexemes]
  rfl

end PlainClass

end Source

end Scaffold
