import Scaffold.Proofs.Java.Declarations

/-!
# What introduces no declaration

A word that could introduce a declaration does so only with a name, parameters
and a body behind it, and a modifier stands in front of a declaration only when
nothing else stands between them. Most pieces rule out both.
-/

namespace Scaffold.Source.Java

open Piece Source.Tree Rule

-- ---------------------------------------------------------------------------
-- Pieces in front of which no declaration stands
-- ---------------------------------------------------------------------------

/-- No declaration is introduced in front. -/
def Barren (ps : List Piece) : Prop := introduced? ps = none

/-- A keyword put in front introduces nothing. -/
def Tame (ps : List Piece) : Prop :=
  ∀ p : Piece, p.isWord "class" = true ∨ p.isWord "record" = true → Barren (p :: ps)

/-- A sign put in front introduces no annotation type. -/
def Unsigned (ps : List Piece) : Prop :=
  ps.head?.any (·.isWord "interface") = false

/-- No declaration stands in front, whatever modifiers have been read before, in part or whole. -/
structure Plain (ps : List Piece) : Prop where
  dropped (s : AnnotationState) : Barren (dropModifiers s ps)
  behindDash {p : Piece} {rest : List Piece} : ps = p :: rest → p.isWord "sealed" = true →
    Barren (dropModifiers .outside rest)
  behindNon {p q : Piece} {rest : List Piece} : ps = p :: q :: rest → p.isSymbol '-' = true →
    q.isWord "sealed" = true → Barren (dropModifiers .outside rest)

variable {p : Piece} {ps qs rest : List Piece} {ts us : Trees}

theorem Barren.nil : Barren [] := rfl

theorem Barren.cons (hword : ∀ w ∈ ["class", "interface", "enum", "record"], p.isWord w = false)
    (hat : p.isSymbol '@' = false ∨ Unsigned ps) : Barren (p :: ps) := by
  have hkeyword : typeKeyword? (p :: ps) = none := by
    have h1 := hword "class" (by decide)
    have h2 := hword "interface" (by decide)
    have h3 := hword "enum" (by decide)
    have h4 := hword "record" (by decide)
    cases ps with
    | nil => simp [typeKeyword?, h1, h2, h3, h4]
    | cons q ps =>
      rcases hat with hat | hat
      · simp [typeKeyword?, h1, h2, h3, h4, hat]
      · have : q.isWord "interface" = false := by simpa [Unsigned] using hat
        simp [typeKeyword?, h1, h2, h3, h4, this]
  simp [Barren, introduced?, hkeyword]

theorem Tame.nil : Tame [] := by
  intro p hp
  rcases hp with hp | hp <;> simp only [Piece.isWord, decide_eq_true_eq] at hp <;>
    simp [Barren, introduced?, typeKeyword?, Piece.isWord, hp]

theorem Tame.cons (h : isName p = false) : Tame (p :: ps) := by
  intro q hq
  rw [isName, Option.isSome_eq_false_iff, Option.isNone_iff_eq_none] at h
  rcases hq with hq | hq <;> simp only [Piece.isWord, decide_eq_true_eq] at hq <;>
    simp [Barren, introduced?, typeKeyword?, Piece.isWord, hq, h]

theorem Plain.nil : Plain [] where
  dropped s := by cases s <;> rfl
  behindDash h := by cases h
  behindNon h := by cases h

/-- A piece that no modifier begins, continues or ends with. -/
def isHard (p : Piece) : Bool :=
  !isName p && !p.isSymbol '.' && !p.isSymbol '@' && !p.isSymbol '-' && !p.isGroup '(' &&
    !(modifierWords ++ ["class", "interface", "enum"]).any p.isWord

theorem isWord_of_not_name {w : String} (h : isName p = false) (hw : w ∉ reserved)
    (hd : w.toList.head?.map Char.isDigit = some false) : p.isWord w = false := by
  cases hp : p.isWord w with
  | false => rfl
  | true =>
    simp only [Piece.isWord, decide_eq_true_eq] at hp
    rw [isName_iff.mpr ⟨w, hp, hw, hd⟩] at h
    cases h

theorem Plain.hard (h : isHard p = true) : Plain (p :: ps) := by
  simp only [isHard, Bool.and_eq_true, Bool.not_eq_true', List.any_append,
    Bool.or_eq_false_iff] at h
  obtain ⟨⟨⟨⟨⟨hname, hdot⟩, hat⟩, hdash⟩, hgroup⟩, hmodifier, hkeyword⟩ := h
  have hsettled : Settled (p :: ps) :=
    .cons (.inl hat) hdot hgroup hmodifier
      (.inl (isWord_of_not_name hname (by decide) (by decide)))
  have hbarren : Barren (p :: ps) := by
    refine .cons (fun w hw => ?_) (.inl hat)
    have : w ∈ ["class", "interface", "enum"] ∨ w = "record" := by simpa [or_assoc] using hw
    rcases this with hw | rfl
    · simpa using List.any_eq_false.mp hkeyword w hw
    · exact isWord_of_not_name hname (by decide) (by decide)
  refine ⟨fun s => ?_, fun he hs => ?_, fun he hd _ => ?_⟩
  · have hsame : dropModifiers s (p :: ps) = p :: ps := by
      rw [isName] at hname
      cases s with
      | outside | name => exact hsettled _ trivial
      | sign | dot => simp [dropModifiers, hname]
    rw [hsame]
    exact hbarren
  · cases he
    rw [isWord_of_not_name hname (by decide) (by decide)] at hs
    cases hs
  · cases he
    rw [hdash] at hd
    cases hd

theorem Plain.cons (hb : Barren (p :: ps)) (h : Plain ps) : Plain (p :: ps) := by
  refine ⟨fun s => ?_, fun he _ => ?_, fun he _ hs => ?_⟩
  · by_cases hs : s.Between
    · rw [dropModifiers_cons hs]
      split
      · exact h.dropped _
      split
      · exact h.dropped _
      split
      · split
        · split
          · exact hb
          · exact h.dropped _
        · exact .nil
      split
      · exact h.dropped _
      split
      · split
        · next hnon =>
          simp only [Bool.and_eq_true] at hnon
          exact h.behindNon rfl hnon.1.2 hnon.2
        · exact hb
      · exact hb
    · have : s = .sign ∨ s = .dot := by cases s <;> simp_all [AnnotationState.Between]
      rcases this with rfl | rfl <;> rw [dropModifiers] <;> split <;>
        first | exact h.dropped _ | exact hb
  · cases he
    exact h.dropped _
  · cases he
    exact h.behindDash rfl hs

theorem typeDeclaration_group {c : Char} (h : p.isGroup c = true) :
    typeDeclaration? (p :: ps) = none := by
  have hword : p.word? = none := word_group h
  have hmodifier : modifierWords.any p.isWord = false :=
    List.any_eq_false.mpr fun w _ => by simp [isWord_false hword]
  have hsame : dropModifiers .outside (p :: ps) = p :: ps := by
    rw [dropModifiers_cons (s := .outside) trivial, if_neg (by simp), if_neg (by simp),
      if_neg (by simp [isSymbol_group h]), if_neg (by simp [hmodifier])]
    split
    · exact if_neg (by simp [isWord_false hword])
    · rfl
  rw [typeDeclaration?, hsame]
  exact Barren.cons (fun w _ => isWord_false hword) (.inl (isSymbol_group h _))

-- ---------------------------------------------------------------------------
-- Words behind which no body follows
-- ---------------------------------------------------------------------------

theorem findBody_other (hg : p.isGroup '\x7b' = false) (h : findBody? ps = none) :
    findBody? (p :: ps) = none := by
  have hbrace : p.group? '\x7b' = none := by simpa [isGroup] using hg
  rw [findBody?, hbrace]
  simp [h]

theorem findBody_barred (hg : p.isGroup '\x7b' = false) (h : isHeader p = false) :
    findBody? (p :: ps) = none := by
  have hbrace : p.group? '\x7b' = none := by simpa [isGroup] using hg
  rw [isHeader, hg, Bool.not_false, Bool.true_and] at h
  simp only [findBody?, hbrace, h]
  exact if_neg (by simp)

/-- A name with no body behind it is tame: neither a class nor a record has that name. -/
theorem Tame.guarded (hlt : ps.head?.any (·.isSymbol '<') = false) (h : findBody? ps = none) :
    Tame (p :: ps) := by
  intro q hq
  rcases hq with hq | hq <;> simp only [Piece.isWord, decide_eq_true_eq] at hq
  · simp [Barren, introduced?, typeKeyword?, Piece.isWord, hq, h]
  · have hskip : skipAngles 0 ps = ps := skipAngles_zero hlt
    cases ps with
    | nil => simp [Barren, introduced?, typeKeyword?, Piece.isWord, hq, hskip]
    | cons g ps =>
      cases hg : g.group? '(' with
      | none => simp [Barren, introduced?, typeKeyword?, Piece.isWord, hq, hskip, hg]
      | some parameters =>
        have hheader : isHeader g = true := isHeader_group (by simp [isGroup, hg]) (.inl rfl)
        have hsame : findBody? ([g] ++ ps) = findBody? ps :=
          findBody_header (by simpa using hheader)
        have hbehind : findBody? ps = none := hsame.symm.trans h
        simp [Barren, introduced?, typeKeyword?, Piece.isWord, hq, hskip, hg, hbehind]

/-- The pieces let no search for a body through. -/
def Barring (ps : List Piece) : Prop :=
  ∀ rest, findBody? rest = none → findBody? (ps ++ rest) = none

theorem Barring.piece (h : p.isGroup '\x7b' = false) : Barring [p] :=
  fun _ hr => findBody_other h hr

theorem Barring.append (hp : Barring ps) (hq : Barring qs) : Barring (ps ++ qs) := by
  intro rest h
  rw [List.append_assoc]
  exact hp _ (hq _ h)

theorem Barring.barred (hg : p.isGroup '\x7b' = false) (h : isHeader p = false) :
    Barring (p :: ps) :=
  fun _ _ => findBody_barred hg h

/-- Braces in an expression stand behind an arrow or behind the word `new` or `switch`. -/
def barringTest : Test Terminal Node where
  token _ := true
  group c := c ≠ '\x7b'
  angles := true
  node n := n.inTypes || n ∈ [.expression, .assignment, .binary, .instanceOf, .lambda, .ternary,
    .unary, .update, .cast, .primary, .numeral, .stringLiteral, .classLiteral, .newObject,
    .objectCreation, .fieldAccess, .arrayAccess, .methodInvocation, .argumentList, .methodReference,
    .dimensionExpression, .arrayCreation, .recordPattern, .formalParameters, .switchExpression]

theorem isHeader_reserved {w : String} (h : p.isWord w = true) (hr : w ∈ reserved)
    (hw : w ∉ headerWords ++ primitive) : isHeader p = false := by
  have hword := word_of_isWord h
  have hnone : name? p = none := by simpa [isName] using isName_of_isWord h hr
  have hany : (headerWords ++ primitive).any p.isWord = false := by
    rw [List.any_eq_false]
    intro v hv
    simp only [Piece.isWord, decide_eq_true_eq] at h ⊢
    rw [h, Option.some.injEq]
    rintro rfl
    exact hw hv
  rw [List.any_append, Bool.or_eq_false_iff] at hany
  simp [isHeader, isSymbol_word hword, isGroup_word hword, hnone, hany.1, hany.2]

theorem isHeader_arrow (h : p.isArrow = true) : isHeader p = false := by
  cases p with
  | group => cases h
  | lexeme l =>
    have hsymbol (c : Char) : (lexeme l).isSymbol c = false := by
      cases hs : (lexeme l).isSymbol c with
      | false => rfl
      | true => rw [isArrow_symbol hs] at h; cases h
    simp only [isArrow, Bool.and_eq_true, decide_eq_true_eq] at h
    simp [isHeader, hsymbol, name?, word?, Piece.isWord, isGroup, group?, h.1]

theorem barringTest_shows : barringTest.Shows grammar Barring where
  nil := fun _ h => h
  append := .append
  token _ _ := .piece rfl
  group inner hc he := .piece (isGroup_false (isGroup_encloses he inner) (of_decide_eq_true hc))
  angles _ ha hp hb :=
    ((Barring.piece (isGroup_symbol ha _)).append hp).append (.piece (isGroup_symbol hb _))
  node {n} hn := by
    have hword {ts : Trees} {l : Lexeme} {w : String} {qs : List Piece}
        (he : piecesOf ts = [lexeme l] ++ qs) (hl : grammar.admits (.word w) l = true)
        (hr : w ∈ reserved) (hw : w ∉ headerWords ++ primitive) : Barring (piecesOf ts) := by
      rw [he]
      exact .barred (isGroup_word (word_of_isWord (admits_word hl)) _)
        (isHeader_reserved (admits_word hl) hr hw)
    cases n
    case newObject =>
      refine .inr fun ts h => ?_
      obtain ⟨_, ⟨l, hl, rfl⟩, qs, -, he⟩ := h.decomposed
      exact hword he hl (by decide) (by decide)
    case arrayCreation =>
      refine .inr fun ts h => ?_
      obtain ⟨_, ⟨l, hl, rfl⟩, qs, -, he⟩ := h.decomposed
      exact hword he hl (by decide) (by decide)
    case switchExpression =>
      refine .inr fun ts h => ?_
      obtain ⟨_, ⟨l, hl, rfl⟩, qs, -, he⟩ := h.decomposed
      exact hword he hl (by decide) (by decide)
    case lambda =>
      refine .inr fun ts h => ?_
      obtain ⟨ps, hps, _, ⟨_, ⟨l, hl, rfl⟩, qs, -, rfl⟩, he⟩ := h.decomposed
      have hfront : Barring ps := by
        rcases hps with ⟨n, -, rfl⟩ | hps | ⟨o, inner, e, henclosed, -, rfl⟩
        · exact .piece rfl
        · obtain ⟨g, hg, rfl⟩ := language_group rfl hps
          exact .piece (isGroup_false hg (by decide))
        · exact .piece (isGroup_false (isGroup_encloses henclosed inner) (by decide))
      have harrow : (lexeme l).isArrow = true := by
        simp only [grammar, Terminal.admits, Bool.and_eq_true] at hl
        exact hl.2
      rw [he]
      exact hfront.append (.barred rfl (isHeader_arrow harrow))
    all_goals first | exact .inl (by decide) | cases hn

/-- No expression begins with an angle. -/
def unangledTest : Test Terminal Node where
  token t := t ≠ .symbol '<'
  group _ := true
  angles := false
  node n := n.inTypes && n ≠ .typeArguments && n ≠ .typeParameters ||
    n ∈ [.expression, .assignment, .binary, .instanceOf, .lambda, .ternary,
    .unary, .update, .cast, .primary, .numeral, .stringLiteral, .classLiteral, .newObject,
    .objectCreation, .fieldAccess, .arrayAccess, .methodInvocation, .argumentList, .methodReference,
    .arrayCreation, .formalParameters, .switchExpression]

end Scaffold.Source.Java
