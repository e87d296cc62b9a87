import Scaffold.Proofs.Java.Types

/-!
# Shapes of nodes

What the pieces of a node look like to the readers of types and modifiers, and
which pieces may stand outside the brackets of a node.
-/

namespace Scaffold.Source.Java

open Piece Source.Tree Rule

variable {p : Piece} {c : Char} {ts : Trees}

-- ---------------------------------------------------------------------------
-- Pieces outside brackets
-- ---------------------------------------------------------------------------

/-- Every piece the test lets through is of one sort. -/
theorem shows_all {test : Test Terminal Node} {good : Piece → Prop}
    (token : ∀ t l, test.token t = true → grammar.admits t l = true → good (.lexeme l))
    (group : ∀ c p, test.group c = true → p.isGroup c = true → good p)
    (angles : test.angles = true → ∀ p : Piece, p.isSymbol '<' = true ∨ p.isSymbol '>' = true →
      good p)
    (node : ∀ n, test.node n = true → (grammar.rule n).passes test = true) :
    test.Shows grammar fun ps => ∀ p ∈ ps, good p where
  nil := by simp
  append hp hq p h := (List.mem_append.mp h).elim (hp p) (hq p)
  token ht hl := by simpa using token _ _ ht hl
  group inner ht he := by simpa using group _ _ ht (isGroup_encloses he inner)
  angles ht ha hp hb := by
    simpa [or_imp, forall_and] using ⟨angles ht _ (.inl ha), hp, angles ht _ (.inr hb)⟩
  node hn := .inl (node _ hn)

/-- The kinds of nodes that types consist of. -/
def Node.inTypes : Node → Bool
  | .identifier | .type | .annotatedType | .unannotatedType | .simpleType | .packagePrefix
  | .scopedType | .genericType | .arrayType | .dimensions | .typeArguments | .wildcard
  | .typeParameters | .typeParameter | .typeBound | .annotationUse => true
  | _ => false

def argumentTest : Test Terminal Node where
  token
    | .word _ | .identifier | .typeIdentifier => true
    | .symbol c => c ∈ [',', '.', '?', '&', '@', '*']
    | .arrow | .decrement | .number | .character | .string .. => false
  group c := c = '(' || c = '['
  angles := true
  node := Node.inTypes

theorem isArgument_of_word (h : p.word?.isSome = true) : isArgument p = true := by
  simp [isArgument, isSymbol_word h, h]

theorem isArgument_of_group (h : p.isGroup c = true) (hc : c = '(' ∨ c = '[') :
    isArgument p = true := by
  rcases hc with rfl | rfl <;> simp [isArgument, isSymbol_group h, h]

theorem isArgument_of_symbol (h : p.isSymbol c = true) (hc : c ∈ [',', '.', '?', '&', '@', '*']) :
    isArgument p = true := by
  have hlt : p.isSymbol '<' = false := isSymbol_false h (by rintro rfl; simp at hc)
  have hgt : p.isSymbol '>' = false := isSymbol_false h (by rintro rfl; simp at hc)
  have hany : [',', '.', '?', '&', '@', '*'].any p.isSymbol = true :=
    List.any_eq_true.mpr ⟨c, hc, h⟩
  simp [isArgument, hlt, hgt, hany]

theorem argumentTest_shows : argumentTest.Shows grammar (Angled isArgument) where
  nil := .nil
  append := Angled.append
  token {t l} ht hl := by
    refine .cons ?_ .nil
    cases t with
    | word w => exact isArgument_of_word (word_of_isWord (admits_word hl))
    | symbol c => exact isArgument_of_symbol (admits_symbol hl) (by simpa [argumentTest] using ht)
    | identifier => exact isArgument_of_word (word_of_isName (admits_identifier hl))
    | typeIdentifier => exact isArgument_of_word (word_of_isName (admits_typeIdentifier hl).1)
    | arrow | decrement | number | character | string => cases ht
  group {c o e} inner hc he := by
    refine .cons (isArgument_of_group (isGroup_encloses he inner) ?_) .nil
    simpa [argumentTest] using hc
  angles _ ha hp hb := .block ha hp hb .nil
  node {n} hn := .inl (by cases n <;> first | decide | cases hn)

theorem bracketed {r : Rule Terminal Node} (h : Parses grammar (.angles r) ts)
    (hr : r.passes argumentTest = true) : Bracketed (piecesOf ts) := by
  cases h with
  | angles ha hi hb => exact ⟨_, _, _, ha, hi.shown argumentTest_shows hr, hb, by simp⟩

/-- The symbols of a terminal. -/
theorem symbol_of_admits {t : Terminal} {l : Lexeme} (h : grammar.admits t l = true)
    (hs : (lexeme l).isSymbol c = true) : t = .symbol c := by
  have hnone := word_symbol hs
  have hlength (w : String) (hw : w.length = 2) (hl : l.text = w) : False := by
    simp only [isSymbol, Bool.and_eq_true, decide_eq_true_eq] at hs
    have := congrArg String.length (hl.symm.trans hs.2)
    simp [hw] at this
  cases t with
  | word w => simpa [hnone] using word_of_isWord (admits_word h)
  | symbol d => rw [isSymbol_unique hs (admits_symbol h)]
  | identifier => simpa [hnone] using word_of_isName (admits_identifier h)
  | typeIdentifier => simpa [hnone] using word_of_isName (admits_typeIdentifier h).1
  | number => simp [grammar, Terminal.admits, hnone] at h
  | arrow =>
    simp only [grammar, Terminal.admits, isArrow, Bool.and_eq_true, decide_eq_true_eq] at h
    exact (hlength _ rfl h.2.2).elim
  | decrement =>
    simp only [grammar, Terminal.admits, Bool.and_eq_true, decide_eq_true_eq] at h
    exact (hlength _ rfl h.2.2).elim
  | character =>
    simp only [grammar, Terminal.admits, Bool.and_eq_true, decide_eq_true_eq] at h
    simp [isSymbol, h.2] at hs
  | string =>
    simp only [grammar, Terminal.admits, Bool.and_eq_true, decide_eq_true_eq] at h
    simp [isSymbol, h.2.1] at hs

/-- A reserved word is admitted as itself only. -/
theorem word_of_admits {t : Terminal} {l : Lexeme} {w : String} (h : grammar.admits t l = true)
    (hw : (lexeme l).isWord w = true) (hr : w ∈ reserved) : t = .word w := by
  have hword := hw
  simp only [Piece.isWord, decide_eq_true_eq] at hword
  have hsome := word_of_isWord hw
  cases t with
  | word v =>
    have hv := admits_word h
    simp only [Piece.isWord, hword, Option.some.injEq, decide_eq_true_eq] at hv
    rw [hv]
  | symbol d => simp [word_symbol (admits_symbol h)] at hsome
  | identifier => simp [isWord_of_isName (admits_identifier h) hr] at hw
  | typeIdentifier => simp [isWord_of_isName (admits_typeIdentifier h).1 hr] at hw
  | number =>
    simp only [grammar, Terminal.admits, hword, Bool.and_eq_true, Option.any_some,
      decide_eq_true_eq] at h
    exact absurd h.2 ((by decide : ∀ w ∈ reserved, w.toList.head?.map Char.isDigit ≠ some true) w hr)
  | arrow =>
    simp only [grammar, Terminal.admits, isArrow, Bool.and_eq_true, decide_eq_true_eq] at h
    simp [word?, h.2.1] at hword
  | decrement =>
    simp only [grammar, Terminal.admits, Bool.and_eq_true, decide_eq_true_eq] at h
    simp [word?, h.2.1] at hword
  | character =>
    simp only [grammar, Terminal.admits, Bool.and_eq_true, decide_eq_true_eq] at h
    simp [word?, h.2] at hword
  | string =>
    simp only [grammar, Terminal.admits, Bool.and_eq_true, decide_eq_true_eq] at h
    simp [word?, h.2.1] at hword

/-- A piece in front of the braces and initialisers of a member. -/
def isCalm (p : Piece) : Bool :=
  !p.isSymbol ';' && !p.isSymbol '=' && !p.isGroup '\x7b' && !p.isWord "default"

theorem isCalm_of_word {p : Piece} (h : p.word?.isSome = true)
    (hd : p.isWord "default" = false) : isCalm p = true := by
  simp [isCalm, isSymbol_word h, isGroup_word h, hd]

theorem isCalm_of_symbol {p : Piece} {c : Char} (h : p.isSymbol c = true) (hs : c ≠ ';')
    (he : c ≠ '=') : isCalm p = true := by
  simp [isCalm, isSymbol_false h hs, isSymbol_false h he, isGroup_symbol h,
    isWord_false (word_symbol h)]

theorem isCalm_of_group {p : Piece} {c : Char} (h : p.isGroup c = true) (hc : c ≠ '\x7b') :
    isCalm p = true := by
  simp [isCalm, isSymbol_group h, isGroup_false h hc, isWord_false (word_group h)]

def calmTest : Test Terminal Node where
  token t := t ∉ [.symbol ';', .symbol '=', .word "default"]
  group c := c ≠ '\x7b'
  angles := true
  node n := n.inTypes || n ∈ [.formalParameters, .throws, .superclass, .superInterfaces,
    .extendsInterfaces, .permits]

theorem calm {r : Rule Terminal Node} (h : Parses grammar r ts)
    (hr : r.passes calmTest = true) : ∀ p ∈ piecesOf ts, isCalm p = true := by
  refine h.shown (shows_all ?_ ?_ ?_ ?_) hr
  · intro t l ht hl
    simp only [calmTest, List.mem_cons, List.not_mem_nil, or_false, not_or, decide_eq_true_eq] at ht
    have hsymbol {c : Char} (hc : t ≠ .symbol c) : (lexeme l).isSymbol c = false := by
      cases hs : (lexeme l).isSymbol c with
      | false => rfl
      | true => exact absurd (symbol_of_admits hl hs) hc
    have hword : (lexeme l).isWord "default" = false := by
      cases hs : (lexeme l).isWord "default" with
      | false => rfl
      | true => exact absurd (word_of_admits hl hs (by decide)) ht.2.2
    simp [isCalm, hsymbol ht.1, hsymbol ht.2.1, hword, isGroup, group?]
  · intro c p hc hp
    exact isCalm_of_group hp (by simpa [calmTest] using hc)
  · rintro - p (hp | hp)
    · exact isCalm_of_symbol hp (by decide) (by decide)
    · exact isCalm_of_symbol hp (by decide) (by decide)
  · intro n hn
    cases n <;> first | decide | cases hn

/-- The kinds of nodes that expressions consist of, outside of their brackets. -/
def Node.inExpressions : Node → Bool
  | .expression | .assignment | .binary | .instanceOf | .lambda | .ternary | .unary | .update
  | .cast | .primary | .numeral | .stringLiteral | .classLiteral | .newObject | .objectCreation
  | .fieldAccess | .arrayAccess | .methodInvocation | .argumentList | .methodReference
  | .dimensionExpression | .arrayCreation | .arrayInitializer | .variableInitializer
  | .recordPattern | .formalParameters | .block | .classBody | .switchExpression | .type
  | .annotatedType | .unannotatedType | .simpleType | .packagePrefix | .scopedType | .genericType
  | .arrayType | .dimensions | .typeArguments | .annotationUse | .identifier
  | .variableDeclarator | .elementValue | .elementValueArray | .modifiers | .formalParameter
  | .spreadParameter | .receiverParameter =>
    true
  | _ => false

/-- What stands for itself in an expression, outside of brackets and type arguments. -/
def isOperand (p : Piece) : Bool := !p.isSymbol ',' && !p.isSymbol ';'

def expressionTest : Test Terminal Node where
  token t := t ∉ [.symbol ',', .symbol ';']
  group _ := true
  angles := false
  node := Node.inExpressions

theorem isArgument_operand {p : Piece} (h : isArgument p = true) : p.isSymbol ';' = false := by
  cases hs : p.isSymbol ';' with
  | false => rfl
  | true =>
    have hc (c : Char) (h : ';' ≠ c) : p.isSymbol c = false := isSymbol_false hs h
    simp [isArgument, hc, word_symbol hs, isGroup_symbol hs, isArrow_symbol hs] at h

theorem expressionTest_shows : expressionTest.Shows grammar (Angled isOperand) where
  nil := .nil
  append := Angled.append
  token {t l} ht hl := by
    simp only [expressionTest, List.mem_cons, List.not_mem_nil, or_false, not_or,
      decide_eq_true_eq] at ht
    have hsymbol {c : Char} (hc : t ≠ .symbol c) : (lexeme l).isSymbol c = false := by
      cases hs : (lexeme l).isSymbol c with
      | false => rfl
      | true => exact absurd (symbol_of_admits hl hs) hc
    exact .cons (by simp [isOperand, hsymbol ht.1, hsymbol ht.2]) .nil
  group inner _ he := .cons (by simp [isOperand, isSymbol_group (isGroup_encloses he inner)]) .nil
  angles h := by cases h
  node {n} hn := by
    by_cases harguments : n = .typeArguments
    · subst harguments
      refine .inr fun ts h => ?_
      obtain ⟨a, inner, b, ha, hi, hb, he⟩ := bracketed h (by decide)
      rw [he]
      exact .block ha hi hb .nil
    · left
      cases n <;> first | exact absurd rfl harguments | decide | cases hn

theorem Angled.no_semicolon {plain : Piece → Bool} {ps : List Piece} (h : Angled plain ps)
    (hplain : ∀ p, plain p = true → p.isSymbol ';' = false) : ∀ p ∈ ps, p.isSymbol ';' = false := by
  induction h with
  | nil => simp
  | cons hp _ ih => simpa using ⟨hplain _ hp, ih hplain⟩
  | block ha _ hb _ ihi ih =>
    simpa [or_imp, forall_and] using ⟨isSymbol_false ha (by decide),
      ihi fun _ => isArgument_operand, isSymbol_false hb (by decide), ih hplain⟩

/-- No semicolon stands in an expression. -/
theorem operands_no_semicolon {ps : List Piece} (h : Angled isOperand ps) :
    ∀ p ∈ ps, p.isSymbol ';' = false := by
  refine Angled.no_semicolon h fun p hp => ?_
  simp only [isOperand, Bool.and_eq_true, Bool.not_eq_true'] at hp
  exact hp.2

-- ---------------------------------------------------------------------------
-- Shapes
-- ---------------------------------------------------------------------------

/-- Modifiers: annotations and words, one of which may be `default`. -/
def Modifiers (ps : List Piece) : Prop :=
  ∃ pss : List (List Piece), (∀ qs ∈ pss, Dropped qs ∧
    ((∀ q ∈ qs, isCalm q = true) ∨ ∃ q, q.isWord "default" = true ∧ qs = [q])) ∧ ps = pss.flatten

/-- A word stands in front that begins a type and is no modifier. -/
def Fronted (ps : List Piece) : Prop :=
  ∃ p tail, ps = p :: tail ∧ isTypeWord p = true ∧ modifierWords.any p.isWord = false ∧
    tail.head?.any (·.isSymbol '-') = false

/-- What the pieces of a node look like. -/
def Shape : Node → List Piece → Prop
  | .identifier => fun ps => ∃ p, isName p = true ∧ ps = [p]
  | .annotationUse => Annotation
  | .dimensions => Dimensions
  | .typeArguments | .typeParameters => Bracketed
  | .packagePrefix | .scopedType | .genericType | .simpleType => fun ps => Based ps ∧ Fronted ps
  | .arrayType | .unannotatedType => fun ps => Typed ps ∧ Fronted ps
  | .modifiers => Modifiers
  | _ => fun _ => True

theorem Fronted.append {ps qs : List Piece} (hp : Fronted ps)
    (hq : qs.head?.any (·.isSymbol '-') = false) : Fronted (ps ++ qs) := by
  obtain ⟨p, tail, rfl, hw, hm, ht⟩ := hp
  refine ⟨p, tail ++ qs, rfl, hw, hm, ?_⟩
  cases tail with
  | nil => exact hq
  | cons => exact ht

theorem Fronted.settled {ps : List Piece} (hp : Fronted ps) {rest : List Piece}
    (hr : rest.head?.any (·.isSymbol '-') = false) : Settled (ps ++ rest) := by
  obtain ⟨p, tail, he, hw, hm, ht⟩ := hp.append hr
  rw [he]
  have hword := word_of_isTypeWord hw
  exact .cons (.inl (isSymbol_word hword _)) (isSymbol_word hword _) (isGroup_word hword _) hm
    (.inr ht)

theorem modifier_of_typeIdentifier {l : Lexeme} (h : grammar.admits .typeIdentifier l = true) :
    modifierWords.any (lexeme l).isWord = false := by
  obtain ⟨hn, -, hs⟩ := admits_typeIdentifier h
  rw [List.any_eq_false]
  intro w hw
  have : w = "sealed" ∨ w ∈ reserved :=
    (by decide : ∀ w ∈ modifierWords, w = "sealed" ∨ w ∈ reserved) w hw
  rcases this with rfl | hr
  · simp [hs]
  · simp [isWord_of_isName hn hr]

theorem fronted_typeIdentifier {l : Lexeme} (h : grammar.admits .typeIdentifier l = true) :
    Fronted [lexeme l] :=
  ⟨_, [], rfl, isTypeWord_of_isName (admits_typeIdentifier h).1, modifier_of_typeIdentifier h, rfl⟩

theorem based_typeIdentifier {l : Lexeme} (h : grammar.admits .typeIdentifier l = true) :
    Based [lexeme l] ∧ Fronted [lexeme l] :=
  ⟨.word (isTypeWord_of_isName (admits_typeIdentifier h).1), fronted_typeIdentifier h⟩

theorem based_primitive {l : Lexeme} {w : String} (hw : w ∈ primitive)
    (h : grammar.admits (.word w) l = true) : Based [lexeme l] ∧ Fronted [lexeme l] := by
  have hp := admits_word h
  have ht := isTypeWord_of_primitive hp hw
  refine ⟨.word ht, _, [], rfl, ht, ?_, rfl⟩
  rw [List.any_eq_false]
  intro v hv
  simp only [Piece.isWord, decide_eq_true_eq] at hp ⊢
  rw [hp, Option.some.injEq]
  rintro rfl
  exact (by decide : ∀ w ∈ modifierWords, w ∉ primitive) w hv hw

theorem annotation_yields {ps : List Piece}
    (h : (Node.rule .annotationUse).Yields grammar Shape ps) : Annotation ps := by
  obtain ⟨_, ⟨a, ha, rfl⟩, _, ⟨_, ⟨pss, hpss, rfl⟩, _, ⟨_, ⟨l, hl, rfl⟩, as, has, rfl⟩, rfl⟩, rfl⟩ := h
  have ha := admits_symbol ha
  have hdotted : Dotted (pss.flatten ++ [.lexeme l]) := by
    clear has
    induction pss with
    | nil => exact .last (admits_typeIdentifier hl).1
    | cons qs pss ih =>
      obtain ⟨_, ⟨n, hn, rfl⟩, _, ⟨d, hd, rfl⟩, rfl⟩ := hpss qs List.mem_cons_self
      exact .dot (admits_identifier hn) (admits_symbol hd)
        (ih fun rs hr => hpss rs (List.mem_cons_of_mem _ hr))
  rcases has with ⟨o, inner, e, he, -, rfl⟩ | has
  · simpa using Annotation.arguments ha hdotted (isGroup_encloses he inner)
  · rw [has]
    simpa using Annotation.marker ha hdotted

theorem dimensions_yields {ps : List Piece}
    (h : (Node.rule .dimensions).Yields grammar Shape ps) : Dimensions ps := by
  have hpair {qs : List Piece}
      (h : (inOrder [Node.annotations, Node.brackets empty]).Yields grammar Shape qs) :
      ∃ pair : List Piece × Piece, (Annotations pair.1 ∧ pair.2.isGroup '[' = true) ∧
        qs = pair.1 ++ [pair.2] := by
    obtain ⟨as, has, _, ⟨o, inner, e, he, -, rfl⟩, rfl⟩ := h
    exact ⟨(as, _), ⟨has, isGroup_encloses he inner⟩, rfl⟩
  obtain ⟨qs, hqs, _, ⟨pss, hpss, rfl⟩, rfl⟩ := h
  obtain ⟨pair, hpair', rfl⟩ := hpair hqs
  have hrest : Dimensions pss.flatten := by
    induction pss with
    | nil => exact ⟨[], by simp, rfl⟩
    | cons rs pss ih =>
      obtain ⟨pair, hpair', rfl⟩ := hpair (hpss rs List.mem_cons_self)
      rw [List.flatten_cons]
      exact Dimensions.append ⟨[pair], by simpa using hpair', by simp⟩
        (ih fun rs hr => hpss rs (List.mem_cons_of_mem _ hr))
  exact Dimensions.append ⟨[pair], by simpa using hpair', by simp⟩ hrest

theorem packagePrefix_yields {ps : List Piece}
    (h : (Node.rule .packagePrefix).Yields grammar Shape ps) : Based ps ∧ Fronted ps := by
  obtain ⟨_, ⟨l, hl, rfl⟩, _, ⟨pss, hpss, rfl⟩, rfl⟩ := h
  have hall : ∀ {qs : List Piece}, Based qs ∧ Fronted qs → Based (qs ++ pss.flatten) ∧
      Fronted (qs ++ pss.flatten) := by
    induction pss with
    | nil => simp
    | cons rs pss ih =>
      intro qs hqs
      obtain ⟨_, ⟨d, hd, rfl⟩, _, ⟨n, hn, rfl⟩, rfl⟩ := hpss rs List.mem_cons_self
      have hd := admits_symbol hd
      have hdash : (lexeme d).isSymbol '-' = false := isSymbol_false hd (by decide)
      have hstep : Based (qs ++ [lexeme d, lexeme n]) ∧ Fronted (qs ++ [lexeme d, lexeme n]) :=
        ⟨by simpa using hqs.1.dot hd ⟨[], by simp, rfl⟩ (isTypeWord_of_isName (admits_identifier hn)),
          hqs.2.append (by simpa using hdash)⟩
      simpa using ih (fun rs hr => hpss rs (List.mem_cons_of_mem _ hr)) hstep
  exact hall (based_typeIdentifier hl)

theorem scopedType_yields {ps : List Piece}
    (h : (Node.rule .scopedType).Yields grammar Shape ps) : Based ps ∧ Fronted ps := by
  obtain ⟨qs, hqs, _, ⟨_, ⟨d, hd, rfl⟩, _, ⟨as, has, _, ⟨l, hl, rfl⟩, rfl⟩, rfl⟩, rfl⟩ := h
  have hqs : Based qs ∧ Fronted qs := by
    obtain ⟨r, hr, hy⟩ := Yields.of_oneOf (by simp) hqs
    simp only [List.mem_cons, List.not_mem_nil, or_false] at hr
    rcases hr with rfl | rfl | rfl <;> exact hy
  have hd := admits_symbol hd
  have hdash : (lexeme d).isSymbol '-' = false := isSymbol_false hd (by decide)
  have hword := isTypeWord_of_isName (admits_typeIdentifier hl).1
  exact ⟨by simpa using hqs.1.dot hd has hword, hqs.2.append (by simpa using hdash)⟩

theorem Bracketed.head {ps : List Piece} (h : Bracketed ps) :
    ps.head?.any (·.isSymbol '-') = false := by
  obtain ⟨a, inner, b, ha, -, -, rfl⟩ := h
  simpa using isSymbol_false ha (by decide)

theorem genericType_yields {ps : List Piece}
    (h : (Node.rule .genericType).Yields grammar Shape ps) : Based ps ∧ Fronted ps := by
  obtain ⟨qs, hqs, as, has, rfl⟩ := h
  have hqs : Based qs ∧ Fronted qs := by
    rcases hqs with ⟨l, hl, rfl⟩ | hqs
    · exact based_typeIdentifier hl
    · exact hqs
  exact ⟨hqs.1.arguments has, hqs.2.append has.head⟩

theorem simpleType_yields {ps : List Piece}
    (h : (Node.rule .simpleType).Yields grammar Shape ps) : Based ps ∧ Fronted ps := by
  rcases h with h | ⟨l, hl, rfl⟩ | h | h
  · obtain ⟨r, hr, hy⟩ := Yields.of_oneOf (by simp [primitive]) h
    obtain ⟨w, hw, rfl⟩ := List.mem_map.mp hr
    obtain ⟨l, hl, rfl⟩ := hy
    exact based_primitive hw hl
  · exact based_typeIdentifier hl
  · exact h
  · exact h

theorem Dimensions.head_dash {ps : List Piece} (h : Dimensions ps) :
    ps.head?.any (·.isSymbol '-') = false := by
  rcases h.head with rfl | ⟨p, qs, rfl, hp | hp⟩
  · rfl
  · simpa using isSymbol_group hp _
  · simpa using isSymbol_false hp (by decide)

theorem arrayType_yields {ps : List Piece}
    (h : (Node.rule .arrayType).Yields grammar Shape ps) : Typed ps ∧ Fronted ps := by
  obtain ⟨_, ⟨⟨base, ds, hb, hds, rfl⟩, hf⟩, ds', hds', rfl⟩ := h
  exact ⟨⟨base, ds ++ ds', hb, hds.append hds', by simp⟩, hf.append hds'.head_dash⟩

theorem unannotatedType_yields {ps : List Piece}
    (h : (Node.rule .unannotatedType).Yields grammar Shape ps) : Typed ps ∧ Fronted ps := by
  rcases h with ⟨hb, hf⟩ | h
  · exact ⟨⟨ps, [], hb, ⟨[], by simp, rfl⟩, by simp⟩, hf⟩
  · exact h

theorem Annotation.calm {ps : List Piece} (h : Annotation ps) : ∀ p ∈ ps, isCalm p = true := by
  have hname {p : Piece} (h : isName p = true) : isCalm p = true :=
    isCalm_of_word (word_of_isName h) (isWord_of_isName h (by decide))
  have hdotted {ps : List Piece} (h : Dotted ps) : ∀ p ∈ ps, isCalm p = true := by
    induction h with
    | last hp => simpa using hname hp
    | dot hp hq _ ih =>
      simpa using ⟨hname hp, isCalm_of_symbol hq (by decide) (by decide), ih⟩
  cases h with
  | marker ha hd =>
    simpa using ⟨isCalm_of_symbol ha (by decide) (by decide), hdotted hd⟩
  | arguments ha hd hg =>
    simpa [or_imp, forall_and] using ⟨isCalm_of_symbol ha (by decide) (by decide), hdotted hd,
      isCalm_of_group hg (by decide)⟩

theorem modifiers_yields {ps : List Piece}
    (h : (Node.rule .modifiers).Yields grammar Shape ps) : Modifiers ps := by
  have hitem {qs : List Piece} (h : (oneOf [node .annotationUse, Node.words modifierWords,
      inOrder [Node.word "non", Node.sym '-', Node.word "sealed"]]).Yields grammar Shape qs) :
      Dropped qs ∧
        ((∀ q ∈ qs, isCalm q = true) ∨ ∃ q, q.isWord "default" = true ∧ qs = [q]) := by
    rcases h with h | h | ⟨_, ⟨p, hp, rfl⟩, _, ⟨_, ⟨q, hq, rfl⟩, _, ⟨r, hr, rfl⟩, rfl⟩, rfl⟩
    · exact ⟨.annotated h, .inl h.calm⟩
    · obtain ⟨r, hr, hy⟩ := Yields.of_oneOf (by simp [modifierWords]) h
      obtain ⟨w, hw, rfl⟩ := List.mem_map.mp hr
      obtain ⟨l, hl, rfl⟩ := hy
      have hl := admits_word hl
      refine ⟨.word (List.any_eq_true.mpr ⟨w, hw, hl⟩), ?_⟩
      cases hd : (lexeme l).isWord "default" with
      | true => exact .inr ⟨_, hd, rfl⟩
      | false => exact .inl (by simpa using isCalm_of_word (word_of_isWord hl) hd)
    · have hp := admits_word hp
      have hq := admits_symbol hq
      have hr := admits_word hr
      have hword {p : Piece} {w : String} (h : p.isWord w = true) (hw : w ≠ "default") :
          isCalm p = true := by
        refine isCalm_of_word (word_of_isWord h) ?_
        simp only [Piece.isWord, decide_eq_true_eq] at h
        simp [Piece.isWord, h, hw]
      refine ⟨.nonSealed hp hq hr, .inl ?_⟩
      simpa using ⟨hword hp (by decide), isCalm_of_symbol hq (by decide) (by decide),
        hword hr (by decide)⟩
  obtain ⟨qs, hqs, _, ⟨pss, hpss, rfl⟩, rfl⟩ := h
  exact ⟨qs :: pss, by simpa using ⟨hitem hqs, fun rs hr => hitem (hpss rs hr)⟩, rfl⟩

/-- Every node has the shape of its kind. -/
theorem shape {n : Node} (h : Parses grammar (grammar.rule n) ts) : Shape n (piecesOf ts) := by
  have hstep (n : Node) (ts : Trees) (h : Parses grammar (grammar.rule n) ts)
      (hy : (grammar.rule n).Yields grammar Shape (piecesOf ts)) : Shape n (piecesOf ts) := by
    cases n
    case identifier =>
      obtain ⟨l, hl, he⟩ := hy
      exact ⟨_, admits_identifier hl, he⟩
    case annotationUse => exact annotation_yields hy
    case dimensions => exact dimensions_yields hy
    case typeArguments => exact bracketed h (by decide)
    case typeParameters => exact bracketed h (by decide)
    case packagePrefix => exact packagePrefix_yields hy
    case scopedType => exact scopedType_yields hy
    case genericType => exact genericType_yields hy
    case simpleType => exact simpleType_yields hy
    case arrayType => exact arrayType_yields hy
    case unannotatedType => exact unannotatedType_yields hy
    case modifiers => exact modifiers_yields hy
    all_goals trivial
  exact hstep n ts h (h.yields hstep)

end Scaffold.Source.Java
