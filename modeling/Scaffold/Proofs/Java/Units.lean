import Mathlib.Data.List.Chain
import Scaffold.Proofs.Java.Resolved
import Scaffold.Proofs.Java.Scans

/-!
# Files with one type

Lines that name a package or a type to import declare nothing. A file that has
such lines in front of a declaration is resolved to it, in the package that its
first line names.
-/

namespace Scaffold

namespace Source.Java

open Piece Source.Tree

variable {p q e k : Piece} {ps names rest : List Piece} {previous : Option Piece}

/-- Dots between names, and the star behind them. -/
def isLink (p : Piece) : Bool := p.isSymbol '.' || p.isSymbol '*'

/-- Names and links, no two names side by side. -/
structure Linked (ps : List Piece) : Prop where
  parts : ∀ p ∈ ps, isName p = true ∨ isLink p = true
  links : ps.IsChain fun p q => isLink p = true ∨ isLink q = true

/-- A line that names a package or a type to import. -/
inductive Line : List Piece → Prop
  | mk {k : Piece} {names : List Piece} {e : Piece} :
      k.isWord "package" = true ∨ k.isWord "import" = true → Linked names →
      e.isSymbol ';' = true → Line (k :: names ++ [e])

theorem isSymbol_of_isLink (h : isLink p = true) :
    ∃ c ∈ ['.', '*', ';'], p.isSymbol c = true := by
  simpa [isLink] using Or.imp_right Or.inl (by simpa [isLink] using h)

theorem dropModifiers_modifier (h : modifierWords.any p.isWord = true) :
    dropModifiers .outside (p :: ps) = dropModifiers .outside ps := by
  obtain ⟨w, -, hw⟩ := List.any_eq_true.mp h
  have hword := word_of_isWord hw
  rw [dropModifiers_cons (s := .outside) trivial, if_neg (by simp), if_neg (by simp),
    if_neg (by simp [isSymbol_word hword]), if_pos h]

theorem dropModifiers_other (hat : p.isSymbol '@' = false)
    (hm : modifierWords.any p.isWord = false)
    (hnon : p.isWord "non" = false ∨ ps.head?.any (·.isSymbol '-') = false) :
    dropModifiers .outside (p :: ps) = p :: ps := by
  rw [dropModifiers_cons (s := .outside) trivial, if_neg (by simp), if_neg (by simp),
    if_neg (by simp [hat]), if_neg (by simp [hm])]
  split
  · rw [if_neg]
    rcases hnon with hnon | hnon
    · simp [hnon]
    · simp only [List.head?_cons, Option.any_some] at hnon
      simp [hnon]
  · rfl

theorem typeDeclaration_symbol {c : Char} (h : p.isSymbol c = true) (hc : c ∈ ['.', '*', ';']) :
    typeDeclaration? (p :: ps) = none := by
  have hword := word_symbol h
  have hat : p.isSymbol '@' = false := isSymbol_false h (by rintro rfl; simp at hc)
  rw [typeDeclaration?, dropModifiers_other hat
    (List.any_eq_false.mpr fun w _ => by simp [isWord_false hword]) (.inl (isWord_false hword))]
  exact Barren.cons (fun w _ => isWord_false hword) (.inl hat)

/-- No declaration begins with a word in front of a sign. -/
theorem typeDeclaration_before {c : Char} (hp : isName p = true) (h : q.isSymbol c = true)
    (hc : c ∈ ['.', '*', ';']) : typeDeclaration? (p :: q :: ps) = none := by
  by_cases hm : modifierWords.any p.isWord = true
  · rw [typeDeclaration?, dropModifiers_modifier hm]
    exact typeDeclaration_symbol h hc
  have hword := word_of_isName hp
  have hdash : q.isSymbol '-' = false := isSymbol_false h (by rintro rfl; simp at hc)
  rw [typeDeclaration?, dropModifiers_other (isSymbol_word hword _) (by simpa using hm)
    (.inr (by simpa using hdash))]
  by_cases hrecord : p.isWord "record" = true
  · exact Tame.cons (isName_of_word (word_symbol h)) p (.inr hrecord)
  · refine Barren.cons (fun w hw => ?_) (.inl (isSymbol_word hword _))
    simp only [List.mem_cons, List.not_mem_nil, or_false] at hw
    rcases hw with rfl | rfl | rfl | rfl
    · exact isWord_of_isName hp (by decide)
    · exact isWord_of_isName hp (by decide)
    · exact isWord_of_isName hp (by decide)
    · simpa using hrecord

theorem typeDeclaration_line {w : String} (hp : p.isWord w = true)
    (hw : w ∈ ["package", "import"]) : typeDeclaration? (p :: ps) = none := by
  have hword := word_of_isWord hp
  have hother {v : String} (hv : v ∉ ["package", "import"]) : p.isWord v = false := by
    simp only [Piece.isWord, decide_eq_true_eq] at hp
    simp only [Piece.isWord, hp, Option.some.injEq, decide_eq_false_iff_not]
    rintro rfl
    exact hv hw
  rw [typeDeclaration?, dropModifiers_other (isSymbol_word hword _)
    (List.any_eq_false.mpr fun v hv => by
      simpa using hother ((by decide : ∀ v ∈ modifierWords, v ∉ ["package", "import"]) v hv))
    (.inl (hother (by decide)))]
  refine Barren.cons (fun v hv => hother ?_) (.inl (isSymbol_word hword _))
  exact (by decide : ∀ v ∈ ["class", "interface", "enum", "record"], v ∉ ["package", "import"]) v hv

theorem firstIn_lexeme (hp : p.word?.isSome = true ∨ ∃ c, p.isSymbol c = true)
    (h : typeDeclaration? (p :: ps) = none) : firstIn previous (p :: ps) = firstIn (some p) ps := by
  rw [firstIn_plain h]
  cases p with
  | lexeme => simp [firstWithin]
  | group => simp [word?, isSymbol] at hp

theorem firstIn_names (h : Linked names) (he : e.isSymbol ';' = true) :
    firstIn previous (names ++ e :: rest) = firstIn (some e) rest := by
  obtain ⟨hparts, hlinks⟩ := h
  induction names generalizing previous with
  | nil => exact firstIn_lexeme (.inr ⟨_, he⟩) (typeDeclaration_symbol he (by decide))
  | cons p names ih =>
    rw [List.forall_mem_cons] at hparts
    have hnext : ∃ q qs c, names ++ e :: rest = q :: qs ∧ (isLink p = true ∨
        c ∈ ['.', '*', ';'] ∧ q.isSymbol c = true) := by
      cases names with
      | nil => exact ⟨e, rest, ';', rfl, .inr ⟨by decide, he⟩⟩
      | cons q names =>
        rcases (List.isChain_cons_cons.mp hlinks).1 with h | h
        · exact ⟨q, _, '.', rfl, .inl h⟩
        · obtain ⟨c, hc, h⟩ := isSymbol_of_isLink h
          exact ⟨q, _, c, rfl, .inr ⟨hc, h⟩⟩
    rw [List.cons_append, firstIn_lexeme, ih hparts.2 hlinks.tail]
    · rcases hparts.1 with h | h
      · exact .inl (word_of_isName h)
      · obtain ⟨c, -, h⟩ := isSymbol_of_isLink h
        exact .inr ⟨c, h⟩
    · by_cases hlink : isLink p = true
      · obtain ⟨c, hc, h⟩ := isSymbol_of_isLink hlink
        exact typeDeclaration_symbol h hc
      · obtain ⟨q, qs, c, hqs, h⟩ := hnext
        obtain ⟨hc, hq⟩ := h.resolve_left hlink
        rw [hqs]
        exact typeDeclaration_before (hparts.1.resolve_right hlink) hq hc

theorem firstIn_line (h : Line ps) : ∃ e, e.isSymbol ';' = true ∧
    firstIn previous (ps ++ rest) = firstIn (some e) rest := by
  obtain ⟨hk, hnames, he⟩ := h
  refine ⟨_, he, ?_⟩
  have hkeyword : ∃ w ∈ ["package", "import"], Piece.isWord _ w = true :=
    hk.elim (fun h => ⟨_, by decide, h⟩) fun h => ⟨_, by decide, h⟩
  obtain ⟨w, hw, hkw⟩ := hkeyword
  rw [List.append_assoc, List.cons_append, firstIn_lexeme (.inl (word_of_isWord hkw))
    (typeDeclaration_line hkw hw)]
  exact firstIn_names hnames he

/-- Behind lines of names the first declaration is found. -/
theorem firstIn_lines {lines : List (List Piece)} {d : Declaration} (hl : ∀ line ∈ lines, Line line)
    (hd : typeDeclaration? ps = some (d, rest)) : firstIn none (lines.flatten ++ ps) = some d := by
  obtain ⟨p, tail, rfl⟩ : ∃ p tail, ps = p :: tail := by
    cases ps with
    | nil => simp [typeDeclaration?, introduced?, typeKeyword?, dropModifiers] at hd
    | cons p tail => exact ⟨p, tail, rfl⟩
  have hgo (previous : Option Piece) (hp : previous.any (·.isSymbol '.') = false) :
      firstIn previous (lines.flatten ++ p :: tail) = some d := by
    induction lines generalizing previous with
    | nil => simp [firstIn, hp, hd]
    | cons line lines ih =>
      rw [List.forall_mem_cons] at hl
      obtain ⟨e, he, hline⟩ : ∃ e, e.isSymbol ';' = true ∧
          firstIn previous (line ++ (lines.flatten ++ p :: tail)) =
            firstIn (some e) (lines.flatten ++ p :: tail) := firstIn_line hl.1
      rw [List.flatten_cons, List.append_assoc, hline]
      exact ih hl.2 _ (by simpa using isSymbol_false he (by decide))
  exact hgo none rfl

/-- The names in a package line, the keyword apart. -/
theorem packageName_line {ws : List (Piece × Piece)} (hk : k.isWord "package" = true)
    (hp : isName p = true) (hws : ∀ w ∈ ws, w.1.isSymbol '.' = true ∧ isName w.2 = true)
    (he : e.isSymbol ';' = true) :
    packageName? (k :: (p :: ws.flatMap fun w => [w.1, w.2]) ++ e :: rest) =
      some (spell (p :: ws.flatMap fun w => [w.1, w.2])) := by
  have hname : qualifiedName (name? · |>.isSome) []
      ((p :: ws.flatMap fun w => [w.1, w.2]) ++ e :: rest) =
        p :: ws.flatMap fun w => [w.1, w.2] :=
    qualifiedName_dotted (fun q hq => isSymbol_word (word_of_isName hq) _) hp hws
      (by simpa using isSymbol_false he (by decide))
  rw [List.cons_append, packageName?, hname]
  simp [hk]

theorem linked_dotted {ws : List (Piece × Piece)} (hp : isName p = true)
    (hws : ∀ w ∈ ws, w.1.isSymbol '.' = true ∧ isName w.2 = true) :
    Linked (p :: ws.flatMap fun w => [w.1, w.2]) := by
  induction ws generalizing p with
  | nil => exact ⟨by simp [hp], .singleton p⟩
  | cons w ws ih =>
    rw [List.forall_mem_cons] at hws
    have hlink : isLink w.1 = true := by simp [isLink, hws.1.1]
    obtain ⟨hparts, hlinks⟩ := ih hws.1.2 hws.2
    refine ⟨?_, .cons_cons (.inr hlink) (.cons_cons (.inl hlink) hlinks)⟩
    simpa [hp, hlink] using hparts

-- ---------------------------------------------------------------------------
-- Private fields
-- ---------------------------------------------------------------------------

/-- An annotation without arguments. -/
def marker (blank name : String) : Tree Node :=
  .node .annotationUse [.leaf (.sign blank '@'), .leaf (.word "" name)]

/-- A private field with one declarator, behind markers. -/
def privateField (blank : String) (markers : List String) (type : Trees) (name : String) :
    Tree Node :=
  .node .fieldDeclaration
    [.node .modifiers (markers.map (marker blank) ++ [.leaf (.word blank "private")]),
     .node .unannotatedType type,
     .node .variableDeclarator [.node .identifier [.leaf (.word " " name)]], .leaf (.sign "" ';')]

theorem piecesOf_markers (blank : String) (markers : List String) :
    piecesOf (markers.map (marker blank)) =
      (markers.flatMap fun m => [.sign blank '@', .word "" m]).map Piece.lexeme := by
  induction markers with
  | nil => rfl
  | cons m markers ih => simp [marker, ih]

theorem pieces_privateField (blank : String) (markers : List String) (type : Trees) (name : String) :
    (privateField blank markers type name).pieces =
      (markers.flatMap fun m => [.sign blank '@', .word "" m]).map Piece.lexeme ++
        lexeme (.word blank "private") :: piecesOf type ++
          [lexeme (.word " " name), lexeme (.sign "" ';')] := by
  simp [privateField, piecesOf_markers]

/-- The text is a name. -/
def isNameText (t : String) : Bool := isName (lexeme (.word "" t))

theorem admits_identifier_text {blank t : String} (h : isNameText t = true) :
    grammar.admits .identifier (.word blank t) = true := by
  simpa [grammar, Terminal.admits, Nesting.isOpener, Nesting.isCloser, Lexeme.word, isNameText,
    isName, name?, word?] using h

theorem admits_typeIdentifier_text {blank t : String} (h : isNameText t = true)
    (hr : t ≠ "record") (hs : t ≠ "sealed") :
    grammar.admits .typeIdentifier (.word blank t) = true := by
  have hname : name? (lexeme (.word blank t)) = some t := name_of_identifier h
  simp [grammar, Terminal.admits, Nesting.isOpener, Nesting.isCloser, hname, hr, hs,
    show (Lexeme.word blank t).shape = .word from rfl]

theorem admits_sign {blank : String} {c : Char} (hc : c ∉ ['(', '[', '\x7b', ')', ']', '\x7d']) :
    grammar.admits (.symbol c) (.sign blank c) = true := by
  have hflat : isFlat (.sign blank c) = true := by rw [isFlat_sign, decide_eq_true hc]
  simp only [isFlat, Bool.and_eq_true, Bool.not_eq_true'] at hflat
  simp only [grammar, Terminal.admits, hflat.1, hflat.2]
  simp [isSymbol, Lexeme.sign]

theorem admits_word_text {blank t : String} : grammar.admits (.word t) (.word blank t) = true := by
  simp [grammar, Terminal.admits, Nesting.isOpener, Nesting.isCloser, Lexeme.word, isWord, word?]

theorem parses_privateField {blank name : String} {markers : List String} {type : Trees}
    (hm : ∀ m ∈ markers, isNameText m = true ∧ m ≠ "record" ∧ m ≠ "sealed")
    (ht : Parses grammar (Node.rule .unannotatedType) type) (hn : isNameText name = true) :
    Parses grammar (Rule.node .fieldDeclaration) [privateField blank markers type name] := by
  have hmodifiers : Parses grammar (Node.rule .modifiers)
      (markers.map (marker blank) ++ [.leaf (.word blank "private")]) := by
    have hprivate : Parses grammar (Rule.oneOf [Rule.node .annotationUse, Node.words modifierWords,
        Rule.inOrder [Node.word "non", Node.sym '-', Node.word "sealed"]])
        [.leaf (.word blank "private")] :=
      .right (.left (Parses.oneOf (List.mem_map_of_mem (by decide)) (.token admits_word_text)))
    have hmarker {m : String} (hm : isNameText m = true ∧ m ≠ "record" ∧ m ≠ "sealed") :
        Parses grammar (Rule.node .annotationUse) [marker blank m] :=
      .node (.seq (.token (admits_sign (by decide)))
        (.seq .stop (.seq (.token (admits_typeIdentifier_text hm.1 hm.2.1 hm.2.2)) (.right .empty))))
    cases markers with
    | nil => exact (Parses.seq hprivate .stop :)
    | cons m markers =>
      rw [List.forall_mem_cons] at hm
      have hrest (ms : List String) (hms : ∀ m ∈ ms, isNameText m = true ∧ m ≠ "record" ∧
          m ≠ "sealed") : Parses grammar (Rule.many (Rule.oneOf [Rule.node .annotationUse,
            Node.words modifierWords, Rule.inOrder [Node.word "non", Node.sym '-', Node.word "sealed"]]))
          (ms.map (marker blank) ++ [.leaf (.word blank "private")]) := by
        induction ms with
        | nil => exact (Parses.more hprivate .stop :)
        | cons m ms ih =>
          rw [List.forall_mem_cons] at hms
          exact (Parses.more (.left (hmarker hms.1)) (ih hms.2) :)
      exact (Parses.seq (.left (hmarker hm.1)) (hrest markers hm.2) :)
  have hname : Parses grammar (Rule.node .variableDeclarator)
      [.node .variableDeclarator [.node .identifier [.leaf (.word " " name)]]] := by
    refine .node (.seq (.seq (.node (.token (admits_identifier_text hn))) (.right .empty)) (.right .empty))
  have hend : Parses grammar (Node.sym ';') [.leaf (.sign "" ';')] :=
    .token (admits_sign (by decide))
  exact .node (.seq (.left (.node hmodifiers)) (.seq (.node ht) (.seq (.seq hname .stop) hend)))

@[simp] theorem entries_privateField (blank name : String) (markers : List String) (type : Trees) :
    entries (privateField blank markers type name) = [⟨name, spelled type⟩] := by
  simp [privateField, entries, entry, child, nameOf, children_other, spelled, Lexeme.word]

end Source.Java

namespace SourceFile

open Source Java Piece

/-- A file whose first line names a package and whose first declaration stands behind further
lines of names is resolved to the declaration, in that package. -/
theorem resolve_unit {s : SourceFile} {k p e : Piece} (ws : List (Piece × Piece))
    (lines : List (List Piece)) {ps rest : List Piece} {d : Declaration}
    (hs : s.language = .java) (hk : k.isWord "package" = true) (hp : isName p = true)
    (hws : ∀ w ∈ ws, w.1.isSymbol '.' = true ∧ isName w.2 = true) (he : e.isSymbol ';' = true)
    (hl : ∀ line ∈ lines, Line line) (hd : typeDeclaration? ps = some (d, rest))
    (hpieces : s.pieces = k :: (p :: ws.flatMap fun w => [w.1, w.2]) ++ e :: (lines.flatten ++ ps))
    (strict : Bool) : s.resolve strict =
      .ok ⟨d.name, Entity.qualify (spell (p :: ws.flatMap fun w => [w.1, w.2])) d.name, d.fields,
        .java⟩ := by
  have hdeclaration : s.declaration? = some d := by
    have hfirst : Line (k :: (p :: ws.flatMap fun w => [w.1, w.2]) ++ [e]) :=
      .mk (.inl hk) (linked_dotted hp hws) he
    rw [declaration?, outline, hs, hpieces, firstDeclaration_outline]
    simpa using firstIn_lines (List.forall_mem_cons.mpr ⟨hfirst, hl⟩) hd
  have hpackage : s.packageName? = some (spell (p :: ws.flatMap fun w => [w.1, w.2])) := by
    rw [packageName?, hs, hpieces]
    exact packageName_line hk hp hws he
  rw [resolve_java hs hdeclaration strict, hpackage]
  rfl

end SourceFile

end Scaffold
