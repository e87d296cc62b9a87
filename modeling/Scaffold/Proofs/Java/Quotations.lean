import Scaffold.Proofs.Java.Fields
import Scaffold.Proofs.Java.Levels
import Scaffold.Proofs.Java.Units
import Scaffold.Proofs.Occurrences

/-!
# What an entity quotes from its source

The name of an entity, those of its fields, their types and the path of the
package stand in the source. They can be written elsewhere: there they are read
as the lexemes that they were, and follow the rules that they followed.
-/

namespace Scaffold

namespace Source.Java

open Piece Source.Tree Rule

variable {p : Piece} {ps : List Piece} {l : Lexeme} {ls : List Lexeme} {ts us : Trees} {c : Char}
  {t : String}

/-- A word that is not reserved. -/
def isIdentifier (t : String) : Bool := scanner.isWord t && isNameText t

/-- The lexemes are those of the text behind a blank, wherever it is written. -/
structure Quotes (ls : List Lexeme) (t : String) : Prop where
  gap : ∀ l ∈ ls.head?, l.gapChars = [' ']
  written : written ls = ' ' :: t.toList
  rereads : ∀ c, isWordPart c = false → scanner.Rereads ls c

/-- The text of a type. -/
def IsType (t : String) : Prop :=
  ∃ type : Trees, Parses grammar (Node.rule .unannotatedType) type ∧ spelled type = t ∧
    Quotes (lexemesOf (piecesOf type)) t

/-- The text of lexemes with a property, none of them a bracket. -/
def Quoted (Q : List Piece → Prop) (t : String) : Prop :=
  ∃ ls, Q (ls.map lexeme) ∧ (∀ l ∈ ls, isFlat l = true) ∧ Quotes ls t

-- ---------------------------------------------------------------------------
-- The last lexeme
-- ---------------------------------------------------------------------------

theorem shape_of_word (h : (lexeme l).word?.isSome = true) : l.shape = .word := by
  simp only [word?] at h
  split at h
  · assumption
  · cases h

theorem final_word (h : (lexeme l).word?.isSome = true) : scanner.Final l :=
  .inl (shape_of_word h)

theorem final_symbol (h : (lexeme l).isSymbol c = true) (hc : scanner.isSign c = true) :
    scanner.Final l := by
  obtain ⟨gap, shape, text⟩ := l
  simp only [isSymbol, Bool.and_eq_true, decide_eq_true_eq] at h
  obtain ⟨rfl, rfl⟩ := h
  exact .inr ⟨gap, c, hc, rfl⟩

theorem isFlat_of_word (h : (lexeme l).word?.isSome = true) : isFlat l = true := by
  simp only [word?] at h
  split at h
  · next hs => simp [isFlat, Nesting.isOpener, Nesting.isCloser, hs]
  · cases h

theorem final_closer {o : Lexeme} (h : Encloses c o l) : scanner.Final l := by
  have hcloses := h.closes
  simp only [Nesting.isCloser, Bool.and_eq_true, Bool.or_eq_true, decide_eq_true_eq] at hcloses
  have hsymbol (d : Char) (hd : l.text = d.toString) : (lexeme l).isSymbol d = true := by
    simp [isSymbol, hcloses.1, hd]
  rcases hcloses.2 with (h | h) | h
  · exact final_symbol (hsymbol ')' h) (by decide)
  · exact final_symbol (hsymbol ']' h) (by decide)
  · exact final_symbol (hsymbol '\x7d' h) (by decide)

/-- What the pieces end with does not go on. -/
def Ends (ps : List Piece) : Prop := ∀ l ∈ (lexemesOf ps).getLast?, scanner.Final l

theorem Ends.of_last (ls : List Lexeme) (he : lexemesOf ps = ls ++ [l]) (h : scanner.Final l) :
    Ends ps := by
  intro k hk
  rw [he, List.getLast?_concat] at hk
  cases hk
  exact h

/-- What types consist of. -/
def typeTest : Test Terminal Node where
  token
    | .identifier | .typeIdentifier | .word _ => true
    | .symbol c => scanner.isSign c
    | .arrow | .decrement | .number | .character | .string .. => false
  group _ := true
  angles := true
  node := Node.inTypes

theorem typeTest_shows : typeTest.Shows grammar Ends where
  nil := by simp [Ends, lexemesOf]
  append {ps qs} hp hq := by
    intro l hl
    rw [lexemesOf_append, List.getLast?_append, Option.mem_def, Option.or_eq_some_iff] at hl
    exact hl.elim (hq l) fun h => hp l h.2
  token {t l} ht hl := by
    have hlast : scanner.Final l → Ends [lexeme l] := .of_last [] rfl
    cases t with
    | identifier => exact hlast (final_word (word_of_isName (admits_identifier hl)))
    | typeIdentifier => exact hlast (final_word (word_of_isName (admits_typeIdentifier hl).1))
    | word => exact hlast (final_word (word_of_isWord (admits_word hl)))
    | symbol c => exact hlast (final_symbol (admits_symbol hl) ht)
    | arrow | decrement | number | character | string => cases ht
  group {c o e} inner _ he :=
    .of_last (o :: lexemesOf inner) (by simp [lexemesOf, Piece.lexemes]) (final_closer he)
  angles {a b ps} _ _ _ hb :=
    .of_last (a :: lexemesOf ps) (by simp [lexemesOf_append, lexemesOf, Piece.lexemes])
      (final_symbol hb (by decide))
  node {n} hn := by
    cases n <;> first | exact .inl (by decide) | cases hn

-- ---------------------------------------------------------------------------
-- Quoted pieces
-- ---------------------------------------------------------------------------

section

variable {text : List Char} {b : String}

/-- Pieces of a text are read back behind other blanks. -/
theorem rereads_quoted (h : lexemesOf ps <:+: lexemes text) (hp : Level ps) (he : Ends ps)
    (hb : isBlankText b = true) (hc : isWordPart c = false) :
    scanner.Rereads (lexemesOf (regapFirst (Lexeme.blanks b) ps)) c := by
  obtain ⟨before, after, hinside⟩ := h
  exact rereads_regapFirst (rereads_inside hinside.symm (hp []) he hc) hb

theorem quotes_inside (h : lexemesOf ps <:+: lexemes text) (hp : Level ps) (he : Ends ps)
    (hne : ps ≠ []) : Quotes (lexemesOf (regapFirst (Lexeme.blanks " ") ps)) (spell ps) where
  gap := by
    rw [lexemesOf_regapFirst]
    cases lexemesOf ps with
    | nil => simp
    | cons l ls => simp [Lexeme.blanks, Lexeme.gapChars, Trivia.chars]
  written := by
    rw [written_regapFirst _ hne]
    simp [Lexeme.blanks, Trivia.chars]
  rereads _ hc := rereads_quoted h hp he rfl hc

end

theorem head_inkOf (h : p.isSymbol c = true ∨ p.isGroup c = true) : ∃ cs, inkOf p = c :: cs := by
  cases p with
  | lexeme l =>
    simp only [isSymbol, isGroup_lexeme, Bool.and_eq_true, decide_eq_true_eq, Bool.false_eq_true,
      or_false] at h
    exact ⟨[], by simp [inkOf, h.2, Char.toString]⟩
  | group o inner e =>
    simp only [isGroup, group?, isSymbol, Bool.false_eq_true, false_or] at h
    split at h
    · next ho => exact ⟨charsOf inner ++ (e.map lexemeChars).getD [], by simp [inkOf, ho, Char.toString]⟩
    · cases h

theorem grammar_gapless : grammar.Gapless := fun t l gap => by cases t <;> rfl

/-- A declared type with the dimensions of its declarator is the text of a type. -/
theorem isType_declared {text : List Char} {type dimensions : Trees}
    (ht : Parses grammar (Node.rule .unannotatedType) type)
    (hti : lexemesOf (piecesOf type) <:+: lexemes text)
    (hd : dimensions = [] ∨ Parses grammar (Node.rule .dimensions) dimensions ∧
      lexemesOf (piecesOf dimensions) <:+: lexemes text) :
    IsType (spelled type ++ spelled dimensions) := by
  have htype : piecesOf type ≠ [] := (shape (n := .unannotatedType) ht).1.ne_nil
  have hends : Ends (piecesOf type) := ht.shown typeTest_shows (by decide)
  have hquotes := quotes_inside hti (level ht (by decide)) hends htype
  rcases hd with rfl | ⟨hd, hdi⟩
  · refine ⟨regaps (Lexeme.blanks " ") type, ht.regaps grammar_gapless _, ?_, ?_⟩
    · rw [spelled_regaps]
      simp [spelled]
    · simpa [piecesOf_regaps, spelled] using hquotes
  · have hdends : Ends (piecesOf dimensions) := hd.shown typeTest_shows (by decide)
    obtain ⟨array, harray, hpieces⟩ : ∃ array, Parses grammar (Node.rule .unannotatedType) array ∧
        piecesOf array = regapFirst (Lexeme.blanks " ") (piecesOf type) ++
          regapFirst [] (piecesOf dimensions) :=
      ⟨_, .right (.node (.seq (.node (ht.regaps grammar_gapless (Lexeme.blanks " ")))
        (.node (hd.regaps grammar_gapless [])))), by simp [piecesOf_regaps]⟩
    have hback : written (lexemesOf (regapFirst [] (piecesOf dimensions))) =
        (spelled dimensions).toList := by
      by_cases hne : piecesOf dimensions = []
      · simp [spelled, hne, regapFirst, lexemesOf]
      · simp [written_regapFirst _ hne, spelled]
    refine ⟨array, harray, ?_, ?_, ?_, ?_⟩
    · have hne : regapFirst (Lexeme.blanks " ") (piecesOf type) ≠ [] := by
        cases h : piecesOf type with
        | nil => exact absurd h htype
        | cons => simp [regapFirst]
      rw [spelled, hpieces, spell_append_close hne, spell_regapFirst, spelled, spelled]
    · rw [hpieces, lexemesOf_append]
      have hne : lexemesOf (regapFirst (Lexeme.blanks " ") (piecesOf type)) ≠ [] := by
        intro h
        have := hquotes.written
        simp [h] at this
      rw [List.head?_append_of_ne_nil _ hne]
      exact hquotes.gap
    · rw [hpieces, lexemesOf_append, written_append, hquotes.written, hback]
      simp [spelled]
    · intro c hc
      rw [hpieces, lexemesOf_append]
      refine .append (hquotes.rereads _ ?_) (rereads_quoted (b := "") hdi
        (level hd (by decide)) hdends rfl hc)
      rw [hback, spelled]
      -- a bracket or an annotation is no part of a word
      rcases (shape (n := .dimensions) hd).head with he | ⟨p, qs, he, hp⟩
      · simpa [he] using hc
      · rw [he, spell_cons]
        rcases hp with hp | hp
        · obtain ⟨cs, hcs⟩ := head_inkOf (.inr hp)
          simpa [hcs] using (by decide : isWordPart '[' = false)
        · obtain ⟨cs, hcs⟩ := head_inkOf (.inl hp)
          simpa [hcs] using (by decide : isWordPart '@' = false)

-- ---------------------------------------------------------------------------
-- Paths
-- ---------------------------------------------------------------------------

theorem Linked.concat (h : Linked ps) (hp : isName p = true ∨ isLink p = true)
    (hlast : ∀ q ∈ ps.getLast?, isLink q = true ∨ isLink p = true) : Linked (ps ++ [p]) where
  parts := by simpa [or_imp, forall_and] using ⟨h.parts, hp⟩
  links := List.isChain_append.mpr ⟨h.links, .singleton p, by simpa using hlast⟩

/-- The names in front with dots between them, as far as they go. -/
theorem qualifiedName_linked (taken ps : List Piece) (h : Linked taken.reverse) :
    Linked (qualifiedName isName taken ps) ∧
      qualifiedName isName taken ps <+: taken.reverse ++ ps := by
  have hdot {p : Piece} (hp : p.isSymbol '.' = true) : isLink p = true := by simp [isLink, hp]
  have hstep {p : Piece} {taken ps : List Piece}
      (ih : Linked (p :: taken).reverse → Linked (qualifiedName isName (p :: taken) ps) ∧
        qualifiedName isName (p :: taken) ps <+: (p :: taken).reverse ++ ps)
      (ht : Linked taken.reverse) (hp : isName p = true ∨ isLink p = true)
      (hlast : ∀ q ∈ taken.head?, isLink q = true ∨ isLink p = true) :
      Linked (qualifiedName isName (p :: taken) ps) ∧
        qualifiedName isName (p :: taken) ps <+: taken.reverse ++ p :: ps := by
    rw [List.reverse_cons, List.append_assoc, List.singleton_append] at ih
    exact ih (ht.concat hp (by simpa using hlast))
  fun_induction qualifiedName isName taken ps with
  | case1 taken => exact ⟨h, by simp⟩
  | case2 p ps hp ih => exact hstep ih h (.inl hp) (by simp)
  | case3 p ps hp => exact ⟨⟨by simp, .nil⟩, List.nil_prefix⟩
  | case4 p ps last before hlast hp ih =>
    exact hstep ih h (.inl hp) (by simpa using .inl (hdot hlast))
  | case5 p ps last before hlast hp =>
    rw [List.reverse_cons] at h
    refine ⟨⟨fun q hq => h.parts q (by simp [hq]), (List.isChain_append.mp h.links).1⟩, ?_⟩
    simp
  | case6 p ps last before hlast hp ih =>
    exact hstep ih h (.inr (hdot hp)) (by simpa using .inr (hdot hp))
  | case7 p ps last before hlast hp => exact ⟨h, List.prefix_append ..⟩

theorem Linked.regap {gap : List Trivia} (h : Linked (lexeme l :: ps)) :
    Linked (lexeme (l.regap gap) :: ps) where
  parts := List.forall_mem_cons.mpr (List.forall_mem_cons.mp h.parts)
  links := by
    cases ps with
    | nil => exact .singleton _
    | cons p ps => exact .cons_cons (List.isChain_cons_cons.mp h.links).1 h.links.tail

theorem Linked.flat (h : Linked ps) :
    ∃ ls : List Lexeme, ps = ls.map lexeme ∧ ∀ l ∈ ls, isFlat l = true ∧ scanner.Final l := by
  have hparts := h.parts
  clear h
  induction ps with
  | nil => exact ⟨[], rfl, by simp⟩
  | cons p ps ih =>
    rw [List.forall_mem_cons] at hparts
    obtain ⟨ls, rfl, hls⟩ := ih hparts.2
    cases p with
    | group o inner e => simp [isName, name?, word?, isLink, isSymbol] at hparts
    | lexeme l =>
      refine ⟨l :: ls, rfl, List.forall_mem_cons.mpr ⟨?_, hls⟩⟩
      rcases hparts.1 with h | h
      · exact ⟨isFlat_of_word (word_of_isName h), final_word (word_of_isName h)⟩
      · simp only [isLink, Bool.or_eq_true] at h
        rcases h with h | h
        · exact ⟨isFlat_of_symbol h (by decide), final_symbol h (by decide)⟩
        · exact ⟨isFlat_of_symbol h (by decide), final_symbol h (by decide)⟩

/-- The package that a text names is the text of names and dots among its lexemes. -/
theorem packageName_quoted (h : packageName? ps = Option.some t) :
    ∃ qs, Linked qs ∧ t = spell qs ∧ qs ≠ [] ∧ lexemesOf qs <:+: lexemesOf ps := by
  induction ps with
  | nil => cases h
  | cons p ps ih =>
    rw [packageName?] at h
    split at h
    · next hp =>
      simp only [Bool.and_eq_true, Bool.not_eq_true', List.isEmpty_eq_false_iff] at hp
      obtain ⟨hlinked, after, hprefix⟩ := qualifiedName_linked [] ps ⟨by simp, .nil⟩
      refine ⟨qualifiedName isName [] ps, hlinked, (Option.some.inj h).symm, hp.2, ?_⟩
      refine ⟨p.lexemes, lexemesOf after, ?_⟩
      rw [List.append_assoc, ← lexemesOf_append, hprefix]
      rfl
    · obtain ⟨qs, hq, ht, hne, hinside⟩ := ih h
      exact ⟨qs, hq, ht, hne, hinside.trans (List.suffix_append ..).isInfix⟩

namespace Quoted

variable {Q R : List Piece → Prop}

theorem mono (h : Quoted Q t) (hqr : ∀ ps, Q ps → R ps) : Quoted R t := by
  obtain ⟨ls, hq, hrest⟩ := h
  exact ⟨ls, hqr _ hq, hrest⟩

/-- More lexemes that do not go on with a word. -/
theorem append (ms : List Lexeme) {u : String} (h : Quoted Q t)
    (hq : ∀ ps, Q ps → R (ps ++ ms.map lexeme)) (hflat : ∀ l ∈ ms, isFlat l = true)
    (hw : written ms = u.toList) (hnext : isWordPart (headOr u.toList ' ') = false)
    (hr : ∀ c, isWordPart c = false → scanner.Rereads ms c) : Quoted R (t ++ u) := by
  obtain ⟨ls, hls, hlflat, hquotes⟩ := h
  have hne : ls ≠ [] := by
    rintro rfl
    simpa using hquotes.written
  refine ⟨ls ++ ms, by simpa using hq _ hls, ?_, ?_, by simp [hquotes.written, hw], fun c hc => ?_⟩
  · simpa [or_imp, forall_and] using ⟨hlflat, hflat⟩
  · rw [List.head?_append_of_ne_nil _ hne]
    exact hquotes.gap
  · refine .append (hquotes.rereads _ ?_) (hr c hc)
    rw [hw]
    cases hu : u.toList with
    | nil => exact hc
    | cons d ds => simpa [hu] using hnext

/-- One name more, behind a dot. -/
theorem member (hQ : ∀ ps d p, Q ps → d.isSymbol '.' = true → isName p = true → Q (ps ++ [d, p]))
    (h : Quoted Q t) {name : String} (hn : isIdentifier name = true) :
    Quoted Q (t ++ "." ++ name) := by
  simp only [isIdentifier, Bool.and_eq_true] at hn
  rw [String.append_assoc]
  refine h.append [.sign "" '.', .word "" name] (fun ps hq => hQ _ _ _ hq (by simp) hn.2)
    (by simp) (by simp [lexemeChars_sign, lexemeChars_word])
    (by simpa using (by decide : isWordPart '.' = false)) fun c hc => ?_
  exact .sign rfl (by decide) (.word rfl hn.1 hc .nil)

/-- Several names more. -/
theorem members (hQ : ∀ ps d p, Q ps → d.isSymbol '.' = true → isName p = true → Q (ps ++ [d, p]))
    (h : Quoted Q t) {names : List String} (hn : ∀ n ∈ names, isIdentifier n = true) :
    Quoted Q (".".intercalate (t :: names)) := by
  induction names generalizing t with
  | nil => exact h
  | cons n names ih =>
    rw [List.forall_mem_cons] at hn
    exact ih (h.member hQ hn.1) hn.2

end Quoted

theorem linked_member {d : Piece} (h : Linked ps) (hd : d.isSymbol '.' = true)
    (hp : isName p = true) : Linked (ps ++ [d, p]) := by
  have hlink : isLink d = true := by simp [isLink, hd]
  have := (h.concat (.inr hlink) fun _ _ => .inr hlink).concat (.inl hp) (by simpa using .inl hlink)
  simpa using this

theorem dotted_member {d : Piece} (h : Dotted ps) (hd : d.isSymbol '.' = true)
    (hp : isName p = true) : Dotted (ps ++ [d, p]) := by
  induction h with
  | last hq => exact .dot hq hd (.last hp)
  | dot hq hd' _ ih => exact .dot hq hd' ih

theorem Dotted.linked (h : Dotted ps) : Linked ps := by
  induction h with
  | last hp => exact ⟨by simpa using .inl hp, .singleton _⟩
  | @dot p d ps hp hd h ih =>
    have hlink : isLink d = true := by simp [isLink, hd]
    obtain ⟨hparts, hlinks⟩ := ih
    refine ⟨by simpa [hp, hlink] using hparts, ?_⟩
    cases h <;> exact .cons_cons (.inr hlink) (.cons_cons (.inl hlink) hlinks)

theorem quoted_name (h : isIdentifier t = true) : Quoted Dotted t := by
  simp only [isIdentifier, Bool.and_eq_true] at h
  refine ⟨[.word " " t], .last h.2, by simp, by simp, ?_, fun c hc => .word rfl h.1 hc .nil⟩
  simp [lexemeChars_word]

/-- A qualified name stands behind the package that the source names. -/
theorem quoted_qualify {text : List Char} {package name : String} {qs : List Piece}
    (hq : Linked qs) (hp : package = spell qs) (hne : qs ≠ [])
    (hinside : lexemesOf qs <:+: Java.lexemes text) (hn : isIdentifier name = true) :
    Quoted Linked (package ++ "." ++ name) := by
  obtain ⟨ls, rfl, hfinal⟩ := hq.flat
  obtain ⟨l, ls, rfl⟩ := List.exists_cons_of_ne_nil (by simpa using hne)
  have hends : Ends ((l :: ls).map lexeme) := by
    intro k hk
    rw [lexemesOf_flat] at hk
    exact (hfinal k (List.mem_of_getLast? hk)).2
  have hlevel : Level ((l :: ls).map lexeme) :=
    .flat fun k hk => neutral_of_final (hfinal k hk).2 (hfinal k hk).1
  have hquotes := quotes_inside hinside hlevel hends hne
  have hflat : lexemesOf (regapFirst (Lexeme.blanks " ") ((l :: ls).map lexeme)) =
      l.regap (Lexeme.blanks " ") :: ls := by
    rw [lexemesOf_regapFirst, lexemesOf_flat]
  rw [hflat, ← hp] at hquotes
  refine Quoted.member (fun _ _ _ => linked_member) ⟨_, hq.regap, ?_, hquotes⟩ hn
  exact List.forall_mem_cons.mpr ⟨(hfinal l List.mem_cons_self).1,
    fun k hk => (hfinal k (List.mem_cons_of_mem _ hk)).1⟩

-- ---------------------------------------------------------------------------
-- Names and types of an accepted source
-- ---------------------------------------------------------------------------

section

variable {n m : Node}

theorem mem_of_children (h : us ∈ children n ts) : Tree.node n us ∈ ts := by
  obtain ⟨t, ht, he⟩ := List.mem_filterMap.mp h
  cases t with
  | leaf | group => cases he
  | node m vs =>
    dsimp only at he
    split at he
    · next hm =>
      obtain rfl := hm
      obtain rfl := Option.some.inj he
      exact ht
    · cases he

theorem child_mem_or (n : Node) (ts : Trees) : child n ts = [] ∨ Tree.node n (child n ts) ∈ ts := by
  rw [child]
  cases h : children n ts with
  | nil => exact .inl rfl
  | cons us uss => exact .inr (mem_of_children (by simp [h]))

theorem child_mem (h : Tree.node n us ∈ ts) : Tree.node n (child n ts) ∈ ts := by
  have hmem : us ∈ children n ts := List.mem_filterMap.mpr ⟨_, h, if_pos rfl⟩
  rw [child]
  cases hc : children n ts with
  | nil => simp [hc] at hmem
  | cons vs vss => exact mem_of_children (by simp [hc])

theorem holds_between (h : Holds n us (between ts)) : Holds n us ts := by
  rcases ts with _ | ⟨t, _ | ⟨u, vs⟩⟩
  · cases h
  · cases t with
    | group => exact .inGroup h
    | leaf | node => cases h
  · cases t <;> cases h

theorem holds_child (h : Holds n us (child m ts)) : Holds n us ts := by
  rcases child_mem_or m ts with he | hm
  · rw [he] at h
    cases h
  · exact (Holds.of_mem hm).trans h

theorem holds_member {k : Node} (h : Tree.node n us ∈ membersIn k ts) : Holds n us ts := by
  have h := Holds.of_mem h
  cases k
  case classDeclaration | recordDeclaration => exact holds_child (holds_between h)
  case interfaceDeclaration | annotationTypeDeclaration => exact holds_child (holds_between h)
  case enumDeclaration => exact holds_child (holds_between (holds_child h))
  all_goals cases h

mutual

theorem holds_firstDeclared {t : Source.Tree Node} {d : Declared}
    (h : firstDeclared t = Option.some d) : d.kind.declares = true ∧ Holds d.kind d.trees [t] := by
  cases t with
  | leaf => cases h
  | group o ts e => exact (holds_firstOf h).imp_right .inGroup
  | node n ts =>
    rw [firstDeclared] at h
    split at h
    · next hn =>
      cases h
      exact ⟨hn, .here⟩
    · exact (holds_firstOf h).imp_right .inNode

theorem holds_firstOf {ts : Trees} {d : Declared} (h : firstOf ts = Option.some d) :
    d.kind.declares = true ∧ Holds d.kind d.trees ts := by
  cases ts with
  | nil => cases h
  | cons t ts =>
    rw [firstOf, Option.or_eq_some_iff] at h
    rcases h with h | ⟨-, h⟩
    · exact (holds_firstDeclared h).imp_right fun h => by simpa using Holds.append_iff.mpr (.inl h)
    · exact (holds_firstOf h).imp_right .later

end

/-- Whatever follows the rule has a child of the kind. -/
def Offers (r : Rule Terminal Node) (n : Node) : Prop :=
  ∀ ts, Parses grammar r ts → ∃ us, Tree.node n us ∈ ts

namespace Offers

variable {r s : Rule Terminal Node}

theorem node (n : Node) : Offers (.node n) n := by
  intro ts h
  obtain ⟨us, -, rfl⟩ := Parses.node_iff.mp h
  exact ⟨us, List.mem_singleton_self _⟩

theorem first (h : Offers r n) : Offers (.seq r s) n := by
  intro ts hts
  obtain ⟨us, vs, hu, -, rfl⟩ := Parses.seq_iff.mp hts
  obtain ⟨ws, hw⟩ := h us hu
  exact ⟨ws, List.mem_append_left _ hw⟩

theorem second (h : Offers s n) : Offers (.seq r s) n := by
  intro ts hts
  obtain ⟨us, vs, -, hv, rfl⟩ := Parses.seq_iff.mp hts
  obtain ⟨ws, hw⟩ := h vs hv
  exact ⟨ws, List.mem_append_right _ hw⟩

end Offers

/-- Every declaration has a name. -/
theorem offers_identifier (h : n.declares = true) : Offers (Node.rule n) .identifier := by
  cases n <;> first | exact .second (.second (.first (.node _))) | cases h

end

namespace Accepts

variable {text : String} {program : Trees} {n : Node}

theorem lexemes_inside (h : Accepts text program) (hu : Holds n us program) :
    lexemesOf (piecesOf us) <:+: Java.lexemes text.toList :=
  h.lexemes ▸ hu.lexemes_inside

theorem isIdentifier_nameOf (h : Accepts text program) (hu : Holds n us program)
    (hn : Offers (Node.rule n) .identifier) : isIdentifier (nameOf us) = true := by
  obtain ⟨vs, hv⟩ := hn us (hu.parses h.parses)
  have hchild := hu.trans (.of_mem (child_mem hv))
  obtain ⟨l, hl, he⟩ := Parses.token_iff.mp (hchild.parses h.parses)
  have hname := admits_identifier hl
  have hmem : l ∈ Java.lexemes text.toList := by
    refine (h.lexemes_inside hchild).subset ?_
    simp [he, lexemesOf, Piece.lexemes]
  have htext : isNameText l.text = true := by
    obtain ⟨w, hw, hr, hd⟩ := isName_iff.mp hname
    rw [(Option.filter_eq_some_iff.mp (name_of_identifier hname)).1] at hw
    cases hw
    exact isName_iff.mpr ⟨_, rfl, hr, hd⟩
  simp [nameOf, he, isIdentifier, htext, isWord_of_mem hmem (shape_of_word (word_of_isName hname))]

/-- The declared type below a node and the dimensions of a declarator below the same or another
one. -/
theorem isType_entry (h : Accepts text program) {m : Node} {ws : Trees} (hw : Holds m ws program)
    (ht : Offers (Node.rule m) .unannotatedType) {dimensions : Trees}
    (hd : dimensions = [] ∨ Holds .dimensions dimensions program) :
    IsType (spelled (child .unannotatedType ws) ++ spelled dimensions) := by
  obtain ⟨vs, hv⟩ := ht ws (hw.parses h.parses)
  have htype := hw.trans (.of_mem (child_mem hv))
  exact isType_declared (htype.parses h.parses) (h.lexemes_inside htype)
    (hd.imp_right fun hd => ⟨hd.parses h.parses, h.lexemes_inside hd⟩)

/-- The fields of a declaration can be quoted. -/
theorem fields_quoted (h : Accepts text program) {d : Declared} (hd : firstOf program = Option.some d)
    {f : Field} (hf : f ∈ fieldsIn d.kind d.trees) :
    isIdentifier f.name = true ∧ IsType f.typeText := by
  have hdeclared := (holds_firstOf hd).2
  have hmember {m : Node} {ws : Trees} (hm : Tree.node m ws ∈ membersIn d.kind d.trees)
      (ht : Offers (Node.rule m) .unannotatedType)
      (hf : f ∈ (children .variableDeclarator ws).map (entry (child .unannotatedType ws))) :
      isIdentifier f.name = true ∧ IsType f.typeText := by
    have hholds := hdeclared.trans (holds_member hm)
    obtain ⟨vs, hv, rfl⟩ := List.mem_map.mp hf
    have hdeclarator := hholds.trans (.of_mem (mem_of_children hv))
    refine ⟨h.isIdentifier_nameOf hdeclarator (.first (.first (.node _))),
      h.isType_entry hholds ht ?_⟩
    exact (child_mem_or .dimensions vs).imp_right fun hm => hdeclarator.trans (.of_mem hm)
  rw [fieldsIn, List.mem_append, List.mem_flatMap] at hf
  rcases hf with hf | ⟨t, ht, hf⟩
  · split at hf
    · obtain ⟨us, hu, rfl⟩ := List.mem_map.mp hf
      have hholds : Holds .formalParameter us d.trees :=
        holds_child (holds_between (.of_mem (mem_of_children hu)))
      have htype := h.isType_entry (hdeclared.trans hholds) (.second (.first (.node _))) (.inl rfl)
      refine ⟨h.isIdentifier_nameOf (hdeclared.trans hholds)
        (.second (.second (.first (.node _)))), ?_⟩
      simpa [spelled] using htype
    · cases hf
  · cases t with
    | leaf | group => cases hf
    | node m ws =>
      cases m
      case fieldDeclaration => exact hmember ht (.second (.first (.node _))) hf
      case constantDeclaration => exact hmember ht (.second (.first (.node _))) hf
      all_goals cases hf

end Accepts

end Source.Java

open Source Source.Java Source.Tree

/-- What the entity says can be written in a text of Java. -/
structure Entity.Quotable (e : Entity) : Prop where
  name : isIdentifier e.name = true
  path : Quoted Linked e.qualifiedName
  fields : ∀ f ∈ e.fields, isIdentifier f.name = true ∧ IsType f.typeText

/-- An entity of an accepted source can be quoted. -/
theorem SourceFile.resolve_quotable {s : SourceFile} {program : Trees} {e : Entity} {strict : Bool}
    (hs : s.language = .java) (h : Accepts s.text program) (he : s.resolve strict = .ok e) :
    e.Quotable := by
  have hfound := declaration_accepted hs h
  cases hd : firstOf program with
  | none =>
    rw [hd, Option.map_none] at hfound
    simp [resolve, hfound] at he
  | some d =>
    rw [hd, Option.map_some] at hfound
    rw [resolve_java hs hfound] at he
    obtain rfl := Except.ok.inj he
    obtain ⟨hkind, hdeclared⟩ := holds_firstOf hd
    have hname : isIdentifier (nameOf d.trees) = true :=
      h.isIdentifier_nameOf hdeclared (offers_identifier hkind)
    refine ⟨hname, ?_, fun f hf => h.fields_quoted hd hf⟩
    have hpath : Quoted Linked (nameOf d.trees) := (quoted_name hname).mono fun _ => Dotted.linked
    have hpieces : s.pieces = piecesOf program := pieces_accepted hs h
    cases hp : s.packageName? with
    | none => simpa [Entity.qualify, Declared.declaration] using hpath
    | some package =>
      rw [packageName?, hs, hpieces] at hp
      obtain ⟨qs, hq, hspell, hne, hinside⟩ := packageName_quoted hp
      rw [Option.getD_some, Entity.qualify]
      split
      · exact hpath
      · exact quoted_qualify hq hspell hne (h.lexemes ▸ hinside) hname

end Scaffold
