import Scaffold.Proofs.Java.Barriers
import Scaffold.Proofs.Searches

/-!
# Where declarations are found

Before the first declaration of a tree nothing looks like one: no word that
could introduce it has a name, parameters and a body behind it, and no modifier
stands directly in front of the declaration that is none of its own. The search
through the pieces thus finds what a walk through the tree finds.
-/

namespace Scaffold.Source.Java

open Piece Source.Tree Rule

variable {p q : Piece} {ps qs rest : List Piece} {ts us : Trees}

-- ---------------------------------------------------------------------------
-- What rules begin and end with
-- ---------------------------------------------------------------------------

/-- What the trees of a rule may do at their ends: end with a word that could introduce a
declaration or with the sign of an annotation, open with a declaration, or be closed so that no
modifier reaches out of them. -/
structure Flags where
  wild : Bool
  signs : Bool
  opens : Bool
  closed : Bool

def Node.wild : Node → Bool
  | .identifier | .packagePrefix | .elementValuePair | .elementValue | .expression | .assignment
  | .binary | .instanceOf | .lambda | .ternary | .unary | .update | .cast | .primary | .numeral
  | .classLiteral | .fieldAccess | .methodReference | .variableInitializer
  | .recordPatternComponent | .typePattern | .resource | .switchLabels | .enumConstant
  | .variableDeclarator | .formalParameter | .spreadParameter => true
  | _ => false

def Node.opens : Node → Bool
  | .program | .statement => true
  | n => n.declares

def Node.closed : Node → Bool
  | .program | .statement | .block | .expressionStatement | .labeled | .ifStatement
  | .whileStatement | .forStatement | .forEach | .doStatement | .assertStatement
  | .breakStatement | .continueStatement | .returnStatement | .yieldStatement | .throwStatement
  | .synchronizedStatement | .tryStatement | .catchClause | .finallyClause | .localVariable
  | .switchExpression | .switchGroup | .switchRule | .groupMark | .ruleMark
  | .packageDeclaration | .importDeclaration | .moduleDeclaration | .moduleDirective
  | .moduleTargets | .classBody | .interfaceBody | .annotationTypeBody | .enumBody
  | .enumBodyDeclarations | .fieldDeclaration | .constantDeclaration | .methodDeclaration
  | .constructorDeclaration | .constructorBody | .explicitConstructorCall | .compactConstructor
  | .staticInitializer | .annotationElement => true
  | n => n.declares

/-- Only a program may be empty. -/
def Node.hollow : Node → Bool
  | .program => true
  | _ => false

def Node.flags (n : Node) : Flags := ⟨n.wild, false, n.opens, n.closed⟩

def Terminal.hard : Terminal → Bool
  | .symbol c => c ∉ ['.', '@', '-']
  | .word w => w ∈ reserved && w ∉ modifierWords ++ ["class", "interface", "enum"]
  | .arrow | .decrement | .number | .character | .string .. => true
  | .identifier | .typeIdentifier => false

/-- A reserved word with something in parentheses, such as a condition. -/
def isHead : Rule Terminal Node → Rule Terminal Node → Bool
  | .token (.word w), .group _ _ => (Terminal.word w).hard
  | _, _ => false

def flags : Rule Terminal Node → Flags
  | .token t => ⟨t = .identifier || t = .word "class", t = .symbol '@', false, t.hard⟩
  | .node n => n.flags
  | .group c _ => ⟨false, false, false, c ≠ '('⟩
  | .angles _ | .empty => ⟨false, false, false, true⟩
  | .seq r s =>
    let f := flags r
    let g := flags s
    ⟨g.wild || s.nullable Node.hollow && f.wild, g.signs || s.nullable Node.hollow && f.signs,
      f.opens || r.nullable Node.hollow && g.opens,
      g.closed && (!s.nullable Node.hollow || f.closed) || isHead r s⟩
  | .alt r s =>
    let f := flags r
    let g := flags s
    ⟨f.wild || g.wild, f.signs || g.signs, f.opens || g.opens, f.closed && g.closed⟩
  | .many r => flags r

/-- What may follow a word that could introduce a declaration. -/
def tameTest : Test Terminal Node where
  token
    | .identifier | .typeIdentifier => false
    | .word w => w ∈ reserved
    | _ => true
  group _ := true
  angles := true
  node
    | .argumentList | .dimensions | .typeArguments | .formalParameters | .groupMark | .ruleMark
    | .moduleTargets | .annotationUse | .classBody | .enumBodyDeclarations => true
    | _ => false

def unsignedTest : Test Terminal Node where
  token t := t ≠ .word "interface"
  group _ := true
  angles := true
  node _ := false

/-- Nothing in the rule leads from one part into a declaration in the next. -/
def fits : Rule Terminal Node → Bool
  | .token t => t ∉ [.word "interface", .word "enum", .word "record"]
  | .node _ | .empty => true
  | .group _ r => fits r
  | .angles r => fits r && !(flags r).opens
  | .seq r s =>
    fits r && fits s && (!(flags r).wild || s.starts Node.hollow tameTest) &&
      (!(flags r).signs || s.starts Node.hollow unsignedTest) &&
      (!(flags s).opens || (flags r).closed)
  | .alt r s => fits r && fits s
  | .many r =>
    fits r && (!(flags r).wild || r.starts Node.hollow tameTest) &&
      (!(flags r).signs || r.starts Node.hollow unsignedTest) &&
      (!(flags r).opens || (flags r).closed)

/-- The flags tell no more than others. -/
structure Flags.Below (f g : Flags) : Prop where
  wild : f.wild = true → g.wild = true
  signs : f.signs = true → g.signs = true
  opens : f.opens = true → g.opens = true
  closed : g.closed = true → f.closed = true

instance (f g : Flags) : Decidable (f.Below g) :=
  decidable_of_iff ((f.wild → g.wild) ∧ (f.signs → g.signs) ∧ (f.opens → g.opens) ∧
      (g.closed → f.closed))
    ⟨fun h => ⟨h.1, h.2.1, h.2.2.1, h.2.2.2⟩, fun h => ⟨h.wild, h.signs, h.opens, h.closed⟩⟩

theorem flags_node (n : Node) :
    n.declares = true ∨ fits n.rule = true ∧ (flags n.rule).Below n.flags := by
  cases n <;> decide

theorem hollow_node (n : Node) : n.rule.nullable Node.hollow = true → n.hollow = true := by
  cases n <;> decide

-- ---------------------------------------------------------------------------
-- Searches through trees
-- ---------------------------------------------------------------------------

theorem firstIn_plain {previous : Option Piece} (h : typeDeclaration? (p :: ps) = none) :
    firstIn previous (p :: ps) = (firstWithin p).or (firstIn (some p) ps) := by
  rw [firstIn, h]
  split <;> rfl

/-- What may follow trees with the flags. -/
structure Follows (f : Flags) (rest : List Piece) : Prop where
  tame : f.wild = true → Tame rest
  unsigned : f.signs = true → Unsigned rest
  plain : f.closed = false → Plain rest

theorem Follows.nil {f : Flags} : Follows f [] :=
  ⟨fun _ => .nil, fun _ => rfl, fun _ => .nil⟩

/-- A declaration may stand behind the piece. -/
def Clear (previous : Option Piece) : Prop :=
  previous.any (·.isSymbol '.') = false

/-- The search through the pieces of the trees finds their first declaration and goes on behind
them if there is none. -/
structure Scan (f : Flags) (ts : Trees) : Prop where
  found {previous : Option Piece} {rest : List Piece} : Follows f rest →
    (f.opens = true → Clear previous) →
    firstIn previous (piecesOf ts ++ rest) = ((firstOf ts).map Declared.declaration).or
      (firstIn (lastPiece previous (piecesOf ts)) rest)
  plain {rest : List Piece} : f.opens = false → Follows f rest → (piecesOf ts = [] → Plain rest) →
    Plain (piecesOf ts ++ rest)
  clear : f.closed = true → firstOf ts = none → piecesOf ts ≠ [] →
    Clear (piecesOf ts).getLast?

theorem Follows.below {f g : Flags} (h : f.Below g) (hr : Follows g rest) : Follows f rest where
  tame hf := hr.tame (h.wild hf)
  unsigned hf := hr.unsigned (h.signs hf)
  plain hf := hr.plain (by
    cases hg : g.closed with
    | false => rfl
    | true => rw [h.closed hg] at hf; cases hf)

theorem lastPiece_append (previous : Option Piece) (ps qs : List Piece) :
    lastPiece previous (ps ++ qs) = lastPiece (lastPiece previous ps) qs := by
  simp [lastPiece, List.getLast?_append, Option.or_assoc]

namespace Scan

variable {f g h : Flags}

theorem below (hs : Scan f ts) (hb : f.Below g) : Scan g ts where
  found hr hp := hs.found (hr.below hb) fun ho => hp (hb.opens ho)
  plain ho hr hn := by
    refine hs.plain ?_ (hr.below hb) hn
    cases hf : f.opens with
    | false => rfl
    | true => rw [hb.opens hf] at ho; cases ho
  clear hc hn he := hs.clear (hb.closed hc) hn he

theorem nil : Scan f [] where
  found _ _ := by simp [firstOf, lastPiece]
  plain _ _ hn := by simpa using hn
  clear _ _ hn := by simp at hn

/-- The flags of two parts of a rule in order. -/
structure Joins (f g h : Flags) (ts us : Trees) : Prop where
  tame : f.wild = true → ∀ rest, (piecesOf us = [] → Tame rest) → Tame (piecesOf us ++ rest)
  unsigned : f.signs = true → ∀ rest, (piecesOf us = [] → Unsigned rest) →
    Unsigned (piecesOf us ++ rest)
  opened : g.opens = true → f.closed = true
  right : g.Below { h with opens := true }
  left : piecesOf us = [] → f.Below { h with opens := true }
  opens : f.opens = true → h.opens = true
  opensRight : piecesOf ts = [] → g.opens = true → h.opens = true

theorem append (hf : Scan f ts) (hg : Scan g us) (hj : Joins f g h ts us) : Scan h (ts ++ us) := by
  have hright {rest : List Piece} (hr : Follows h rest) : Follows g rest :=
    ⟨fun hw => hr.tame (hj.right.wild hw), fun hs => hr.unsigned (hj.right.signs hs),
      fun hc => (Follows.below hj.right ⟨hr.tame, hr.unsigned, hr.plain⟩).plain hc⟩
  have hempty {rest : List Piece} (hr : Follows h rest) (hn : piecesOf us = []) : Follows f rest :=
    Follows.below (hj.left hn) ⟨hr.tame, hr.unsigned, hr.plain⟩
  have hplain {rest : List Piece} (hr : Follows h rest) (hc : f.closed = false) :
      Plain (piecesOf us ++ rest) := by
    refine hg.plain ?_ (hright hr) fun hn => (hempty hr hn).plain hc
    cases ho : g.opens with
    | false => rfl
    | true => rw [hj.opened ho] at hc; cases hc
  have hleft {rest : List Piece} (hr : Follows h rest) : Follows f (piecesOf us ++ rest) :=
    ⟨fun hw => hj.tame hw rest fun hn => (hempty hr hn).tame hw,
      fun hs => hj.unsigned hs rest fun hn => (hempty hr hn).unsigned hs, hplain hr⟩
  refine ⟨fun {previous rest} hr hp => ?_, fun {rest} ho hr hn => ?_, fun hc hn he => ?_⟩
  · rw [piecesOf_append, List.append_assoc, hf.found (hleft hr) fun ho => hp (hj.opens ho),
      firstOf_append, lastPiece_append]
    cases hfirst : firstOf ts with
    | some d => simp
    | none =>
      rw [hg.found (hright hr)]
      · simp
      · intro ho
        by_cases hts : piecesOf ts = []
        · rw [hts]
          exact hp (hj.opensRight hts ho)
        · have := hf.clear (hj.opened ho) hfirst hts
          obtain ⟨p, hp⟩ : ∃ p, (piecesOf ts).getLast? = Option.some p :=
            Option.isSome_iff_exists.mp (by simpa using hts)
          rw [Clear, lastPiece, hp, Option.some_or, ← hp]
          exact this
  · rw [piecesOf_append, List.append_assoc]
    have hfo : f.opens = false := by
      cases hfo : f.opens with
      | false => rfl
      | true => rw [hj.opens hfo] at ho; cases ho
    refine hf.plain hfo (hleft hr) fun hts => hg.plain ?_ (hright hr) fun hus => hn (by simp [hts, hus])
    cases hgo : g.opens with
    | false => rfl
    | true => rw [hj.opensRight hts hgo] at ho; cases ho
  · rw [firstOf_append, Option.or_eq_none_iff] at hn
    rw [piecesOf_append, List.getLast?_append]
    by_cases hus : piecesOf us = []
    · rw [hus, List.getLast?_nil, Option.none_or]
      exact hf.clear ((hj.left hus).closed hc) hn.1 (by simpa [hus] using he)
    · have := hg.clear (hj.right.closed hc) hn.2 hus
      obtain ⟨p, hp⟩ : ∃ p, (piecesOf us).getLast? = Option.some p :=
        Option.isSome_iff_exists.mp (by simpa using hus)
      rw [hp, Option.some_or, ← hp]
      exact this

end Scan

theorem isHard_of_symbol {c : Char} (h : p.isSymbol c = true) (hc : c ∉ ['.', '@', '-']) :
    isHard p = true := by
  simp only [List.mem_cons, List.not_mem_nil, or_false, not_or] at hc
  have hword : p.word? = none := word_symbol h
  have hany : (modifierWords ++ ["class", "interface", "enum"]).any p.isWord = false :=
    List.any_eq_false.mpr fun w _ => by simp [isWord_false hword]
  simp [isHard, isName_of_word hword, isSymbol_false h hc.1, isSymbol_false h hc.2.1,
    isSymbol_false h hc.2.2, isGroup_symbol h, hany]

theorem isHard_of_group {c : Char} (h : p.isGroup c = true) (hc : c ≠ '(') :
    isHard p = true := by
  have hword : p.word? = none := word_group h
  have hany : (modifierWords ++ ["class", "interface", "enum"]).any p.isWord = false :=
    List.any_eq_false.mpr fun w _ => by simp [isWord_false hword]
  simp [isHard, isName_of_word hword, isSymbol_group h, isGroup_false h hc, hany]

theorem admits_number {l : Lexeme} (h : grammar.admits .number l = true) :
    ∃ w, (lexeme l).word? = Option.some w ∧ w.toList.head?.map Char.isDigit = Option.some true := by
  simp only [grammar, Terminal.admits, Bool.and_eq_true, Option.any_eq_true] at h
  obtain ⟨-, w, hw, hdigit⟩ := h
  exact ⟨w, hw, of_decide_eq_true hdigit⟩

theorem isHard_of_admits {t : Terminal} {l : Lexeme} (ht : t.hard = true)
    (hl : grammar.admits t l = true) : isHard (lexeme l) = true := by
  have hsymbol (c : Char) (hc : c ∈ ['.', '@', '-']) : (lexeme l).isSymbol c = false := by
    cases hs : (lexeme l).isSymbol c with
    | false => rfl
    | true =>
      rw [symbol_of_admits hl hs] at ht
      exact absurd hc (of_decide_eq_true ht)
  have hname : isName (lexeme l) = false := by
    cases hn : isName (lexeme l) with
    | false => rfl
    | true =>
      obtain ⟨v, hv, hr, hd⟩ := isName_iff.mp hn
      cases t with
      | word w =>
        simp only [Terminal.hard, Bool.and_eq_true, decide_eq_true_eq] at ht
        rw [isName_of_isWord (admits_word hl) ht.1] at hn
        cases hn
      | symbol c => rw [isName_of_word (word_symbol (admits_symbol hl))] at hn; cases hn
      | identifier | typeIdentifier => cases ht
      | number =>
        obtain ⟨w, hw, hdigit⟩ := admits_number hl
        rw [hv, Option.some.injEq] at hw
        rw [← hw, hd] at hdigit
        cases hdigit
      | arrow | decrement | character | string =>
        have hshape : l.shape = .word := by
          simp only [word?] at hv
          split at hv
          · assumption
          · cases hv
        simp [grammar, Terminal.admits, isArrow, hshape] at hl
  have hword : (modifierWords ++ ["class", "interface", "enum"]).any (lexeme l).isWord = false := by
    refine List.any_eq_false.mpr fun w hw h => ?_
    by_cases hr : w ∈ reserved
    · rw [word_of_admits hl h hr] at ht
      simp only [Terminal.hard, Bool.and_eq_true, decide_eq_true_eq] at ht
      exact ht.2 hw
    · have : w = "sealed" :=
        (by decide : ∀ w ∈ modifierWords ++ ["class", "interface", "enum"],
          w ∉ reserved → w = "sealed") w hw hr
      rw [this, isWord_of_not_name hname (by decide) (by decide)] at h
      cases h
  simp [isHard, hname, hword, hsymbol, isGroup, group?]

/-- A piece in front of which no declaration stands. -/
theorem scan_piece {f : Flags} {t : Tree Node} (hp : t.pieces = [p])
    (hwithin : firstWithin p = (firstOf [t]).map Declared.declaration)
    (hplain : ∀ {rest}, Follows f rest → Plain (p :: rest))
    (hclear : f.closed = true → p.isSymbol '.' = false) : Scan f [t] where
  found hr _ := by
    rw [piecesOf_cons, hp, piecesOf_nil, List.append_nil, List.singleton_append,
      firstIn_plain ((hplain hr).dropped .outside), hwithin]
    rfl
  plain _ hr _ := by simpa [hp] using hplain hr
  clear hc _ _ := by simpa [hp, Clear] using hclear hc

theorem isName_of_hard (h : isHard p = true) : isName p = false := by
  simp only [isHard, Bool.and_eq_true, Bool.not_eq_true'] at h
  exact h.1.1.1.1.1

theorem isSymbol_hard (h : isHard p = true) : p.isSymbol '.' = false := by
  simp only [isHard, Bool.and_eq_true, Bool.not_eq_true'] at h
  exact h.1.1.1.1.2

theorem scan_hard {f : Flags} {l : Lexeme} (h : isHard (lexeme l) = true) : Scan f [.leaf l] :=
  scan_piece (pieces_leaf l) rfl (fun _ => .hard h) fun _ => isSymbol_hard h

/-- What follows a word that could introduce a declaration does not make it one. -/
theorem barren_token {t : Terminal} {l : Lexeme} (hfits : fits (.token t) = true)
    (hl : grammar.admits t l = true) (hr : Follows (flags (.token t)) rest) :
    Barren (lexeme l :: rest) := by
  have hother {w : String} (hr : w ∈ reserved) (ht : t ≠ .word w) :
      (lexeme l).isWord w = false := by
    cases hw : (lexeme l).isWord w with
    | false => rfl
    | true => exact absurd (word_of_admits hl hw hr) ht
  simp only [fits, List.mem_cons, List.not_mem_nil, or_false, not_or, decide_eq_true_eq] at hfits
  by_cases hclass : (lexeme l).isWord "class" = true
  · refine hr.tame ?_ _ (.inl hclass)
    simp [flags, word_of_admits hl hclass (by decide)]
  by_cases hrecord : (lexeme l).isWord "record" = true
  · refine hr.tame ?_ _ (.inr hrecord)
    have hword := hrecord
    simp only [Piece.isWord, decide_eq_true_eq] at hword
    cases t with
    | identifier => rfl
    | typeIdentifier => rw [(admits_typeIdentifier hl).2.1] at hrecord; cases hrecord
    | word w =>
      have hw := admits_word hl
      simp only [Piece.isWord, hword, Option.some.injEq, decide_eq_true_eq] at hw
      rw [hw] at hfits
      exact absurd rfl hfits.2.2
    | symbol c => rw [word_symbol (admits_symbol hl)] at hword; cases hword
    | number =>
      obtain ⟨w, hw, hdigit⟩ := admits_number hl
      rw [hword, Option.some.injEq] at hw
      rw [← hw] at hdigit
      exact absurd hdigit (by decide)
    | arrow | decrement | character | string =>
      have hshape : l.shape = .word := by
        simp only [word?] at hword
        split at hword
        · assumption
        · cases hword
      simp [grammar, Terminal.admits, isArrow, hshape] at hl
  refine .cons ?_ ?_
  · simpa using ⟨by simpa using hclass, hother (by decide) hfits.1, hother (by decide) hfits.2.1,
      by simpa using hrecord⟩
  · cases hat : (lexeme l).isSymbol '@' with
    | false => exact .inl rfl
    | true => exact .inr (hr.unsigned (by simp [flags, symbol_of_admits hl hat]))

theorem scan_token {t : Terminal} {l : Lexeme} (hfits : fits (.token t) = true)
    (hl : grammar.admits t l = true) : Scan (flags (.token t)) [.leaf l] := by
  cases ht : t.hard with
  | true => exact scan_hard (isHard_of_admits ht hl)
  | false =>
    refine scan_piece (pieces_leaf l) rfl (fun {rest} hr => ?_) fun hc => ?_
    · exact .cons (barren_token hfits hl hr) (hr.plain ht)
    · exact absurd (show t.hard = true from hc) (by simp [ht])

theorem unangledTest_leads : unangledTest.Leads grammar Node.hollow
    fun ps => ps.head?.any (·.isSymbol '<') = false where
  nullable := hollow_node _
  token {t l} rest ht hl := by
    cases hs : (lexeme l).isSymbol '<' with
    | false => simpa using hs
    | true => exact absurd (symbol_of_admits hl hs) (of_decide_eq_true ht)
  group inner rest _ he := by simpa using isSymbol_group (isGroup_encloses he inner) '<'
  angles _ h := by cases h
  node {n} hn := .inl (by cases n <;> first | decide | cases hn)

/-- A name in front of what bars the search for a body behind an expression or a list of names. -/
theorem Tame.barred (hlt : (ps ++ q :: rest).head?.any (·.isSymbol '<') = false)
    (hps : Barring ps) (hg : q.isGroup '\x7b' = false) (hq : isHeader q = false) :
    Tame (p :: (ps ++ q :: rest)) :=
  .guarded hlt (hps _ (findBody_barred hg hq))

theorem isHeader_sign {c : Char} (h : p.isSymbol c = true)
    (hc : c ∉ ['.', ',', '<', '>', '?', '&', '@']) : isHeader p = false := by
  have hword : p.word? = none := word_symbol h
  have hany (ws : List String) : ws.any p.isWord = false :=
    List.any_eq_false.mpr fun w _ => by simp [isWord_false hword]
  have hsign : ['.', ',', '<', '>', '?', '&', '@'].any p.isSymbol = false := by
    refine List.any_eq_false.mpr fun d hd => ?_
    rw [isSymbol_false h (by rintro rfl; exact hc hd)]
    exact Bool.false_ne_true
  have hname : name? p = none := by simpa [isName] using isName_of_word hword
  simp [isHeader, isGroup_symbol h, hany, hsign, hname]

theorem expression_barred {us : Trees} (he : Parses grammar (node .expression) us)
    (hg : q.isGroup '\x7b' = false) (hlt : q.isSymbol '<' = false) (hq : isHeader q = false) :
    Tame (p :: (piecesOf us ++ q :: rest)) :=
  .barred (he.led unangledTest_leads (by decide) fun _ => by simpa using hlt)
    (he.shown barringTest_shows (by decide)) hg hq

theorem groupMark_tame (h : Parses grammar (Node.rule .groupMark) ts) :
    Tame (piecesOf ts ++ rest) := by
  rcases Parses.alt_iff.mp h with h | h
  · obtain ⟨l, hl, rfl⟩ := Parses.token_iff.mp h
    exact .cons (isName_of_word (word_symbol (admits_symbol hl)))
  · obtain ⟨_, _, hw, hmore, rfl⟩ := Parses.seq_iff.mp h
    obtain ⟨us, _, he, hend, rfl⟩ := Parses.seq_iff.mp hmore
    obtain ⟨l, -, rfl⟩ := Parses.token_iff.mp hw
    obtain ⟨e, hl, rfl⟩ := Parses.token_iff.mp hend
    have hcolon := admits_symbol hl
    simpa using expression_barred he rfl (isSymbol_false hcolon (by decide))
      (isHeader_sign hcolon (by decide))

theorem ruleMark_tame (h : Parses grammar (Node.rule .ruleMark) ts) :
    Tame (piecesOf ts ++ rest) := by
  have harrow {l : Lexeme} (hl : grammar.admits .arrow l = true) :
      (lexeme l).isArrow = true := by
    simp only [grammar, Terminal.admits, Bool.and_eq_true] at hl
    exact hl.2
  rcases Parses.alt_iff.mp h with h | h
  · obtain ⟨l, hl, rfl⟩ := Parses.token_iff.mp h
    refine .cons (isName_of_word ?_)
    have := harrow hl
    simp only [isArrow, Bool.and_eq_true, decide_eq_true_eq] at this
    simp [word?, this.1]
  · obtain ⟨_, _, hw, hmore, rfl⟩ := Parses.seq_iff.mp h
    obtain ⟨us, _, he, hend, rfl⟩ := Parses.seq_iff.mp hmore
    obtain ⟨l, -, rfl⟩ := Parses.token_iff.mp hw
    obtain ⟨e, hl, rfl⟩ := Parses.token_iff.mp hend
    have hlt : (lexeme e).isSymbol '<' = false := by
      cases hs : (lexeme e).isSymbol '<' with
      | false => rfl
      | true => cases symbol_of_admits hl hs
    simpa using expression_barred he rfl hlt (isHeader_arrow (harrow hl))

theorem moduleTargets_tame (h : Parses grammar (Node.rule .moduleTargets) ts) :
    Tame (piecesOf ts ++ rest) := by
  rcases Parses.alt_iff.mp h with h | h
  · obtain ⟨l, hl, rfl⟩ := Parses.token_iff.mp h
    exact .cons (isName_of_word (word_symbol (admits_symbol hl)))
  · obtain ⟨_, _, hto, hmore, rfl⟩ := Parses.seq_iff.mp h
    obtain ⟨us, _, hnames, hend, rfl⟩ := Parses.seq_iff.mp hmore
    obtain ⟨r, hr, hw⟩ := Parses.of_oneOf (by simp) hto
    obtain ⟨w, -, rfl⟩ := List.mem_map.mp hr
    obtain ⟨l, -, rfl⟩ := Parses.token_iff.mp hw
    obtain ⟨e, hl, rfl⟩ := Parses.token_iff.mp hend
    have hsemicolon := admits_symbol hl
    have hbarring : Barring (piecesOf us) :=
      fun _ hr => (findBody_header (header hnames (by decide))).trans hr
    have hlt : (piecesOf us ++ lexeme e :: rest).head?.any (·.isSymbol '<') = false :=
      hnames.led unangledTest_leads (by decide) fun _ => by
        simpa using isSymbol_false hsemicolon (by decide)
    simpa using Tame.barred hlt hbarring rfl (isHeader_sign hsemicolon (by decide))

theorem tameTest_leads : tameTest.Leads grammar Node.hollow Tame where
  nullable := hollow_node _
  token {t l} rest ht hl := by
    refine .cons ?_
    cases t with
    | word w => exact isName_of_isWord (admits_word hl) (of_decide_eq_true ht)
    | identifier | typeIdentifier => cases ht
    | symbol c => exact isName_of_word (word_symbol (admits_symbol hl))
    | arrow | decrement | number | character | string => exact isName_of_hard (isHard_of_admits rfl hl)
  group inner rest _ he := .cons (isName_of_word (word_group (isGroup_encloses he inner)))
  angles rest _ ha := .cons (isName_of_word (word_symbol ha))
  node {n} hn := by
    cases n
    case groupMark => exact .inr fun _ h _ => groupMark_tame h
    case ruleMark => exact .inr fun _ h _ => ruleMark_tame h
    case moduleTargets => exact .inr fun _ h _ => moduleTargets_tame h
    all_goals first | exact .inl (by decide) | cases hn

theorem unsignedTest_leads : unsignedTest.Leads grammar Node.hollow Unsigned where
  nullable := hollow_node _
  token {t l} rest ht hl := by
    cases hw : (lexeme l).isWord "interface" with
    | false => simpa [Unsigned] using hw
    | true => exact absurd (word_of_admits hl hw (by decide)) (of_decide_eq_true ht)
  group inner rest _ he := by
    simpa [Unsigned] using isWord_false (word_group (isGroup_encloses he inner))
  angles rest _ ha := by simpa [Unsigned] using isWord_false (word_symbol ha)
  node h := by cases h

namespace Scan

variable {f : Flags}

/-- A declaration is found. -/
theorem declared {n : Node} (hn : n.declares = true) (h : Parses grammar n.rule ts) :
    Scan n.flags [.node n ts] := by
  have hopens : n.flags.opens = true := by cases n <;> first | rfl | cases hn
  have hread := declaration_read hn h
  refine ⟨fun {previous rest} _ hp => ?_, fun ho => ?_, fun _ hnone => ?_⟩
  · obtain ⟨p, ps, he⟩ : ∃ p ps, piecesOf ts ++ rest = p :: ps := by
      cases he : piecesOf ts ++ rest with
      | nil => have := hread rest; rw [he] at this; cases this
      | cons p ps => exact ⟨p, ps, rfl⟩
    have hfound := hread rest
    have hclear : previous.any (·.isSymbol '.') = false := hp hopens
    rw [piecesOf_cons, pieces_node, piecesOf_nil, List.append_nil, he] at *
    rw [firstIn, if_neg (by simp [hclear]), hfound]
    simp [firstOf, firstDeclared, hn]
  · rw [hopens] at ho
    cases ho
  · simp [firstOf, firstDeclared, hn] at hnone

theorem node {n : Node} (hn : n.declares = false) (h : Scan f ts) : Scan f [.node n ts] := by
  have hpieces : piecesOf [.node n ts] = piecesOf ts := by simp
  have hfirst : firstOf [.node n ts] = firstOf ts := by simp [firstOf, firstDeclared, hn]
  refine ⟨fun hr hp => ?_, fun ho hr hn => ?_, fun hc hn he => ?_⟩
  · rw [hpieces, hfirst]
    exact h.found hr hp
  · rw [hpieces] at hn ⊢
    exact h.plain ho hr hn
  · rw [hpieces] at he ⊢
    exact h.clear hc (hfirst ▸ hn) he

theorem group {c : Char} {o e : Lexeme} (he : Encloses c o e) (h : Scan f ts) :
    Scan ⟨false, false, false, c ≠ '('⟩ [.group o ts e] := by
  have hgroup := isGroup_encloses he (piecesOf ts)
  refine scan_piece (pieces_group o e ts) ?_ (fun hr => ?_) fun _ => isSymbol_group hgroup _
  · have hinner : firstIn none (piecesOf ts ++ []) = _ := h.found .nil fun _ => rfl
    simpa [firstWithin, firstIn, firstOf, firstDeclared] using hinner
  · by_cases hc : c = '('
    · refine .cons (.cons (fun w _ => isWord_false (word_group hgroup)) ?_) (hr.plain (by simp [hc]))
      exact .inl (isSymbol_group hgroup _)
    · exact .hard (isHard_of_group hgroup hc)

/-- A word with something in parentheses, which hides what is in front of it. -/
theorem head {r s : Rule Terminal Node} (hh : isHead r s = true) (hr : Parses grammar r ts)
    (hs : Parses grammar s us) (h : Scan (flags s) us) : Scan (flags (.seq r s)) (ts ++ us) := by
  obtain ⟨w, c, q, rfl, rfl, hw⟩ : ∃ w c q, r = .token (.word w) ∧ s = .group c q ∧
      (Terminal.word w).hard = true := by
    rw [isHead.eq_def] at hh
    split at hh
    · exact ⟨_, _, _, rfl, rfl, hh⟩
    · cases hh
  obtain ⟨l, hl, rfl⟩ := Parses.token_iff.mp hr
  obtain ⟨o, vs, e, he, -, rfl⟩ := Parses.group_iff.mp hs
  have hhard : isHard (lexeme l) = true := isHard_of_admits hw hl
  have hnone (rest : List Piece) : typeDeclaration? (lexeme l :: rest) = none :=
    (Plain.hard hhard).dropped .outside
  have hgroup := isGroup_encloses he (piecesOf vs)
  have hwithin : firstWithin (Piece.group o (piecesOf vs) (Option.some e)) =
      (firstOf [.group o vs e]).map Declared.declaration := by
    have hfound : firstIn none (piecesOf [.group o vs e] ++ []) = _ := h.found .nil fun _ => rfl
    simpa [firstIn_plain (typeDeclaration_group hgroup), firstIn] using hfound
  refine ⟨fun {previous rest} _ _ => ?_, fun _ _ _ => ?_, fun _ _ _ => ?_⟩
  · simp only [piecesOf_cons, pieces_leaf, pieces_group, piecesOf_nil,
      List.append_nil, List.cons_append, List.nil_append]
    rw [firstIn_plain (hnone _), firstIn_plain (typeDeclaration_group hgroup), hwithin]
    simp [firstWithin, firstOf, firstDeclared, lastPiece]
  · exact .hard hhard
  · simpa [Clear] using isSymbol_group hgroup _

theorem angles {a b : Lexeme} (h : Scan f ts) (hf : f.opens = false)
    (ha : (lexeme a).isSymbol '<' = true) (hb : (lexeme b).isSymbol '>' = true) :
    Scan ⟨false, false, false, true⟩ (.leaf a :: ts ++ [.leaf b]) := by
  have hopening : Scan ⟨false, false, false, true⟩ [.leaf a] :=
    scan_hard (isHard_of_symbol ha (by decide))
  have hclosing : Scan ⟨false, false, false, true⟩ [.leaf b] :=
    scan_hard (isHard_of_symbol hb (by decide))
  have hword : isName (lexeme b) = false := isName_of_word (word_symbol hb)
  refine hopening.append (h.append (h := ⟨false, false, false, true⟩) hclosing ?_) ?_
  · refine ⟨fun _ rest _ => .cons hword, fun _ rest _ => ?_, fun ho => ?_, ?_, fun hn => ?_,
      fun ho => ?_, fun _ ho => ho⟩
    · simpa [Unsigned] using isWord_false (word_symbol hb)
    · cases ho
    · constructor <;> simp
    · simp at hn
    · rw [hf] at ho
      cases ho
  · refine ⟨fun hw => ?_, fun hw => ?_, fun _ => rfl, ?_, fun _ => ?_, id, fun _ => id⟩
    · cases hw
    · cases hw
    · constructor <;> simp
    · constructor <;> simp

end Scan

/-- Searching the pieces of a tree is searching the tree. -/
theorem scan {r : Rule Terminal Node} (h : Parses grammar r ts) (hfits : fits r = true) :
    Scan (flags r) ts := by
  induction h with
  | token hl => exact scan_token hfits hl
  | @node n ts h ih =>
    rcases flags_node n with hn | ⟨hf, hb⟩
    · exact .declared hn h
    · cases hn : n.declares with
      | true => exact .declared hn h
      | false => exact ((ih hf).below hb).node hn
  | group he _ ih => exact (ih hfits).group he
  | @angles r a ts b ha _ hb ih =>
    simp only [fits, Bool.and_eq_true, Bool.not_eq_true'] at hfits
    exact (ih hfits.1).angles hfits.2 ha hb
  | empty => exact .nil
  | @seq r s ts us hr hs ihr ihs =>
    simp only [fits, Bool.and_eq_true] at hfits
    obtain ⟨⟨⟨⟨hfr, hfs⟩, htame⟩, hunsigned⟩, hopens⟩ := hfits
    cases hh : isHead r s with
    | true => exact .head hh hr hs (ihs hfs)
    | false =>
      have hnull (hn : piecesOf us = []) : s.nullable Node.hollow = true :=
        hs.nullable_of_nil hollow_node hn
      refine (ihr hfr).append (ihs hfs) ⟨fun hw rest => ?_, fun hw rest => ?_, fun ho => ?_, ?_,
        fun hn => ?_, fun ho => ?_, fun hn ho => ?_⟩
      · exact hs.led tameTest_leads (by simpa [hw] using htame)
      · exact hs.led unsignedTest_leads (by simpa [hw] using hunsigned)
      · simpa [ho] using hopens
      · constructor <;> simp +contextual [flags, hh]
      · constructor <;> simp +contextual [flags, hh, hnull hn]
      · simp [flags, ho]
      · simp [flags, ho, hr.nullable_of_nil hollow_node hn]
  | @left r s ts _ ih =>
    simp only [fits, Bool.and_eq_true] at hfits
    refine (ih hfits.1).below ⟨?_, ?_, ?_, ?_⟩ <;> simp +contextual [flags]
  | @right r s ts _ ih =>
    simp only [fits, Bool.and_eq_true] at hfits
    refine (ih hfits.2).below ⟨?_, ?_, ?_, ?_⟩ <;> simp +contextual [flags]
  | stop => exact .nil
  | @more r ts us hr hs ihr ihs =>
    have hmany := hfits
    simp only [fits, Bool.and_eq_true] at hfits
    obtain ⟨⟨⟨hfr, htame⟩, hunsigned⟩, hopens⟩ := hfits
    refine (ihr hfr).append (ihs hmany) ⟨fun hw rest => ?_, fun hw rest => ?_, fun ho => ?_, ?_,
      fun _ => ?_, id, fun _ => id⟩
    · exact hs.led tameTest_leads (by simpa [starts, hw] using htame)
    · exact hs.led unsignedTest_leads (by simpa [starts, hw] using hunsigned)
    · simpa [show (flags r).opens = true from ho] using hopens
    · constructor <;> simp [flags]
    · constructor <;> simp [flags]

/-- The first declaration of an accepted text is the one that the search finds. -/
theorem firstIn_program (h : Parses grammar (Node.rule .program) ts) :
    firstIn none (piecesOf ts) = (firstOf ts).map Declared.declaration := by
  have hfound : firstIn none (piecesOf ts ++ []) = _ :=
    (scan h (by decide)).found .nil fun _ => rfl
  simpa [firstIn] using hfound

end Scaffold.Source.Java
