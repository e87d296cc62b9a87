import Scaffold.Artifact
import Scaffold.Proofs.Java.Quotations

/-!
# Rendered texts

A template is read line by line: the package, the imports, the annotations and
the opening of the type, each behind whatever spaces and line breaks the lines
before it leave. Where the opening ends with a brace, the file is resolved to
the type, whatever follows.
-/

namespace Scaffold

namespace Source.Java

open Piece Source.Tree

variable {P Q : List Piece → Prop} {s t b : String} {c : Char} {l : Lexeme} {ps qs : List Piece}

-- ---------------------------------------------------------------------------
-- Spaces and line breaks
-- ---------------------------------------------------------------------------

/-- Nothing but spaces and line breaks. -/
def isLayout (b : String) : Bool := b.toList.all fun c => c = ' ' || c = '\n'

theorem isLayout_append (a b : String) : isLayout (a ++ b) = (isLayout a && isLayout b) := by
  simp [isLayout]

theorem layout_cases (h : isLayout b = true) (hc : c ∈ b.toList) : c = ' ' ∨ c = '\n' := by
  simpa using List.all_eq_true.mp h c hc

theorem isBlankText_layout (h : isLayout b = true) : isBlankText b = true := by
  refine List.all_eq_true.mpr fun c hc => ?_
  rcases layout_cases h hc with rfl | rfl <;> decide

/-- Layout, or what follows it, goes on with no word. -/
theorem isWordPart_layout (h : isLayout b = true) {cs : List Char}
    (hcs : isWordPart (headOr cs c) = false) : isWordPart (headOr (b.toList ++ cs) c) = false := by
  cases hb : b.toList with
  | nil => exact hcs
  | cons d ds =>
    rcases layout_cases h (hb ▸ List.mem_cons_self) with rfl | rfl
    · exact (by decide : isWordPart ' ' = false)
    · exact (by decide : isWordPart '\n' = false)

theorem gapChars_blanks (b : String) : (Lexeme.blanks b).flatMap Trivia.chars = b.toList := by
  by_cases h : b = "" <;> simp [Lexeme.blanks, h, Trivia.chars]

-- ---------------------------------------------------------------------------
-- Texts that are read
-- ---------------------------------------------------------------------------

/-- Behind any layout the text is read as pieces with the property, up to further layout. -/
def Reads (P : List Piece → Prop) (t : String) : Prop :=
  ∀ b, isLayout b = true → ∃ ps b', Nested ps ∧ P ps ∧ isLayout b' = true ∧
    written (lexemesOf ps) ++ b'.toList = b.toList ++ t.toList ∧
    ∀ c, isWordPart c = false → scanner.Rereads (lexemesOf ps) c

/-- One part behind the other. -/
def Both (P Q : List Piece → Prop) (ps : List Piece) : Prop :=
  ∃ qs rs, P qs ∧ Q rs ∧ ps = qs ++ rs

/-- A part between brackets. -/
def Within (c : Char) (P : List Piece → Prop) (ps : List Piece) : Prop :=
  ∃ p inner, p.group? c = some inner ∧ P inner ∧ ps = [p]

/-- Any number of parts. -/
def Each (P : List Piece → Prop) (ps : List Piece) : Prop :=
  ∃ pss : List (List Piece), (∀ qs ∈ pss, P qs) ∧ ps = pss.flatten

namespace Reads

theorem mono (h : Reads P t) (hpq : ∀ ps, P ps → Q ps) : Reads Q t := by
  intro b hb
  obtain ⟨ps, b', hn, hp, hrest⟩ := h b hb
  exact ⟨ps, b', hn, hpq ps hp, hrest⟩

theorem nothing (h : P []) : Reads P "" :=
  fun b hb => ⟨[], b, .nil, h, hb, by simp [lexemesOf], fun _ _ => .nil⟩

/-- The text of some pieces, whatever stands in front of them. -/
theorem of_pieces (ps : List Piece) (hne : ps ≠ []) (hn : ∀ gap, Nested (regapFirst gap ps))
    (hp : ∀ gap, P (regapFirst gap ps)) (ht : spell ps = t)
    (hr : ∀ c, isWordPart c = false → scanner.Rereads (lexemesOf ps) c) : Reads P t := by
  intro b hb
  refine ⟨regapFirst (Lexeme.blanks b) ps, "", hn _, hp _, rfl, ?_,
    fun c hc => rereads_regapFirst (hr c hc) (isBlankText_layout hb)⟩
  rw [written_regapFirst _ hne, ht, gapChars_blanks]
  simp

/-- The text of lexemes that are no brackets. -/
theorem of_lexemes (l : Lexeme) (ls : List Lexeme) (hgap : l.gapChars = [])
    (hflat : ∀ k ∈ l :: ls, isFlat k = true) (hp : ∀ gap, P ((l.regap gap :: ls).map lexeme))
    (ht : written (l :: ls) = t.toList)
    (hr : ∀ c, isWordPart c = false → scanner.Rereads (l :: ls) c) : Reads P t := by
  have hnested (gap : List Trivia) : Nested ((l.regap gap :: ls).map lexeme) :=
    .flat (List.forall_mem_cons.mpr (List.forall_mem_cons.mp hflat))
  refine of_pieces ((l :: ls).map lexeme) (by simp) hnested hp ?_ (by rwa [lexemesOf_flat])
  exact spell_flat (b := "") (by simpa using ht) (by simpa using hgap)

theorem indent (h : Reads P t) {i : String} (hi : isLayout i = true) : Reads P (i ++ t) := by
  intro b hb
  obtain ⟨ps, b', hn, hp, hb', hw, hr⟩ := h (b ++ i) (by rw [isLayout_append, hb, hi]; rfl)
  exact ⟨ps, b', hn, hp, hb', by simpa using hw, hr⟩

/-- One text behind another, unless it goes on with a word. -/
theorem append (hs : Reads P s) (ht : Reads Q t)
    (hnext : ∀ c, isWordPart c = false → isWordPart (headOr t.toList c) = false) :
    Reads (Both P Q) (s ++ t) := by
  intro b hb
  obtain ⟨ps, b1, hn1, hp, hb1, hw1, hr1⟩ := hs b hb
  obtain ⟨qs, b2, hn2, hq, hb2, hw2, hr2⟩ := ht b1 hb1
  refine ⟨ps ++ qs, b2, hn1.append hn2, ⟨ps, qs, hp, hq, rfl⟩, hb2, ?_, fun c hc => ?_⟩
  · rw [lexemesOf_append, written_append, List.append_assoc, hw2, ← List.append_assoc, hw1]
    simp
  · rw [lexemesOf_append]
    refine .append (hr1 _ ?_) (hr2 c hc)
    cases hqs : written (lexemesOf qs) with
    | nil => exact hc
    | cons d ds =>
      have hhead : headOr (b1.toList ++ t.toList) c = d := by rw [← hw2, hqs]; rfl
      rw [headOr_cons, ← hhead]
      exact isWordPart_layout hb1 (hnext c hc)

/-- A line in front of other lines. -/
theorem line_append (hs : Reads P s) (ht : Reads Q t) :
    Reads (Both P Q) (Template.line s ++ t) := by
  rw [Template.line, String.append_assoc]
  refine hs.append (ht.indent (by decide)) fun c _ => ?_
  simpa using (by decide : isWordPart '\n' = false)

theorem lines_append {texts : List String} (hs : ∀ s ∈ texts, Reads P s) (ht : Reads Q t) :
    Reads (Both (Each P) Q) (Template.lines texts ++ t) := by
  induction texts with
  | nil =>
    have hempty : Template.lines [] ++ t = t := by simp [Template.lines]
    rw [hempty]
    exact ht.mono fun ps hq => ⟨[], ps, ⟨[], by simp, rfl⟩, hq, rfl⟩
  | cons s texts ih =>
    rw [List.forall_mem_cons] at hs
    have hcons : Template.lines (s :: texts) ++ t =
        Template.line s ++ (Template.lines texts ++ t) := by
      simp [Template.lines, String.append_assoc]
    rw [hcons]
    refine (hs.1.line_append (ih hs.2)).mono ?_
    rintro _ ⟨ps, _, hp, ⟨_, qs, ⟨pss, hpss, rfl⟩, hq, rfl⟩, rfl⟩
    exact ⟨_, qs, ⟨ps :: pss, List.forall_mem_cons.mpr ⟨hp, hpss⟩, rfl⟩, hq, by simp⟩

/-- Text between brackets. -/
theorem within {c e : Char} (hc : (c, e) ∈ [('(', ')'), ('\x7b', '\x7d')]) {i : String}
    (hi : isLayout i = true) (h : Reads P t) :
    Reads (Within c P) (c.toString ++ (i ++ t) ++ e.toString) := by
  have hbrackets : scanner.isSign c = true ∧ scanner.isSign e = true ∧ isWordPart e = false ∧
      ∀ b b', Encloses c (.sign b c) (.sign b' e) := by
    simp only [List.mem_cons, Prod.mk.injEq, List.not_mem_nil, or_false] at hc
    rcases hc with ⟨rfl, rfl⟩ | ⟨rfl, rfl⟩ <;>
      exact ⟨by decide, by decide, by decide, fun _ _ => ⟨rfl, rfl, rfl, rfl⟩⟩
  obtain ⟨hopens, hcloses, hpart, hencloses⟩ := hbrackets
  intro b hb
  obtain ⟨inner, b', hn, hp, hb', hw, hr⟩ := h i hi
  have hlexemes : lexemesOf [.group (.sign b c) inner (some (.sign b' e))] =
      .sign b c :: (lexemesOf inner ++ [.sign b' e]) := by
    simp [lexemesOf, Piece.lexemes]
  refine ⟨[.group (.sign b c) inner (some (.sign b' e))], "", .group (hencloses b b') hn,
    ⟨_, inner, by simp [group?, (hencloses b b').bracket], hp, rfl⟩, rfl, ?_, fun d hd => ?_⟩
  · rw [hlexemes, written_cons, written_append, written_cons, written_nil, lexemeChars_sign,
      lexemeChars_sign, List.append_nil, ← List.append_assoc (written _), hw]
    simp [Char.toString]
  · rw [hlexemes]
    refine .sign (isBlankText_layout hb) hopens (.append (hr _ ?_)
      (.sign (isBlankText_layout hb') hcloses .nil))
    rw [written_cons, written_nil, lexemeChars_sign, List.append_nil]
    exact isWordPart_layout hb' hpart

-- ---------------------------------------------------------------------------
-- Lines
-- ---------------------------------------------------------------------------

/-- A word, what is quoted behind it, and a semicolon. -/
theorem keyword {w : String} (hw : scanner.isWord w = true) (h : Quoted P t) :
    Reads (fun ps => ∃ k names e, k.isWord w = true ∧ P names ∧ spell names = t ∧
      e.isSymbol ';' = true ∧ ps = k :: names ++ [e]) (w ++ (" " ++ t ++ ";")) := by
  obtain ⟨ls, hp, hflat, hls⟩ := h
  have hspell : spell (ls.map lexeme) = t := spell_flat (b := " ") (by simp [hls.written]) hls.gap
  refine of_lexemes (.word "" w) (ls ++ [.sign "" ';']) (by simp) ?_
    (fun gap => ⟨lexeme ((Lexeme.word "" w).regap gap), ls.map lexeme, lexeme (.sign "" ';'), ?_, hp,
      hspell, by simp, by simp⟩) ?_ fun c hc => ?_
  · simpa [or_imp, forall_and] using hflat
  · simp [Piece.isWord, word?, Lexeme.word]
  · simp [hls.written, lexemeChars_word, lexemeChars_sign]
  · refine .word rfl hw ?_ (.append (hls.rereads _ ?_) (.sign rfl (by decide) .nil))
    · simpa [hls.written] using (by decide : isWordPart ' ' = false)
    · exact ends_sign (d := ';') (by decide) [] c

theorem importLine (h : Quoted Linked t) : Reads Line (Template.importLine t) := by
  have htext : Template.importLine t = "import" ++ (" " ++ t ++ ";") := by
    simp [Template.importLine, ← String.toList_inj]
  rw [htext]
  refine (keyword (by decide) h).mono ?_
  rintro _ ⟨k, names, e, hk, hnames, -, he, rfl⟩
  exact .mk (.inr hk) hnames he

theorem marked {name : String} (h : isIdentifier name = true) :
    Reads (fun ps => ∃ a names, a.isSymbol '@' = true ∧ Dotted names ∧ ps = a :: names)
      ("@" ++ name) := by
  simp only [isIdentifier, Bool.and_eq_true] at h
  refine of_lexemes (.sign "" '@') [.word "" name] (by simp) (by simp)
    (fun gap => ⟨_, _, ?_, .last h.2, rfl⟩) ?_ fun c hc =>
      .sign rfl (by decide) (.word rfl h.1 hc .nil)
  · simp [isSymbol, Lexeme.sign]
  · simp [lexemeChars_sign, lexemeChars_word]

theorem marker (name : String) (h : isIdentifier name = true) : Reads Annotation ("@" ++ name) := by
  refine (marked h).mono ?_
  rintro _ ⟨a, names, ha, hnames, rfl⟩
  exact .marker ha hnames

/-- An annotation with arguments. -/
theorem applied (name : String) (hn : isIdentifier name = true) (h : Reads P t) :
    Reads Annotation ("@" ++ name ++ ("(" ++ t ++ ")")) := by
  have harguments : Reads (Within '(' P) ("(" ++ t ++ ")") := by
    simpa [Char.toString] using h.within (c := '(') (e := ')') (by simp) (i := "") rfl
  refine ((marked hn).append harguments fun c _ => ?_).mono ?_
  · simpa using (by decide : isWordPart '(' = false)
  · rintro _ ⟨_, _, ⟨a, names, ha, hnames, rfl⟩, ⟨p, inner, hp, -, rfl⟩, rfl⟩
    exact .arguments ha hnames (by simp [isGroup, hp])

end Reads

-- ---------------------------------------------------------------------------
-- Headings
-- ---------------------------------------------------------------------------

/-- The line that names the package. -/
def PackageLine (package : String) (ps : List Piece) : Prop :=
  ∃ k names e, k.isWord "package" = true ∧ Dotted names ∧ spell names = package ∧
    e.isSymbol ';' = true ∧ ps = k :: names ++ [e]

/-- In front of a body stands the opening of a class or an interface. -/
def Introduces (name : String) (ps : List Piece) : Prop :=
  ∀ {ms rest inner : List Piece} {b : Piece}, Modifiers ms → b.group? '\x7b' = some inner →
    typeDeclaration? (ms ++ (ps ++ b :: rest)) = some (⟨name, bodyFields inner⟩, rest)

/-- All that stands in front of the body. -/
def Heading (package name : String) : List Piece → Prop :=
  Both (PackageLine package) (Both (Each Line) (Both (Each Annotation) (Introduces name)))

theorem Dotted.links (h : Dotted ps) : ∃ (p : Piece) (ws : List (Piece × Piece)), isName p = true ∧
    (∀ w ∈ ws, w.1.isSymbol '.' = true ∧ isName w.2 = true) ∧
      ps = p :: ws.flatMap fun w => [w.1, w.2] := by
  induction h with
  | @last p hp => exact ⟨p, [], hp, by simp, rfl⟩
  | @dot p d ps hp hd _ ih =>
    obtain ⟨q, ws, hq, hws, rfl⟩ := ih
    exact ⟨p, (d, q) :: ws, hp, List.forall_mem_cons.mpr ⟨⟨hd, hq⟩, hws⟩, rfl⟩

theorem Modifiers.append (hp : Modifiers ps) (hq : Modifiers qs) : Modifiers (ps ++ qs) := by
  obtain ⟨pss, hpss, rfl⟩ := hp
  obtain ⟨qss, hqss, rfl⟩ := hq
  refine ⟨pss ++ qss, fun ps hps => ?_, by simp⟩
  exact (List.mem_append.mp hps).elim (hpss ps) (hqss ps)

theorem Modifiers.annotations (h : Each Annotation ps) : Modifiers ps := by
  obtain ⟨pss, hpss, rfl⟩ := h
  exact ⟨pss, fun qs hq => ⟨.annotated (hpss qs hq), .inl (hpss qs hq).calm⟩, rfl⟩

/-- The opening of a class or an interface. -/
theorem Reads.opening (keyword : String) (ls : List Lexeme) {name u : String}
    (hk : keyword ∈ ["class", "interface"]) (hn : isIdentifier name = true)
    (hls : ∀ l ∈ ls, isFlat l = true ∧ isHeader (lexeme l) = true) (hw : written ls = u.toList)
    (hnext : ∀ c, isWordPart c = false → isWordPart (headOr u.toList c) = false)
    (hr : ∀ c, isWordPart c = false → scanner.Rereads ls c) :
    Reads (Introduces name) ("public " ++ keyword ++ " " ++ name ++ u) := by
  simp only [isIdentifier, Bool.and_eq_true] at hn
  have hword : scanner.isWord keyword = true := by
    simp only [List.mem_cons, List.not_mem_nil, or_false] at hk
    rcases hk with rfl | rfl <;> decide
  refine of_lexemes (.word "" "public") (.word " " keyword :: .word " " name :: ls) (by simp)
    ?_ (fun gap ms rest inner b hms hb => ?_) ?_ fun c hc => ?_
  · simpa using fun l hl => (hls l hl).1
  · have hpublic : Modifiers [lexeme ((Lexeme.word "" "public").regap gap)] :=
      ⟨[_], List.forall_mem_singleton.mpr ⟨.word rfl, .inl (by simpa using isCalm_of_word rfl rfl)⟩,
        rfl⟩
    have hbehind : typeKeyword? (lexeme (.word " " keyword) :: (lexeme (.word " " name) ::
        (ls.map lexeme ++ b :: rest))) =
          some (.plain, lexeme (.word " " name) :: (ls.map lexeme ++ b :: rest)) :=
      typeKeyword_word (k := keyword) (by simp [Piece.isWord]) (by simpa using hk)
    have hname : name? (lexeme (.word " " name)) = some name := name_of_identifier hn.2
    have hheader : ∀ p ∈ ls.map lexeme, isHeader p = true := by simpa using fun l hl => (hls l hl).2
    have hread := typeDeclaration_read .plain rest (hms.append hpublic)
      (settled_keyword (k := keyword) (by simp [Piece.isWord])
        (List.mem_append_left ["enum", "record"] hk)) hbehind
      (by simp) hname hheader hb
    simpa [fieldsOf] using hread
  · simp [lexemeChars_word, hw]
  · refine .word rfl (by decide) (ends_space ..) (.word rfl hword (ends_space ..)
      (.word rfl hn.1 ?_ (hr c hc)))
    rw [hw]
    exact hnext c hc

theorem Reads.heading {package name front : String} {imports annotations : List String}
    (hp : Quoted Dotted package) (hi : ∀ t ∈ imports, Quoted Linked t)
    (ha : ∀ a ∈ annotations, Reads Annotation a) (hf : Reads (Introduces name) front) :
    Reads (Heading package name)
      (Template.line ("package " ++ package ++ ";") ++ (Template.line "" ++
        (Template.lines (imports.map Template.importLine) ++ (Template.line "" ++
          (Template.lines annotations ++ front))))) := by
  have hpackage : Reads (PackageLine package) ("package " ++ package ++ ";") := by
    have htext : "package " ++ package ++ ";" = "package" ++ (" " ++ package ++ ";") := by
      simp [← String.toList_inj]
    rw [htext]
    exact keyword (by decide) hp
  have himports : ∀ s ∈ imports.map Template.importLine, Reads Line s := by
    simpa using fun t ht => importLine (hi t ht)
  exact hpackage.line_append ((lines_append himports
    ((lines_append ha hf).indent (by decide))).indent (by decide))

-- ---------------------------------------------------------------------------
-- Files
-- ---------------------------------------------------------------------------

/-- In front of an open brace a text is read as it is, whatever follows. -/
theorem Reads.opened (h : Reads P t) (rest : String) : ∃ ps b inner more, P ps ∧
    b.group? '\x7b' = some inner ∧
    Piece.ofLexemes (scanner.read (t ++ " \x7b\n" ++ rest).toList) = ps ++ b :: more := by
  obtain ⟨ps, b', hn, hp, hb', hw, hr⟩ := h "" rfl
  have hblank : isLayout (b' ++ " ") = true := by rw [isLayout_append, hb']; rfl
  have hread : scanner.Rereads (lexemesOf ps ++ [.sign (b' ++ " ") '\x7b']) '\n' := by
    refine .append (hr _ ?_) (.sign (isBlankText_layout hblank) (by decide) .nil)
    rw [written_cons, written_nil, lexemeChars_sign, List.append_nil]
    exact isWordPart_layout hblank (by decide)
  have htext : (t ++ " \x7b\n" ++ rest).toList =
      written (lexemesOf ps ++ [.sign (b' ++ " ") '\x7b']) ++ '\n' :: rest.toList := by
    have hfront : t.toList = written (lexemesOf ps) ++ b'.toList := by simpa using hw.symm
    simp [hfront, lexemeChars_sign]
  obtain ⟨more, hmore⟩ := lexemes_in_front hread rest.toList
  obtain ⟨inner, closing, after, hafter⟩ :=
    hn.ofLexemes_opened (o := .sign (b' ++ " ") '\x7b') rfl more
  refine ⟨ps, .group (.sign (b' ++ " ") '\x7b') inner closing, inner, after, hp, ?_, ?_⟩
  · simp [group?, Lexeme.sign]
  · rw [htext, ← hmore, List.append_assoc]
    exact hafter

/-- A text that ends with its line is read whole. -/
theorem Reads.whole (h : Reads P t) :
    P (Piece.ofLexemes (scanner.read (Template.line t).toList)) := by
  obtain ⟨ps, b', hn, hp, hb', hw, hr⟩ := h "" rfl
  have htext : (Template.line t).toList = written (lexemesOf ps) ++ (b'.toList ++ ['\n']) := by
    have hfront : t.toList = written (lexemesOf ps) ++ b'.toList := by simpa using hw.symm
    simp [Template.line, hfront]
  obtain ⟨c, cs, hcs⟩ : ∃ c cs, b'.toList ++ ['\n'] = c :: cs :=
    List.exists_cons_of_ne_nil (by simp)
  have hlayout : isLayout (b' ++ "\n") = true := by rw [isLayout_append, hb']; rfl
  have hmem {d : Char} (hd : d ∈ c :: cs) : d ∈ (b' ++ "\n").toList := by simpa [← hcs] using hd
  have hpart : isWordPart c = false := by
    rcases layout_cases hlayout (hmem List.mem_cons_self) with rfl | rfl <;> decide
  have hblank : ∀ d ∈ c :: cs, Text.isBlank d = true := fun d hd =>
    List.all_eq_true.mp (isBlankText_layout hlayout) d (hmem hd)
  rw [htext, hcs, Scanner.read_written (hr c hpart) hblank, hn.ofLexemes_lexemesOf]
  exact hp

end Source.Java

namespace SourceFile

open Source Java Piece

/-- A file whose pieces are a heading in front of a body is resolved to what the heading says. -/
theorem resolve_heading {s : SourceFile} {package name : String} {ps inner : List Piece}
    {b : Piece} (rest : List Piece) (hs : s.language = .java) (h : Heading package name ps)
    (hne : package ≠ "")
    (hb : b.group? '\x7b' = some inner) (hpieces : s.pieces = ps ++ b :: rest) (strict : Bool) :
    s.resolve strict = .ok ⟨name, package ++ "." ++ name, bodyFields inner, .java⟩ := by
  obtain ⟨_, _, ⟨k, names, e, hk, hnames, rfl, he, rfl⟩, ⟨_, _, ⟨lines, hlines, rfl⟩,
    ⟨ms, front, hms, hfront, rfl⟩, rfl⟩, rfl⟩ := h
  obtain ⟨p, ws, hp, hws, rfl⟩ := hnames.links
  have hd : typeDeclaration? (ms ++ (front ++ b :: rest)) = some (⟨name, bodyFields inner⟩, rest) :=
    hfront (.annotations hms) hb
  rw [resolve_unit ws lines hs hk hp hws he hlines hd (by simpa using hpieces) strict,
    Entity.qualify, if_neg hne]

end SourceFile

end Scaffold
