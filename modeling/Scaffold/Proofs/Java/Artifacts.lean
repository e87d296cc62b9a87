import Scaffold.Proofs.Java.Renderings
import Scaffold.Proofs.Packages

/-!
# Artifacts are read back

Every artifact is a file with one type, which has the artifact's name, in the
artifact's package. Those that hold data have a private field for each field of
the entity, with the name and the type that the entity quotes from its source.
-/

namespace Scaffold

open Source

namespace Source.Java

open Piece Source.Tree

variable {t : String} {names : List String}

-- ---------------------------------------------------------------------------
-- Names
-- ---------------------------------------------------------------------------

/-- No reserved word has one of the endings. -/
theorem isIdentifier_typeName (k : Kind) (h : isIdentifier t = true) :
    isIdentifier (k.typeName t) = true := by
  simp only [isIdentifier, Bool.and_eq_true] at h ⊢
  obtain ⟨w, hw, -, hdigit⟩ := isName_iff.mp h.2
  obtain rfl : t = w := by simpa using hw
  have hparts : k.ending.toList.all isWordPart = true := by cases k <;> decide
  have hreserved : ∀ w ∈ reserved, ¬k.ending.toList <:+ w.toList := by cases k <;> decide
  have hword := Scanner.isWord_append (m := scanner) h.1 (List.all_eq_true.mp hparts)
  rw [String.ofList_toList] at hword
  refine ⟨hword, isName_iff.mpr ⟨t ++ k.ending, rfl, fun hmem => ?_, ?_⟩⟩
  · exact hreserved _ hmem (by simp)
  · cases ht : t.toList with
    | nil => simp [ht] at hdigit
    | cons c cs => simpa [ht] using hdigit

/-- Identifiers with dots between them. -/
def isPath (t : String) : Bool := (Text.splitOn '.' t.toList).all (isIdentifier <| String.ofList ·)

theorem quoted_names (hne : names ≠ []) (h : ∀ n ∈ names, isIdentifier n = true) :
    Quoted Dotted (".".intercalate names) := by
  obtain ⟨n, names, rfl⟩ := List.exists_cons_of_ne_nil hne
  rw [List.forall_mem_cons] at h
  exact (quoted_name h.1).members (fun _ _ _ => dotted_member) h.2

theorem quoted_path (h : isPath t = true) : Quoted Dotted t := by
  have hpath : ".".intercalate ((Text.splitOn '.' t.toList).map String.ofList) = t := by
    rw [← String.toList_inj, String.toList_intercalate]
    simpa using Text.intercalate_splitOn '.' t.toList
  rw [← hpath]
  obtain ⟨piece, pieces, hs⟩ := Text.splitOn_eq_cons '.' t.toList
  refine quoted_names (by simp [hs]) ?_
  simpa [isPath] using h

theorem quoted_import (h : isPath t = true) : Quoted Linked t :=
  (quoted_path h).mono fun _ => Dotted.linked

/-- All types of a package. -/
theorem Quoted.star (h : Quoted Linked t) : Quoted Linked (t ++ ".*") := by
  refine h.append [.sign "" '.', .sign "" '*'] (fun ps hps => ?_) (by simp)
    (by simp [lexemeChars_sign]) (by simpa using (by decide : isWordPart '.' = false))
    fun c hc => .sign rfl (by decide) (.sign rfl (by decide) .nil)
  have hlink (c : Char) (hc : c = '.' ∨ c = '*') : isLink (lexeme (.sign "" c)) = true := by
    rcases hc with rfl | rfl <;> simp [isLink]
  have := (hps.concat (.inr (hlink '.' (by simp))) fun _ _ => .inr (hlink '.' (by simp))).concat
    (.inr (hlink '*' (by simp))) fun _ _ => .inr (hlink '*' (by simp))
  simpa using this

-- ---------------------------------------------------------------------------
-- Fields
-- ---------------------------------------------------------------------------

section

variable {markers : List String} {f : Field} {fields : List Field} {type : Trees}

/-- Markers end their lines where the next line begins. -/
theorem written_markers (markers : List String) (rest : List Char) :
    written (markers.flatMap fun m => [.sign "\n    " '@', .word "" m]) ++ '\n' :: rest =
      '\n' :: (Template.lines ((markers.map ("@" ++ ·)).map ("    " ++ ·))).toList ++ rest := by
  induction markers with
  | nil => simp [Template.lines]
  | cons m markers ih =>
    simp only [List.flatMap_cons, List.cons_append, List.nil_append, written_cons, lexemeChars_sign,
      lexemeChars_word, List.append_assoc, ih]
    simp [Template.lines, Template.line]

theorem rereads_markers {c : Char} (hm : ∀ m ∈ markers, isIdentifier m = true)
    (hc : isWordPart c = false) :
    scanner.Rereads (markers.flatMap fun m => [.sign "\n    " '@', .word "" m]) c := by
  have hbreak : isWordPart '\n' = false := by decide
  induction markers with
  | nil => exact .nil
  | cons m markers ih =>
    simp only [List.forall_mem_cons, isIdentifier, Bool.and_eq_true] at hm
    refine .sign rfl (by decide) (.word rfl hm.1.1 ?_ (ih (by simpa [isIdentifier] using hm.2)))
    cases markers with
    | nil => exact hc
    | cons => simpa [lexemeChars_sign] using hbreak

theorem lexemes_privateField (markers : List String) (type : Trees) (name : String) :
    lexemesOf (privateField "\n    " markers type name).pieces =
      (markers.flatMap fun m => [.sign "\n    " '@', .word "" m]) ++
        (.word "\n    " "private" :: (lexemesOf (piecesOf type) ++
          [.word " " name, .sign "" ';'])) := by
  simp [pieces_privateField, lexemesOf_append, lexemesOf, Piece.lexemes]

/-- The lines of a field are its text behind their indentation. -/
theorem lines_field (hw : written (lexemesOf (piecesOf type)) = ' ' :: f.typeText.toList) :
    Template.lines (Template.fieldLines (markers.map ("@" ++ ·)) [f]) =
      Template.line ("    " ++ spell (privateField "\n    " markers type f.name).pieces) := by
  have hchars : written (lexemesOf (privateField "\n    " markers type f.name).pieces) =
      "\n    ".toList ++ (spell (privateField "\n    " markers type f.name).pieces).toList := by
    rw [written_lexemesOf, pieces_privateField]
    cases markers <;> simp [charsOf, chars_ink, spell_cons, first]
  have hlines : written (lexemesOf (privateField "\n    " markers type f.name).pieces) ++ ['\n'] =
      '\n' :: (Template.lines (Template.fieldLines (markers.map ("@" ++ ·)) [f])).toList := by
    rw [lexemes_privateField, written_append, List.append_assoc, written_cons, lexemeChars_word]
    have hline : Template.fieldLine f = "    private " ++ f.typeText ++ " " ++ f.name ++ ";" := rfl
    simp [written_markers, hw, lexemeChars_word, lexemeChars_sign, Template.fieldLines, hline,
      Template.lines, Template.line]
  rw [hchars] at hlines
  rw [← String.toList_inj]
  simpa [Template.line] using hlines.symm

/-- A field and the markers in front of it. -/
theorem Reads.field (hm : ∀ m ∈ markers, isIdentifier m = true ∧ m ≠ "record" ∧ m ≠ "sealed")
    (hf : isIdentifier f.name = true ∧ IsType f.typeText) :
    ∃ u, Template.lines (Template.fieldLines (markers.map ("@" ++ ·)) [f]) =
        Template.line ("    " ++ u) ∧
      Reads (fun ps => ∃ t, Parses grammar (Rule.node .fieldDeclaration) [t] ∧ entries t = [f] ∧
        ps = t.pieces) u := by
  obtain ⟨hname, type, htype, htext, hquotes⟩ := hf
  simp only [isIdentifier, Bool.and_eq_true] at hname
  have hparses : Parses grammar (Rule.node .fieldDeclaration)
      [privateField "\n    " markers type f.name] :=
    parses_privateField (fun m h => ⟨(Bool.and_eq_true_iff.mp (hm m h).1).2, (hm m h).2⟩) htype
      hname.2
  have hne : (privateField "\n    " markers type f.name).pieces ≠ [] := by
    simp [pieces_privateField]
  have hregap (gap : List Trivia) : Parses grammar (Rule.node .fieldDeclaration)
      [(privateField "\n    " markers type f.name).regap gap] := by
    have := hparses.regaps grammar_gapless gap
    rwa [regaps, if_neg (by simpa using hne)] at this
  refine ⟨_, lines_field hquotes.written, of_pieces _ hne (fun gap => ?_)
    (fun gap => ⟨_, hregap gap, ?_, (pieces_regap ..).symm⟩) rfl fun c hc => ?_⟩
  · rw [← pieces_regap]
    simpa using (hregap gap).nested grammar_unbracketed
  · rw [entries_regap, entries_privateField, htext]
  · rw [lexemes_privateField]
    refine .append (rereads_markers (fun m h => (hm m h).1) ?_) (.word rfl (by decide) ?_
      (.append (hquotes.rereads _ (ends_space f.name [.sign "" ';'] c))
        (.word rfl hname.1 (ends_sign (by decide) ..) (.sign rfl (by decide) .nil))))
    · simpa [lexemeChars_word] using (by decide : isWordPart '\n' = false)
    · simpa [hquotes.written] using (by decide : isWordPart ' ' = false)

/-- The body of a class that holds data declares the fields. -/
theorem Reads.fieldLines (markers : List String)
    (hm : ∀ m ∈ markers, isIdentifier m = true ∧ m ≠ "record" ∧ m ≠ "sealed")
    (hf : ∀ f ∈ fields, isIdentifier f.name = true ∧ IsType f.typeText) :
    Reads (fun ps => bodyFields ps = fields)
      (Template.lines (Template.fieldLines (markers.map ("@" ++ ·)) fields)) := by
  have hread : Reads (fun ps => ∃ ts, Parses grammar (Node.membersOf Node.members) ts ∧
      ts.flatMap entries = fields ∧ ps = piecesOf ts)
      (Template.lines (Template.fieldLines (markers.map ("@" ++ ·)) fields)) := by
    induction fields with
    | nil => exact nothing ⟨[], .stop, rfl, rfl⟩
    | cons f fields ih =>
      rw [List.forall_mem_cons] at hf
      obtain ⟨u, hu, hread⟩ := Reads.field hm hf.1
      have hlines : Template.lines (Template.fieldLines (markers.map ("@" ++ ·)) (f :: fields)) =
          Template.line ("    " ++ u) ++
            Template.lines (Template.fieldLines (markers.map ("@" ++ ·)) fields) := by
        rw [← hu]
        simp [Template.fieldLines, Template.lines, String.append_assoc]
      rw [hlines]
      refine ((hread.indent rfl).line_append (ih hf.2)).mono ?_
      rintro _ ⟨_, _, ⟨t, ht, he, rfl⟩, ⟨ts, hts, rfl, rfl⟩, rfl⟩
      refine ⟨t :: ts, .more (Parses.oneOf ?_ ht) hts, by simp [he], by simp⟩
      exact List.mem_cons_of_mem _ (List.mem_map_of_mem (by decide))
  refine hread.mono ?_
  rintro _ ⟨ts, hts, rfl, rfl⟩
  exact body_read (.inl rfl) hts

end

-- ---------------------------------------------------------------------------
-- Openings and annotations
-- ---------------------------------------------------------------------------

/-- The opening of a type without a supertype. -/
theorem Reads.plainOpening (keyword : String) {name : String}
    (hk : keyword ∈ ["class", "interface"]) (hn : isIdentifier name = true) :
    Reads (Introduces name) ("public " ++ keyword ++ " " ++ name) := by
  simpa using Reads.opening (u := "") keyword [] hk hn (by simp) rfl (by simp) fun _ _ => .nil

/-- The opening of a repository of the entity. -/
theorem Reads.repositoryOpening {name entity : String} (hn : isIdentifier name = true)
    (he : isIdentifier entity = true) :
    Reads (Introduces name) ("public interface " ++ name ++ (" extends JpaRepository<" ++ entity ++
      ", Long>, JpaSpecificationExecutor<" ++ entity ++ ">")) := by
  simp only [isIdentifier, Bool.and_eq_true] at he
  have hnamed {blank t : String} (h : isNameText t = true) :
      isFlat (.word blank t) = true ∧ isHeader (lexeme (.word blank t)) = true :=
    ⟨rfl, isHeader_name h⟩
  have hsign {c : Char} (hc : c ∈ [',', '<', '>']) :
      isFlat (.sign "" c) = true ∧ isHeader (lexeme (.sign "" c)) = true := by
    simp only [List.mem_cons, List.not_mem_nil, or_false] at hc
    rcases hc with rfl | rfl | rfl <;> exact ⟨by decide, by decide⟩
  refine Reads.opening "interface" [.word " " "extends", .word " " "JpaRepository",
    .sign "" '<', .word "" entity, .sign "" ',', .word " " "Long", .sign "" '>', .sign "" ',',
    .word " " "JpaSpecificationExecutor", .sign "" '<', .word "" entity, .sign "" '>']
    (by simp) hn ?_ ?_ ?_ fun c hc => ?_
  · simp only [List.forall_mem_cons]
    exact ⟨⟨rfl, by decide⟩, hnamed (by decide), hsign (by simp), hnamed he.2, hsign (by simp),
      hnamed (by decide), hsign (by simp), hsign (by simp), hnamed (by decide), hsign (by simp),
      hnamed he.2, hsign (by simp), List.forall_mem_nil _⟩
  · simp [lexemeChars_word, lexemeChars_sign]
  · simpa using fun _ _ => (by decide : isWordPart ' ' = false)
  · have hlong : scanner.Rereads [.word " " "Long", .sign "" '>', .sign "" ',',
        .word " " "JpaSpecificationExecutor", .sign "" '<', .word "" entity, .sign "" '>'] c :=
      .word rfl (by decide) (ends_sign (by decide) ..) (.sign rfl (by decide) (.sign rfl (by decide)
        (.word rfl (by decide) (ends_sign (by decide) ..) (.sign rfl (by decide)
          (.word rfl he.1 (ends_sign (by decide) ..) (.sign rfl (by decide) .nil))))))
    exact .word rfl (by decide) (ends_space ..) (.word rfl (by decide) (ends_sign (by decide) ..)
      (.sign rfl (by decide) (.word rfl he.1 (ends_sign (by decide) ..)
        (.sign rfl (by decide) hlong))))

/-- What ends a literal or does not stand for itself in one. -/
def isSpecial (c : Char) : Bool := c ∈ ['"', '\\']

theorem special_cases {c : Char} (h : isSpecial c = true) : c = '"' ∨ c = '\\' := by
  simpa [isSpecial] using h

theorem not_special_ofNat {n : Nat} (hn : 93 ≤ n) : isSpecial (Char.ofNat n) = false := by
  have hcode : (Char.ofNat n).toNat = n ∨ (Char.ofNat n).toNat = 0 := by
    by_cases hv : n.isValidChar
    · exact .inl (by rw [Char.ofNat, dif_pos hv]; rfl)
    · exact .inr (by rw [Char.ofNat, dif_neg hv]; rfl)
  rw [Bool.eq_false_iff]
  intro h
  rcases special_cases h with h | h <;> rw [h] at hcode <;> simp at hcode <;> omega

/-- The lower case of what is not special is not special. -/
theorem not_special_lowerChar {c : Char} (hc : isSpecial c = false) :
    (Text.lowerChar c).any isSpecial = false := by
  rw [Text.lowerChar]
  split
  · next hascii =>
    have hlower : ∀ n < 128, isSpecial (Char.ofNat n) = false →
        isSpecial (Char.ofNat n).toLower = false := by decide
    have := hlower c.toNat hascii
    rw [Char.ofNat_toNat] at this
    simpa using this hc
  split
  · decide
  split
  · next r hr =>
    have hruns : (Text.caseRuns.all fun r => decide (93 ≤ r.first + r.shift)) = true := by decide
    have hrun : 93 ≤ r.first + r.shift := by
      simpa using List.all_eq_true.mp hruns r (List.mem_of_find?_eq_some hr)
    have hfirst : r.first ≤ c.toNat := by
      have := List.find?_some hr
      simp only [Text.CaseRun.holds, Bool.and_eq_true, decide_eq_true_eq] at this
      exact this.1.1
    have := not_special_ofNat (n := (c.toNat + r.shift).toNat) (by omega)
    simpa using this
  · simpa using hc

theorem not_special_endpoint (h : isIdentifier t = true) :
    (Template.endpoint t).toList.any isSpecial = false := by
  have hpart {d : Char} (hd : isWordPart d = true) : isSpecial d = false := by
    rw [Bool.eq_false_iff]
    intro h
    rcases special_cases h with rfl | rfl <;> exact absurd hd (by decide)
  have hstart {d : Char} (hd : scanner.isStart d = true) : isSpecial d = false := by
    rw [Bool.eq_false_iff]
    intro h
    rcases special_cases h with rfl | rfl <;> exact absurd hd (by decide)
  simp only [isIdentifier, Bool.and_eq_true] at h
  obtain ⟨c, cs, he, hc, hcs⟩ := Scanner.isWord_iff.mp h.1
  have htext : (Template.endpoint t).toList = "/api/".toList ++ (Text.lowerChar c ++ cs) := by
    simp [Template.endpoint, Text.lowerFirst, he]
  have hroot : "/api/".toList.any isSpecial = false := by decide
  have hrest : cs.any isSpecial = false := by simpa using fun d hd => hpart (hcs d hd)
  rw [htext, List.any_append, List.any_append, hroot, not_special_lowerChar (hstart hc), hrest]
  rfl

theorem rereads_plain {c : Char} (hne : t ≠ "") (h : t.toList.any isSpecial = false) :
    scanner.Rereads [Java.literal t.toList] c := by
  refine rereads_literal (by simpa using hne) (fun d hd => ?_) .nil
  simpa [isSpecial] using List.any_eq_false.mp h d hd

theorem Reads.literal (hne : t ≠ "") (h : t.toList.any isSpecial = false) :
    Reads (fun _ => True) ("\"" ++ t ++ "\"") := by
  refine of_lexemes (Java.literal t.toList) [] rfl (List.forall_mem_singleton.mpr rfl)
    (fun _ => trivial) ?_ fun c _ => rereads_plain hne h
  simp [Java.literal, lexemeChars, Lexeme.gapChars]

/-- An argument with its name. -/
theorem Reads.named {name : String} (hn : scanner.isWord name = true) (hne : t ≠ "")
    (h : t.toList.any isSpecial = false) :
    Reads (fun _ => True) (name ++ " = \"" ++ t ++ "\"") := by
  refine of_lexemes (.word "" name)
    [.sign " " '=', (Java.literal t.toList).regap (Lexeme.blanks " ")] (by simp) ?_
    (fun _ => trivial) ?_ fun c hc => ?_
  · simp only [List.forall_mem_cons]
    exact ⟨rfl, rfl, rfl, List.forall_mem_nil _⟩
  · have hliteral : lexemeChars ((Java.literal t.toList).regap (Lexeme.blanks " ")) =
        ' ' :: '"' :: t.toList ++ ['"'] := by
      simp [Java.literal, lexemeChars, Lexeme.gapChars, Lexeme.blanks, Trivia.chars]
    simp [hliteral, lexemeChars_word, lexemeChars_sign]
  · refine .word rfl hn ?_ (.sign rfl (by decide) ((rereads_plain hne h).regap rfl))
    simpa [lexemeChars_sign] using (by decide : isWordPart ' ' = false)

end Source.Java

open Source Source.Java

-- ---------------------------------------------------------------------------
-- Templates
-- ---------------------------------------------------------------------------

/-- In front of its members the template is the heading of a class or an interface. -/
structure Template.Declares (t : Template) (name : String) : Prop where
  imports : ∀ i ∈ t.imports, Quoted Linked i
  annotations : ∀ a ∈ t.annotations, Reads Annotation a
  opening : ∃ front, t.opening = front ++ " \x7b" ∧ Reads (Introduces name) front

namespace Template.Declares

variable {t : Template} {name package : String}

/-- The text of a template: a heading, and behind an open brace the members. -/
theorem rendered (h : t.Declares name) (hp : Quoted Dotted package) :
    ∃ front, Reads (Heading package name) front ∧
      t.render package = front ++ " \x7b\n" ++ (lines t.members ++ line "\x7d") := by
  obtain ⟨front, hopening, hfront⟩ := h.opening
  refine ⟨_, .heading hp h.imports h.annotations hfront, ?_⟩
  simp [render, hopening, line, ← String.toList_inj]

theorem pieces_render (t : Template) (package : String) (path : Path) :
    SourceFile.pieces ⟨path, .java, t.render package⟩ =
      Piece.ofLexemes (scanner.read (t.render package).toList) := by
  have hmark : withoutMark (t.render package).toList = (t.render package).toList := by
    simp [render, line, withoutMark]
  rw [SourceFile.pieces, lexemes_eq, hmark]

theorem resolve (h : t.Declares name) (hp : Quoted Dotted package) (hne : package ≠ "")
    (path : Path) (strict : Bool) : ∃ fields,
    SourceFile.resolve ⟨path, .java, t.render package⟩ strict =
      .ok ⟨name, package ++ "." ++ name, fields, .java⟩ := by
  obtain ⟨front, hfront, htext⟩ := h.rendered hp
  obtain ⟨ps, b, inner, more, hps, hb, hpieces⟩ := hfront.opened (lines t.members ++ line "\x7d")
  rw [← htext, ← pieces_render t package path] at hpieces
  exact ⟨_, SourceFile.resolve_heading more rfl hps hne hb hpieces strict⟩

/-- Where the members are read, they make up the body. -/
theorem resolve_fields {fields : List Field} (h : t.Declares name) (hp : Quoted Dotted package)
    (hne : package ≠ "") (hm : Reads (fun ps => bodyFields ps = fields) (lines t.members))
    (path : Path) (strict : Bool) :
    SourceFile.resolve ⟨path, .java, t.render package⟩ strict =
      .ok ⟨name, package ++ "." ++ name, fields, .java⟩ := by
  obtain ⟨front, hfront, htext⟩ := h.rendered hp
  have hbody : Reads (Within '\x7b' fun ps => bodyFields ps = fields)
      (" \x7b\n" ++ (lines t.members ++ "\x7d")) := by
    have hbraces := (hm.within (c := '\x7b') (e := '\x7d') (by simp) (i := "\n") rfl).indent
      (i := " ") rfl
    have htext : " " ++ ('\x7b'.toString ++ ("\n" ++ lines t.members) ++ '\x7d'.toString) =
        " \x7b\n" ++ (lines t.members ++ "\x7d") := by
      simp [Char.toString, ← String.toList_inj]
    rwa [htext] at hbraces
  have hwhole := (hfront.append hbody fun c _ => by
    simpa using (by decide : isWordPart ' ' = false)).whole
  obtain ⟨ps, _, hps, ⟨b, inner, hb, rfl, rfl⟩, he⟩ := hwhole
  refine SourceFile.resolve_heading [] rfl hps hne hb ?_ strict
  rw [pieces_render, ← he, htext]
  simp [line, String.append_assoc]

end Template.Declares

namespace Template

variable {e : Entity} {c : Context} {names : List String}

theorem quoted_package (hne : names ≠ []) (hn : ∀ n ∈ names, isIdentifier n = true)
    (hc : c.basePackage = ".".intercalate names) (k : Kind) : Quoted Dotted (c.packageOf k) := by
  have hplace : k.place ≠ [] ∧ ∀ n ∈ k.place, isIdentifier n = true := by cases k <;> decide
  have hpackage : c.packageOf k = ".".intercalate (names ++ k.place) := by
    rw [Text.intercalate_append hne hplace.1, ← hc]
    rfl
  rw [hpackage]
  refine quoted_names (by simp [hne]) fun n h => ?_
  exact (List.mem_append.mp h).elim (hn n) (hplace.2 n)

theorem quoted_type (he : e.Quotable) (hp : ∀ k, Quoted Dotted (c.packageOf k)) (k : Kind) :
    Quoted Linked (c.qualifiedType k e.name) :=
  ((hp k).member (fun _ _ _ => dotted_member) (isIdentifier_typeName k he.name)).mono
    fun _ => Dotted.linked

theorem declares_dataClass {imports markers : List String} {name : String} {fields : List Field}
    (hi : ∀ i ∈ imports, isPath i = true) (hn : isIdentifier name = true) :
    (dataClass imports markers name fields).Declares name where
  imports i h := by
    have hpath : isPath i = true := by
      rcases List.mem_append.mp h with h | h
      · exact hi i h
      · obtain rfl := List.mem_singleton.mp h
        decide
    exact quoted_import hpath
  annotations := by
    have : Reads Annotation "@Data" := .marker "Data" (by decide)
    simpa [dataClass] using this
  opening := ⟨_, rfl, Reads.plainOpening "class" (by simp) hn⟩

theorem declares_repository (he : e.Quotable) :
    (repository e).Declares (Kind.repository.typeName e.name) where
  imports := by
    simp only [repository, List.forall_mem_cons]
    exact ⟨he.path, quoted_import (by decide), quoted_import (by decide), quoted_import (by decide),
      List.forall_mem_nil _⟩
  annotations := by
    simpa [repository] using Reads.marker "Repository" (by decide)
  opening := by
    refine ⟨_, ?_, Reads.repositoryOpening (isIdentifier_typeName _ he.name) he.name⟩
    simp [repository, ← String.toList_inj]

theorem declares_mapper (he : e.Quotable) (hp : ∀ k, Quoted Dotted (c.packageOf k)) :
    (mapper e c).Declares (Kind.mapper.typeName e.name) where
  imports := by
    simp only [mapper, List.forall_mem_cons]
    exact ⟨he.path, quoted_type he hp .request, quoted_type he hp .dto, quoted_import (by decide),
      quoted_import (by decide), quoted_import (by decide), List.forall_mem_nil _⟩
  annotations := by
    have harguments : Reads Annotation
        ("@" ++ "Mapper" ++ ("(" ++ ("componentModel" ++ " = \"" ++ "spring" ++ "\"") ++ ")")) :=
      .applied "Mapper" (by decide) (.named (by decide) (by decide) (by decide))
    simpa [mapper] using harguments
  opening := ⟨_, rfl, Reads.plainOpening "interface" (by simp) (isIdentifier_typeName _ he.name)⟩

theorem declares_service (he : e.Quotable) (hp : ∀ k, Quoted Dotted (c.packageOf k)) :
    (service e c).Declares (Kind.service.typeName e.name) where
  imports := by
    simp only [service, List.forall_mem_cons]
    exact ⟨quoted_type he hp .repository, quoted_type he hp .mapper, quoted_type he hp .request,
      quoted_type he hp .searchRequest, quoted_type he hp .dto, he.path, quoted_import (by decide),
      quoted_import (by decide), quoted_import (by decide), quoted_import (by decide),
      List.forall_mem_nil _⟩
  annotations := by
    simpa [service] using ⟨Reads.marker "Service" (by decide),
      Reads.marker "RequiredArgsConstructor" (by decide)⟩
  opening := ⟨_, rfl, Reads.plainOpening "class" (by simp) (isIdentifier_typeName _ he.name)⟩

theorem declares_controller (he : e.Quotable) (hp : ∀ k, Quoted Dotted (c.packageOf k)) :
    (controller e c).Declares (Kind.controller.typeName e.name) where
  imports := by
    have hstar : Quoted Linked ("org.springframework.web.bind.annotation" ++ ".*") :=
      (quoted_import (by decide)).star
    simp only [controller, List.forall_mem_cons]
    exact ⟨quoted_type he hp .service, quoted_type he hp .request, quoted_type he hp .searchRequest,
      quoted_type he hp .dto, quoted_import (by decide), quoted_import (by decide),
      quoted_import (by decide), hstar, quoted_import (by decide), List.forall_mem_nil _⟩
  annotations := by
    have hroute : Reads Annotation
        ("@" ++ "RequestMapping" ++ ("(" ++ ("\"" ++ endpoint e.name ++ "\"") ++ ")")) :=
      .applied "RequestMapping" (by decide)
        (.literal (by simp [endpoint]) (not_special_endpoint he.name))
    have htext : "@" ++ "RequestMapping" ++ ("(" ++ ("\"" ++ endpoint e.name ++ "\"") ++ ")") =
        "@RequestMapping(\"" ++ endpoint e.name ++ "\")" := by
      simp [← String.toList_inj]
    rw [htext] at hroute
    simpa [controller] using ⟨Reads.marker "RestController" (by decide), hroute,
      Reads.marker "RequiredArgsConstructor" (by decide)⟩
  opening := ⟨_, rfl, Reads.plainOpening "class" (by simp) (isIdentifier_typeName _ he.name)⟩

theorem declares_ofKind (he : e.Quotable) (hp : ∀ k, Quoted Dotted (c.packageOf k)) (k : Kind) :
    (ofKind e c k).Declares (k.typeName e.name) := by
  have hname := isIdentifier_typeName k he.name
  cases k with
  | repository => exact declares_repository he
  | dto => exact declares_dataClass (by simp) hname
  | request => exact declares_dataClass (by decide) hname
  | searchRequest => exact declares_dataClass (by simp) hname
  | mapper => exact declares_mapper he hp
  | service => exact declares_service he hp
  | controller => exact declares_controller he hp

end Template

namespace Artifact

/-- Every artifact of an entity of an accepted source, resolved as a source itself, gives a class
with the name of its file in its package, and those that hold data give the fields of the
entity. -/
theorem resolve_artifacts {s : SourceFile} {program : Trees} {e : Entity} {strict : Bool}
    (hs : s.language = .java) (h : Accepts s.text program) (he : s.resolve strict = .ok e)
    {c : Context} {names : List String} (hne : names ≠ []) (hn : ∀ n ∈ names, isIdentifier n = true)
    (hc : c.basePackage = ".".intercalate names) :
    ∀ a ∈ generateAll e c, ∀ (path : Path) (again : Bool), ∃ e',
      SourceFile.resolve ⟨path, .java, a.content⟩ again = .ok e' ∧
      e'.name = a.kind.typeName e.name ∧ e'.name ++ ".java" = a.fileName ∧
      e'.qualifiedName = a.package ++ "." ++ e'.name ∧
      (a.kind ∈ [.dto, .request, .searchRequest] → e'.fields = e.fields) := by
  intro a ha path again
  obtain ⟨k, -, rfl⟩ := List.mem_map.mp ha
  have hquotable : e.Quotable := SourceFile.resolve_quotable hs h he
  have hpackage := Template.quoted_package hne hn hc
  have hnonempty : c.packageOf k ≠ "" := by simp [Context.packageOf]
  have hdeclares := Template.declares_ofKind (c := c) hquotable hpackage k
  by_cases hk : k ∈ [.dto, .request, .searchRequest]
  · have hmembers : Reads (fun ps => bodyFields ps = e.fields)
        (Template.lines (Template.ofKind e c k).members) := by
      simp only [List.mem_cons, List.not_mem_nil, or_false] at hk
      rcases hk with rfl | rfl | rfl
      · exact .fieldLines [] (by simp) hquotable.fields
      · exact .fieldLines ["NotNull"] (by decide) hquotable.fields
      · exact .fieldLines [] (by simp) hquotable.fields
    exact ⟨_, hdeclares.resolve_fields (hpackage k) hnonempty hmembers path again, rfl, rfl, rfl,
      fun _ => rfl⟩
  · obtain ⟨fields, hresolve⟩ := hdeclares.resolve (hpackage k) hnonempty path again
    exact ⟨_, hresolve, rfl, rfl, rfl, fun h => absurd h hk⟩

/-- Artifacts of a class with two fields in a package of two names. -/
theorem resolve_artifacts_of_point :
    ∃ e, SourceFile.resolve ⟨⟨"Point.java"⟩, .java, "class Point \x7bint x, y[];\x7d"⟩ true = .ok e ∧
      e.fields = [⟨"x", "int"⟩, ⟨"y", "int[]"⟩] ∧
      ∀ a ∈ generateAll e ⟨"org.shop", none⟩, ∃ e',
        SourceFile.resolve ⟨⟨a.fileName⟩, .java, a.content⟩ true = .ok e' ∧
        e'.name = a.kind.typeName "Point" ∧ e'.name ++ ".java" = a.fileName ∧
        e'.qualifiedName = a.package ++ "." ++ e'.name ∧
        (a.kind ∈ [.dto, .request, .searchRequest] → e'.fields = e.fields) := by
  obtain ⟨e, he, hname, hfields⟩ := SourceFile.resolve_accepted
    (s := ⟨⟨"Point.java"⟩, .java, "class Point \x7bint x, y[];\x7d"⟩) rfl
    SourceFile.accepts_pointClass rfl true
  have hpoint : e.name = "Point" := hname
  refine ⟨e, he, hfields.trans (by decide), fun a ha => ?_⟩
  have hread := resolve_artifacts (c := ⟨"org.shop", none⟩) rfl SourceFile.accepts_pointClass he
    (show ["org", "shop"] ≠ [] by simp) (by decide) (by decide) a ha ⟨a.fileName⟩ true
  rwa [hpoint] at hread

end Artifact

end Scaffold
