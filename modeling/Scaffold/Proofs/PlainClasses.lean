import Scaffold.Proofs.Nestings
import Scaffold.Proofs.Java.Lexing
import Scaffold.Proofs.Kotlin.Lexing
import Scaffold.Source.Java.Reader
import Scaffold.Source.Kotlin.Reader

/-!
# Plain classes

A class of private members, written in Java, and the same class of Kotlin with
its properties in the constructor or in the body. Names are ASCII identifiers
with no meaning of their own in either language; a type is a name, perhaps
applied to types.
-/

namespace Scaffold.Source

open Piece

-- ---------------------------------------------------------------------------
-- Names
-- ---------------------------------------------------------------------------

/-- Words that Java or Kotlin gives a meaning of their own, if only in some places. -/
def keywords : List String :=
  Java.reserved ++
  ["_", "exports", "module", "open", "opens", "permits", "provides", "record", "requires",
   "sealed", "to", "transitive", "uses", "var", "when", "with", "yield"] ++
  Kotlin.reserved ++ Kotlin.modifierWords ++
  ["by", "catch", "constructor", "delegate", "dynamic", "field", "file", "finally", "get",
   "import", "init", "out", "param", "property", "receiver", "reified", "set", "setparam",
   "where"]

def isAsciiStart (c : Char) : Bool := c.isAlpha || c = '_'

def isAsciiPart (c : Char) : Bool := c.isAlphanum || c = '_'

def isCommonName (t : String) : Bool :=
  t ∉ keywords &&
    match t.toList with
    | [] => false
    | c :: cs => isAsciiStart c && cs.all isAsciiPart

/-- An identifier of both languages. -/
structure CommonName where
  text : String
  isCommon : isCommonName text = true

theorem isAlpha_iff {c : Char} : c.isAlpha = true ↔
    65 ≤ c.toNat ∧ c.toNat ≤ 90 ∨ 97 ≤ c.toNat ∧ c.toNat ≤ 122 := by
  have halpha : c.isAlpha = (decide (c.val ≥ 'A'.val ∧ c.val ≤ 'Z'.val) ||
      decide (c.val ≥ 'a'.val) && decide (c.val ≤ 'z'.val)) := rfl
  simp [halpha, UInt32.le_iff_toNat_le]

theorem isAsciiPart_iff {c : Char} : isAsciiPart c = true ↔
    65 ≤ c.toNat ∧ c.toNat ≤ 90 ∨ 97 ≤ c.toNat ∧ c.toNat ≤ 122 ∨ 48 ≤ c.toNat ∧ c.toNat ≤ 57 ∨
      c = '_' := by
  simp [isAsciiPart, Char.isAlphanum, isAlpha_iff, Char.isDigit, UInt32.le_iff_toNat_le, or_assoc]

theorem isAsciiPart_of_start {c : Char} (h : isAsciiStart c = true) : isAsciiPart c = true := by
  simp only [isAsciiStart, Bool.or_eq_true] at h
  rcases h with h | h <;> simp [isAsciiPart, Char.isAlphanum, h]

theorem isDigit_asciiStart {c : Char} (h : isAsciiStart c = true) : c.isDigit = false := by
  simp only [isAsciiStart, Bool.or_eq_true, isAlpha_iff, decide_eq_true_eq] at h
  rcases h with h | rfl
  · simp only [Char.isDigit, Bool.and_eq_false_iff, decide_eq_false_iff_not,
      UInt32.le_iff_toNat_le]
    simp
    omega
  · decide

theorem toNat_asciiPart {c : Char} (h : isAsciiPart c = true) : c.toNat < 128 := by
  rcases isAsciiPart_iff.mp h with h | h | h | rfl
  · omega
  · omega
  · omega
  · decide

theorem isBlank_asciiPart {c : Char} (h : isAsciiPart c = true) : Text.isBlank c = false := by
  have hcase : c = '_' ∨ 48 ≤ c.toNat ∧ c.toNat < 128 := by
    rcases isAsciiPart_iff.mp h with h | h | h | h
    · exact .inr (by omega)
    · exact .inr (by omega)
    · exact .inr (by omega)
    · exact .inl h
  rcases hcase with rfl | h
  · decide
  · simp [Text.isBlank]
    omega

namespace CommonName

variable (n : CommonName)

theorem notMem_keywords : n.text ∉ keywords := by
  have := n.isCommon
  simp only [isCommonName, Bool.and_eq_true, decide_eq_true_eq] at this
  exact this.1

theorem chars : ∃ c cs, n.text.toList = c :: cs ∧ isAsciiStart c = true ∧
    ∀ d ∈ cs, isAsciiPart d = true := by
  have := n.isCommon
  simp only [isCommonName, Bool.and_eq_true] at this
  replace this := this.2
  split at this
  · cases this
  · next c cs he => exact ⟨c, cs, he, by simpa using this⟩

theorem isBlank_chars {c : Char} (h : c ∈ n.text.toList) : Text.isBlank c = false := by
  obtain ⟨d, ds, he, hd, hds⟩ := n.chars
  rw [he] at h
  rcases List.mem_cons.mp h with rfl | h
  · exact isBlank_asciiPart (isAsciiPart_of_start hd)
  · exact isBlank_asciiPart (hds c h)

theorem java_isWord : Java.scanner.isWord n.text = true := by
  obtain ⟨c, cs, he, hc, hcs⟩ := n.chars
  refine Scanner.isWord_iff.mpr ⟨c, cs, he, ?_, fun d hd => ?_⟩
  · have hblank := isBlank_asciiPart (isAsciiPart_of_start hc)
    have hstart : Text.isIdentifierStart c = true ∨ c = '_' := by
      simp only [isAsciiStart, Bool.or_eq_true, decide_eq_true_eq] at hc
      refine hc.imp_left fun h => ?_
      rw [Text.isIdentifierStart,
        if_pos (toNat_asciiPart (by simp [isAsciiPart, Char.isAlphanum, h])), h]
    have hword : Java.isWordStart c = true := by
      rcases hstart with h | h <;> simp [Java.isWordStart, h]
    simp [Java.scanner, hblank, hword]
  · have hpart : Text.isIdentifierContinue d = true := by
      have := hcs d hd
      rw [Text.isIdentifierContinue, if_pos (toNat_asciiPart this)]
      simpa [isAsciiPart] using this
    simp [Java.isWordPart, hpart]

theorem kotlin_isWord : Kotlin.scanner.isWord n.text = true := by
  obtain ⟨c, cs, he, hc, hcs⟩ := n.chars
  have hlisted {d : Char} (hd : d.isAlpha = true) : Text.isListedLetter d = true := by
    have hascii := toNat_asciiPart (c := d) (by simp [isAsciiPart, Char.isAlphanum, hd])
    have habridged : Text.inRanges Text.abridgedRanges d = false := by
      simp [Text.inRanges, Text.abridgedRanges]
      omega
    simp [Text.isListedLetter, Text.isLetter, hascii, hd, habridged]
  refine Scanner.isWord_iff.mpr ⟨c, cs, he, ?_, fun d hd => ?_⟩
  · have hblank := isBlank_asciiPart (isAsciiPart_of_start hc)
    simp only [isAsciiStart, Bool.or_eq_true, decide_eq_true_eq] at hc
    have hword : Kotlin.isWordStart c = true := by
      rcases hc with h | h
      · simp [Kotlin.isWordStart, hlisted h]
      · simp [Kotlin.isWordStart, h]
    simp [Kotlin.scanner, hblank, hword]
  · have hpart := hcs d hd
    have hascii := toNat_asciiPart hpart
    simp only [isAsciiPart, Char.isAlphanum, Bool.or_eq_true, decide_eq_true_eq] at hpart
    rcases hpart with (h | h) | h
    · simp [Kotlin.scanner, Kotlin.isWordPart, hlisted h]
    · simp [Kotlin.scanner, Kotlin.isWordPart, Text.isDigit, hascii, h]
    · simp [Kotlin.scanner, Kotlin.isWordPart, h]

variable {n}

theorem isWord_keyword {blank w : String} (h : w ∈ keywords) :
    (lexeme (.word blank n.text)).isWord w = false := by
  simp only [isWord, word?, Lexeme.word, if_true, Option.some.injEq, decide_eq_false_iff_not]
  rintro rfl
  exact n.notMem_keywords h

theorem digitless : (n.text.toList.head?.map Char.isDigit) = some false := by
  obtain ⟨c, cs, he, hc, -⟩ := n.chars
  simp [he, isDigit_asciiStart hc]

theorem java_name (blank : String) :
    Java.name? (lexeme (.word blank n.text)) = some n.text := by
  have h : n.text ∉ Java.reserved := fun h =>
    n.notMem_keywords ((by decide : ∀ w ∈ Java.reserved, w ∈ keywords) _ h)
  simp [Java.name?, word?, Lexeme.word, Option.filter, h, n.digitless]

theorem kotlin_name (blank : String) :
    Kotlin.name? (lexeme (.word blank n.text)) = some n.text := by
  have h : n.text ∉ Kotlin.reserved := fun h =>
    n.notMem_keywords ((by decide : ∀ w ∈ Kotlin.reserved, w ∈ keywords) _ h)
  simp [Kotlin.name?, word?, Lexeme.word, Option.filter, h, n.digitless]

end CommonName

-- ---------------------------------------------------------------------------
-- Texts
-- ---------------------------------------------------------------------------

/-- A type: a name, perhaps applied to types. -/
inductive TypeTerm
  | apply (name : CommonName) (arguments : List TypeTerm)

def spaces (n : Nat) : String := String.ofList (List.replicate n ' ')

@[simp] theorem isBlankText_spaces (n : Nat) : isBlankText (spaces n) = true := by
  simp [isBlankText, spaces]
  exact .inr (by decide)

namespace TypeTerm

mutual

/-- The text of a type with so many blanks behind each comma. -/
def text (k : Nat) : TypeTerm → String
  | apply n [] => n.text
  | apply n (t :: ts) => n.text ++ "<" ++ t.text k ++ restText k ts ++ ">"

def restText (k : Nat) : List TypeTerm → String
  | [] => ""
  | t :: ts => "," ++ spaces k ++ t.text k ++ restText k ts

end

mutual

def lexemes (k : Nat) (blank : String) : TypeTerm → List Lexeme
  | apply n [] => [.word blank n.text]
  | apply n (t :: ts) =>
    .word blank n.text :: .sign "" '<' :: t.lexemes k "" ++ restLexemes k ts ++ [.sign "" '>']

def restLexemes (k : Nat) : List TypeTerm → List Lexeme
  | [] => []
  | t :: ts => .sign "" ',' :: t.lexemes k (spaces k) ++ restLexemes k ts

end

/-- A name of a type or a sign between names. -/
def IsPart (l : Lexeme) : Prop :=
  (∃ (b : String) (n : CommonName), l = .word b n.text) ∨ ∃ b, ∃ c ∈ ['<', '>', ','], l = .sign b c

theorem IsPart.isFlat {l : Lexeme} (h : IsPart l) : isFlat l = true := by
  rcases h with ⟨b, n, rfl⟩ | ⟨b, c, hc, rfl⟩
  · rfl
  · rw [isFlat_sign]
    simp only [List.mem_cons, List.not_mem_nil, or_false] at hc
    rcases hc with rfl | rfl | rfl <;> rfl

mutual

theorem isPart_lexemes (k : Nat) (blank : String) (t : TypeTerm) :
    ∀ l ∈ t.lexemes k blank, IsPart l := by
  have hname (n : CommonName) : IsPart (.word blank n.text) := .inl ⟨_, n, rfl⟩
  have hsign {c : Char} (hc : c ∈ ['<', '>', ',']) : IsPart (.sign "" c) := .inr ⟨_, c, hc, rfl⟩
  match t with
  | apply n [] => simpa [lexemes] using hname n
  | apply n (t :: ts) =>
    simpa [lexemes, or_imp, forall_and, hname, hsign] using
      ⟨isPart_lexemes k "" t, isPart_restLexemes k ts⟩

theorem isPart_restLexemes (k : Nat) (ts : List TypeTerm) : ∀ l ∈ restLexemes k ts, IsPart l := by
  match ts with
  | [] => simp [restLexemes]
  | t :: ts =>
    have hcomma : IsPart (.sign "" ',') := .inr ⟨_, _, by decide, rfl⟩
    simpa [restLexemes, or_imp, forall_and, hcomma] using
      ⟨isPart_lexemes k (spaces k) t, isPart_restLexemes k ts⟩

end

mutual

theorem written_lexemes (k : Nat) (blank : String) (t : TypeTerm) :
    written (t.lexemes k blank) = blank.toList ++ (t.text k).toList := by
  match t with
  | apply n [] => simp [lexemes, text, lexemeChars_word]
  | apply n (t :: ts) =>
    simp [lexemes, text, lexemeChars_word, lexemeChars_sign, written_lexemes k "" t,
      written_restLexemes k ts]

theorem written_restLexemes (k : Nat) (ts : List TypeTerm) :
    written (restLexemes k ts) = (restText k ts).toList := by
  match ts with
  | [] => rfl
  | t :: ts =>
    simp [restLexemes, restText, lexemeChars_sign, written_lexemes k (spaces k) t,
      written_restLexemes k ts]

end

theorem gapChars_lexemes (k : Nat) (blank : String) (t : TypeTerm) :
    ∀ l ∈ (t.lexemes k blank).head?, l.gapChars = blank.toList := by
  match t with
  | apply n [] | apply n (t :: ts) => simp [lexemes]

theorem spell_lexemes (k : Nat) (blank : String) (t : TypeTerm) :
    spell ((t.lexemes k blank).map .lexeme) = t.text k :=
  spell_flat (t.written_lexemes k blank) (t.gapChars_lexemes k blank)

end TypeTerm

/-- The words and signs of plain classes are words and signs of the language. -/
structure Scanner.ReadsPlain {σ P : Type} (m : Scanner σ P) : Prop where
  name (n : CommonName) : m.isWord n.text = true
  word : ∀ w ∈ ["package", "class", "private", "val"], m.isWord w = true
  sign : ∀ c ∈ ['.', ';', ',', ':', '<', '>', '(', ')', '\x7b', '\x7d'], m.isSign c = true
  apart : ∀ c ∈ [' ', '\n', '.', ';', ',', ':', '<', '>', '(', ')', '\x7b', '\x7d'],
    m.isPart c = false

theorem java_readsPlain : Java.scanner.ReadsPlain where
  name n := n.java_isWord
  word := by decide
  sign := by
    simp only [List.forall_mem_cons, List.not_mem_nil, false_imp_iff, implies_true, and_true]
    decide
  apart := by
    simp only [List.forall_mem_cons, List.not_mem_nil, false_imp_iff, implies_true, and_true]
    decide

theorem kotlin_readsPlain : Kotlin.scanner.ReadsPlain where
  name n := n.kotlin_isWord
  word := by decide
  sign := by
    simp only [List.forall_mem_cons, List.not_mem_nil, false_imp_iff, implies_true, and_true]
    decide
  apart := by
    simp only [List.forall_mem_cons, List.not_mem_nil, false_imp_iff, implies_true, and_true]
    decide

namespace TypeTerm

variable {σ P : Type} {m : Scanner σ P}

theorem headOr_restLexemes (k : Nat) (ts : List TypeTerm) :
    headOr (written (restLexemes k ts)) '>' ∈ [',', '>'] := by
  cases ts <;> simp [restLexemes, lexemeChars_sign]

mutual

theorem rereads (hm : m.ReadsPlain) (k : Nat) {blank : String} {c : Char}
    (hb : isBlankText blank = true) (hc : m.isPart c = false) (t : TypeTerm) :
    m.Rereads (t.lexemes k blank) c := by
  match t with
  | apply n [] => exact .word hb (hm.name n) hc .nil
  | apply n (t :: ts) =>
    have hrest : m.Rereads (restLexemes k ts ++ [.sign "" '>']) c :=
      .append (restRereads hm k ts (by simpa [lexemeChars_sign] using hm.apart '>' (by decide)))
        (.sign rfl (hm.sign '>' (by decide)) .nil)
    have hnext : m.isPart (headOr (written (restLexemes k ts ++ [.sign "" '>'])) c) = false := by
      have hhead := headOr_restLexemes k ts
      rw [written_append, headOr_append]
      exact hm.apart _ ((by decide : [',', '>'] ⊆ _) (by simpa [lexemeChars_sign] using hhead))
    rw [lexemes, List.append_assoc]
    refine .word hb (hm.name n) ?_ (.sign rfl (hm.sign '<' (by decide)) ?_)
    · simpa [lexemeChars_sign] using hm.apart '<' (by decide)
    · exact .append (rereads hm k rfl hnext t) hrest

theorem restRereads (hm : m.ReadsPlain) (k : Nat) (ts : List TypeTerm) {c : Char}
    (hc : m.isPart c = false) : m.Rereads (restLexemes k ts) c := by
  match ts with
  | [] => exact .nil
  | t :: ts =>
    have hnext : m.isPart (headOr (written (restLexemes k ts)) c) = false := by
      cases ts with
      | nil => exact hc
      | cons => simpa [restLexemes, lexemeChars_sign] using hm.apart ',' (by decide)
    exact .sign rfl (hm.sign ',' (by decide))
      (.append (rereads hm k (isBlankText_spaces k) hnext t) (restRereads hm k ts hc))

end

end TypeTerm

structure PlainClass where
  package : CommonName
  subpackages : List CommonName
  name : CommonName
  fields : List (CommonName × TypeTerm)

namespace PlainClass

def packageName (c : PlainClass) : String :=
  ".".intercalate (c.package.text :: c.subpackages.map CommonName.text)

def javaText (k : Nat) (c : PlainClass) : String :=
  "package " ++ c.packageName ++ "; class " ++ c.name.text ++ " \x7b" ++
    String.join (c.fields.map fun f => " private " ++ f.2.text k ++ " " ++ f.1.text ++ ";") ++
    " \x7d"

/-- One property, without the blanks in front. -/
def propertyText (k : Nat) (f : CommonName × TypeTerm) : String :=
  "val " ++ f.1.text ++ ": " ++ f.2.text k

/-- Kotlin with the properties in the constructor. -/
def constructorText (k : Nat) (c : PlainClass) : String :=
  "package " ++ c.packageName ++ "\nclass " ++ c.name.text ++ "(" ++
    ", ".intercalate (c.fields.map (propertyText k)) ++ ")"

/-- Kotlin with the properties in the body, one on each line, so many blanks in front. -/
def bodyText (k indent : Nat) (c : PlainClass) : String :=
  "package " ++ c.packageName ++ "\nclass " ++ c.name.text ++ " \x7b" ++
    String.join (c.fields.map fun f => "\n" ++ spaces indent ++ propertyText k f) ++ "\n\x7d"

/-- What the class is resolved to. -/
def entity (k : Nat) (c : PlainClass) (language : Language) : Entity :=
  ⟨c.name.text, c.packageName ++ "." ++ c.name.text, c.fields.map fun f => ⟨f.1.text, f.2.text k⟩,
    language⟩

/-- Every field declares a type. -/
theorem entity_resolved (k : Nat) (c : PlainClass) (language : Language) :
    (c.entity k language).fields.find? Field.isUnresolved = none := by
  have htext (t : TypeTerm) : t.text k ≠ Field.noType := by
    match t with
    | .apply n [] =>
      intro (h : n.text = Field.noType)
      exact n.notMem_keywords (h ▸ by decide)
    | .apply n (t :: ts) =>
      intro h
      have hmem : '<' ∈ Field.noType.toList := by simp [← h, TypeTerm.text]
      exact absurd hmem (by decide)
  simp [entity, Field.isUnresolved, htext]

def nameLexemes (c : PlainClass) : List Lexeme :=
  .word " " c.package.text :: c.subpackages.flatMap fun n => [.sign "" '.', .word "" n.text]

/-- The names of the package behind the first, each with the dot in front. -/
def links (c : PlainClass) : List (Piece × Piece) :=
  c.subpackages.map fun n => (lexeme (.sign "" '.'), lexeme (.word "" n.text))

theorem map_nameLexemes (c : PlainClass) : c.nameLexemes.map lexeme =
    lexeme (.word " " c.package.text) :: c.links.flatMap fun w => [w.1, w.2] := by
  simp [nameLexemes, links, List.flatMap_map, List.map_flatMap]

def packageLexemes (c : PlainClass) : List Lexeme := .word "" "package" :: c.nameLexemes

def memberLexemes (k : Nat) (f : CommonName × TypeTerm) : List Lexeme :=
  .word " " "private" :: f.2.lexemes k " " ++ [.word " " f.1.text, .sign "" ';']

def propertyLexemes (k : Nat) (blank : String) (f : CommonName × TypeTerm) : List Lexeme :=
  .word blank "val" :: .word " " f.1.text :: .sign "" ':' :: f.2.lexemes k " "

def parameterLexemes (k : Nat) : List (CommonName × TypeTerm) → List Lexeme
  | [] => []
  | f :: fs => propertyLexemes k "" f ++ fs.flatMap fun f => .sign "" ',' :: propertyLexemes k " " f

def javaLexemes (k : Nat) (c : PlainClass) : List Lexeme :=
  c.packageLexemes ++ [.sign "" ';', .word " " "class", .word " " c.name.text, .sign " " '\x7b'] ++
    c.fields.flatMap (memberLexemes k) ++ [.sign " " '\x7d']

def constructorLexemes (k : Nat) (c : PlainClass) : List Lexeme :=
  c.packageLexemes ++ [.word "\n" "class", .word " " c.name.text, .sign "" '('] ++
    parameterLexemes k c.fields ++ [.sign "" ')']

def bodyLexemes (k indent : Nat) (c : PlainClass) : List Lexeme :=
  c.packageLexemes ++ [.word "\n" "class", .word " " c.name.text, .sign " " '\x7b'] ++
    c.fields.flatMap (propertyLexemes k ("\n" ++ spaces indent)) ++ [.sign "\n" '\x7d']

theorem toList_intercalate_cons (s p : String) (ts : List String) :
    (s.intercalate (p :: ts)).toList = p.toList ++ ts.flatMap fun t => s.toList ++ t.toList := by
  induction ts generalizing p with
  | nil => simp
  | cons t ts ih =>
    have := ih t
    rw [String.toList_intercalate, List.map_cons] at this
    simp only [String.toList_intercalate, List.map_cons, List.intercalate_cons_cons, this]
    simp

theorem toList_packageName (c : PlainClass) : c.packageName.toList =
    c.package.text.toList ++ c.subpackages.flatMap fun n => '.' :: n.text.toList := by
  rw [packageName, toList_intercalate_cons, List.flatMap_map]
  simp

theorem qualify_packageName (c : PlainClass) :
    Entity.qualify c.packageName c.name.text = c.packageName ++ "." ++ c.name.text := by
  obtain ⟨d, ds, he, -⟩ := c.package.chars
  have hne : c.packageName ≠ "" := by
    intro h
    have := c.toList_packageName
    simp [h, he] at this
  simp [Entity.qualify, hne]

theorem written_nameLexemes (c : PlainClass) :
    written c.nameLexemes = ' ' :: c.packageName.toList := by
  have hns (ns : List CommonName) :
      written (ns.flatMap fun n => [.sign "" '.', .word "" n.text]) =
        ns.flatMap fun n => '.' :: n.text.toList := by
    induction ns with
    | nil => rfl
    | cons n ns ih => simp [ih, lexemeChars_sign, lexemeChars_word]
  simp [nameLexemes, hns, lexemeChars_word, toList_packageName]

theorem written_packageLexemes (c : PlainClass) :
    written c.packageLexemes = ("package " ++ c.packageName).toList := by
  simp [packageLexemes, written_nameLexemes, lexemeChars_word]

theorem written_flatMap {α : Type} (f : α → List Lexeme) (xs : List α) :
    written (xs.flatMap f) = xs.flatMap fun x => written (f x) := by
  induction xs with
  | nil => rfl
  | cons x xs ih => simp [ih]

theorem written_javaLexemes (k : Nat) (c : PlainClass) :
    written (c.javaLexemes k) = (c.javaText k).toList := by
  simp [javaLexemes, javaText, written_packageLexemes, written_flatMap, memberLexemes,
    lexemeChars_word, lexemeChars_sign, TypeTerm.written_lexemes, List.flatMap_map]

theorem written_bodyLexemes (k indent : Nat) (c : PlainClass) :
    written (c.bodyLexemes k indent) = (c.bodyText k indent).toList := by
  simp [bodyLexemes, bodyText, written_packageLexemes, written_flatMap, propertyLexemes,
    lexemeChars_word, lexemeChars_sign, TypeTerm.written_lexemes, List.flatMap_map, propertyText]

theorem written_parameterLexemes (k : Nat) (fs : List (CommonName × TypeTerm)) :
    written (parameterLexemes k fs) = (", ".intercalate (fs.map (propertyText k))).toList := by
  cases fs with
  | nil => rfl
  | cons f fs =>
    rw [List.map_cons, toList_intercalate_cons, List.flatMap_map]
    simp [parameterLexemes, written_flatMap, propertyLexemes, propertyText, lexemeChars_word,
      lexemeChars_sign, TypeTerm.written_lexemes]

theorem written_constructorLexemes (k : Nat) (c : PlainClass) :
    written (c.constructorLexemes k) = (c.constructorText k).toList := by
  simp [constructorLexemes, constructorText, written_packageLexemes, lexemeChars_word,
    lexemeChars_sign, written_parameterLexemes]

theorem isFlat_packageLexemes (c : PlainClass) : ∀ l ∈ c.packageLexemes, isFlat l = true := by
  simp only [packageLexemes, nameLexemes, List.forall_mem_cons, isFlat_word, List.forall_mem_flatMap]
  simp

theorem isFlat_propertyLexemes (k : Nat) (blank : String) (f : CommonName × TypeTerm) :
    ∀ l ∈ propertyLexemes k blank f, isFlat l = true := by
  simpa [propertyLexemes] using fun l hl => (f.2.isPart_lexemes k " " l hl).isFlat

-- ---------------------------------------------------------------------------
-- The texts are read back
-- ---------------------------------------------------------------------------

section

variable {σ P : Type} {m : Scanner σ P} {c : Char}

theorem rereads_packageLexemes (hm : m.ReadsPlain) (hc : m.isPart c = false) (p : PlainClass) :
    m.Rereads p.packageLexemes c := by
  have hns (ns : List CommonName) (blank : String) (n : CommonName) (hb : isBlankText blank = true) :
      m.Rereads (.word blank n.text :: ns.flatMap fun n => [.sign "" '.', .word "" n.text]) c := by
    induction ns generalizing n blank with
    | nil => exact .word hb (hm.name n) hc .nil
    | cons n' ns ih =>
      refine .word hb (hm.name n) ?_ (.sign rfl (hm.sign '.' (by decide)) (ih "" n' rfl))
      simpa [lexemeChars_sign] using hm.apart '.' (by decide)
  refine .word rfl (hm.word _ (by decide)) ?_ (hns _ _ _ rfl)
  simpa [written_nameLexemes] using hm.apart ' ' (by decide)

/-- Lexemes that are read back whatever stands behind them are read back one after another. -/
theorem rereads_flatMap {α : Type} {f : α → List Lexeme} {xs : List α}
    (hf : ∀ x ∈ xs, ∀ c, m.isPart c = false → m.Rereads (f x) c)
    (hne : ∀ x ∈ xs, ∀ c, m.isPart (headOr (written (f x)) c) = false) (hc : m.isPart c = false) :
    m.Rereads (xs.flatMap f) c := by
  induction xs with
  | nil => exact .nil
  | cons x xs ih =>
    rw [List.forall_mem_cons] at hf hne
    refine .append (hf.1 _ ?_) (ih hf.2 hne.2)
    cases xs with
    | nil => exact hc
    | cons y ys =>
      have := hne.2 y List.mem_cons_self (headOr (written (ys.flatMap f)) c)
      rwa [← headOr_append, ← written_append, ← List.flatMap_cons] at this

theorem rereads_memberLexemes (hm : m.ReadsPlain) (k : Nat) (f : CommonName × TypeTerm) :
    m.Rereads (memberLexemes k f) c := by
  refine .word rfl (hm.word _ (by decide)) ?_ (.append (f.2.rereads hm k rfl ?_)
    (.word rfl (hm.name f.1) ?_ (.sign rfl (hm.sign ';' (by decide)) .nil)))
  · simpa [TypeTerm.written_lexemes] using hm.apart ' ' (by decide)
  · simpa [lexemeChars_word] using hm.apart ' ' (by decide)
  · simpa [lexemeChars_sign] using hm.apart ';' (by decide)

theorem rereads_propertyLexemes (hm : m.ReadsPlain) (hc : m.isPart c = false) (k : Nat)
    {blank : String} (hb : isBlankText blank = true) (f : CommonName × TypeTerm) :
    m.Rereads (propertyLexemes k blank f) c := by
  refine .word hb (hm.word _ (by decide)) ?_ (.word rfl (hm.name f.1) ?_
    (.sign rfl (hm.sign ':' (by decide)) (f.2.rereads hm k rfl hc)))
  · simpa [lexemeChars_word] using hm.apart ' ' (by decide)
  · simpa [lexemeChars_sign] using hm.apart ':' (by decide)

end

/-- The name of a class behind its keyword, up to a sign. -/
theorem rereads_className {σ P : Type} {m : Scanner σ P} (hm : m.ReadsPlain)
    {blank between : String}
    {c d : Char} (hblank : isBlankText blank = true) (hbetween : between ∈ ["", " "])
    (hd : d ∈ ['(', '\x7b']) (n : CommonName) :
    m.Rereads [.word blank "class", .word " " n.text, .sign between d] c := by
  have hsign : m.isSign d = true := hm.sign d ((by decide : ['(', '\x7b'] ⊆ _) hd)
  have hnext : m.isPart (headOr (written [.sign between d]) c) = false := by
    have hapart := hm.apart d ((by decide : ['(', '\x7b'] ⊆ _) hd)
    simp only [List.mem_cons, List.not_mem_nil, or_false] at hbetween
    rcases hbetween with rfl | rfl
    · simpa [lexemeChars_sign] using hapart
    · simpa [lexemeChars_sign] using hm.apart ' ' (by decide)
  refine .word hblank (hm.word _ (by decide)) ?_ (.word rfl (hm.name n) hnext (.sign ?_ hsign .nil))
  · simpa [lexemeChars_word] using hm.apart ' ' (by decide)
  · simp only [List.mem_cons, List.not_mem_nil, or_false] at hbetween
    rcases hbetween with rfl | rfl <;> rfl

theorem lexemes_javaText (k : Nat) (c : PlainClass) :
    Java.lexemes (c.javaText k).toList = c.javaLexemes k := by
  have hm := java_readsPlain
  have hstart : ∃ cs, written (c.javaLexemes k) = 'p' :: cs := by
    simp [javaLexemes, packageLexemes, lexemeChars_word]
  have hmark : withoutMark (written (c.javaLexemes k)) = written (c.javaLexemes k) := by
    obtain ⟨cs, he⟩ := hstart
    rw [he]
    rfl
  rw [Java.lexemes_eq, ← written_javaLexemes, hmark]
  refine Scanner.read_written_sign rfl (hm.sign '\x7d' (by decide)) (.append (.append
    (rereads_packageLexemes hm ?_ c) (.sign rfl (hm.sign ';' (by decide))
      (rereads_className hm rfl (by decide) (by decide) c.name)))
    (rereads_flatMap (fun f _ _ _ => rereads_memberLexemes hm k f) (fun f _ c => ?_) ?_))
  · simpa [lexemeChars_sign] using hm.apart ';' (by decide)
  · simpa [memberLexemes, lexemeChars_word] using hm.apart ' ' (by decide)
  · simpa using hm.apart ' ' (by decide)

theorem kotlin_lexemes_eq {text : List Char} {cs : List Char} (h : text = 'p' :: cs) :
    Kotlin.lexemes text = Kotlin.scanner.read text := by
  subst h
  rfl

theorem rereads_parameterLexemes {σ P : Type} {m : Scanner σ P} (hm : m.ReadsPlain) (k : Nat)
    {c : Char}
    (hc : m.isPart c = false) (fs : List (CommonName × TypeTerm)) :
    m.Rereads (parameterLexemes k fs) c := by
  cases fs with
  | nil => exact .nil
  | cons f fs =>
    have hrest : m.Rereads (fs.flatMap fun f => .sign "" ',' :: propertyLexemes k " " f) c :=
      rereads_flatMap (fun f _ _ hc => .sign rfl (hm.sign ',' (by decide))
        (rereads_propertyLexemes hm hc k rfl f))
        (fun f _ _ => by simpa [lexemeChars_sign] using hm.apart ',' (by decide)) hc
    refine .append (rereads_propertyLexemes hm ?_ k rfl f) hrest
    cases fs with
    | nil => exact hc
    | cons => simpa [lexemeChars_sign] using hm.apart ',' (by decide)

theorem lexemes_constructorText (k : Nat) (c : PlainClass) :
    Kotlin.lexemes (c.constructorText k).toList = c.constructorLexemes k := by
  have hm := kotlin_readsPlain
  have hstart : ∃ cs, written (c.constructorLexemes k) = 'p' :: cs := by
    simp [constructorLexemes, packageLexemes, lexemeChars_word]
  obtain ⟨cs, hstart⟩ := hstart
  rw [← written_constructorLexemes, kotlin_lexemes_eq hstart]
  refine Scanner.read_written_sign rfl (hm.sign ')' (by decide)) (.append (.append
    (rereads_packageLexemes hm ?_ c)
      (rereads_className hm rfl (by decide) (by decide) c.name))
    (rereads_parameterLexemes hm k ?_ c.fields))
  · simpa [lexemeChars_word] using hm.apart '\n' (by decide)
  · simpa using hm.apart ')' (by decide)

theorem lexemes_bodyText (k indent : Nat) (c : PlainClass) :
    Kotlin.lexemes (c.bodyText k indent).toList = c.bodyLexemes k indent := by
  have hm := kotlin_readsPlain
  have hstart : ∃ cs, written (c.bodyLexemes k indent) = 'p' :: cs := by
    simp [bodyLexemes, packageLexemes, lexemeChars_word]
  obtain ⟨cs, hstart⟩ := hstart
  have hblank : isBlankText ("\n" ++ spaces indent) = true := by
    rw [isBlankText_append, isBlankText_spaces]
    rfl
  rw [← written_bodyLexemes, kotlin_lexemes_eq hstart]
  refine Scanner.read_written_sign rfl (hm.sign '\x7d' (by decide)) (.append (.append
    (rereads_packageLexemes hm ?_ c)
      (rereads_className hm rfl (by decide) (by decide) c.name))
    (rereads_flatMap (fun f _ _ hc => rereads_propertyLexemes hm hc k hblank f)
      (fun f _ c => ?_) ?_))
  · simpa [lexemeChars_word] using hm.apart '\n' (by decide)
  · simpa [propertyLexemes, lexemeChars_word] using hm.apart '\n' (by decide)
  · simpa using hm.apart '\n' (by decide)

end PlainClass

end Scaffold.Source
