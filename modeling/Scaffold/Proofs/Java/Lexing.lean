import Scaffold.Proofs.Lexing
import Scaffold.Source.Java.Lexer

/-!
# What the lexer of Java reads back

What the lexer does with a character depends on its mode only, and for braces
on the code inserted into strings, not on what has been read before. Each
lexeme of a text is thus read back wherever its characters stand in front of a
character that ends it, and a part of a string wherever the same kind of string
is open.
-/

namespace Scaffold.Source.Java

open Piece

variable {c d : Char} {cs : List Char} {m : Mode} {L : List Lexeme} {g : List Trivia}
  {s : Shape} {v : Lexer} {is p q : List Insertion}

-- ---------------------------------------------------------------------------
-- Words and blanks
-- ---------------------------------------------------------------------------

theorem foldl_word {cs : List Char} (h : ∀ c ∈ cs, isWordPart c = true) (acc : List Char)
    (g : List Trivia) (L : List Lexeme) (is : List Insertion) :
    cs.foldl Lexer.step ⟨.word, ⟨acc, g, L⟩, is⟩ = ⟨.word, ⟨cs.reverse ++ acc, g, L⟩, is⟩ := by
  induction cs generalizing acc with
  | nil => rfl
  | cons c cs ih =>
    rw [List.forall_mem_cons] at h
    simp [Lexer.step, h.1, Reading.push, ih h.2]

theorem foldl_blank {cs : List Char} (h : ∀ c ∈ cs, Text.isBlank c = true) (hne : cs ≠ [])
    (g : List Trivia) (L : List Lexeme) (is : List Insertion) :
    cs.foldl Lexer.step ⟨.start, ⟨[], g, L⟩, is⟩ = ⟨.blank, ⟨cs.reverse, g, L⟩, is⟩ := by
  have hblank {cs : List Char} (h : ∀ c ∈ cs, Text.isBlank c = true) (acc : List Char) :
      cs.foldl Lexer.step ⟨.blank, ⟨acc, g, L⟩, is⟩ = ⟨.blank, ⟨cs.reverse ++ acc, g, L⟩, is⟩ := by
    induction cs generalizing acc with
    | nil => rfl
    | cons c cs ih =>
      rw [List.forall_mem_cons] at h
      simp [Lexer.step, h.1, Reading.push, ih h.2]
  cases cs with
  | nil => exact absurd rfl hne
  | cons c cs =>
    rw [List.forall_mem_cons] at h
    have hbegin : Lexer.step ⟨.start, ⟨[], g, L⟩, is⟩ c = ⟨.blank, ⟨[c], g, L⟩, is⟩ := by
      simp [Lexer.step, Lexer.begin, h.1, Reading.push]
    rw [List.foldl_cons, hbegin, hblank h.2]
    simp

/-- A lexeme begins without regard to what ended before it. -/
theorem begin_mode (m : Mode) (r : Reading) (is : List Insertion) (c : Char) :
    Lexer.begin ⟨m, r, is⟩ c = Lexer.begin ⟨.start, r, is⟩ c := rfl

-- ---------------------------------------------------------------------------
-- Insertions
-- ---------------------------------------------------------------------------

/-- The string that goes on behind inserted code. -/
def Mode.resumes : Mode → Option StringKind
  | .string kind opens | .stringEscape kind opens => if opens then none else some kind
  | .textBlockQuote opens | .textBlockQuoteQuote opens => if opens then none else some .triple
  | _ => none

/-- The string of which the lexeme goes on with a part. -/
def resumes : Shape → Option StringKind
  | .string kind opens _ => if opens then none else some kind
  | _ => none

/-- The insertions that are open in front of a part, given those behind it were it the last. -/
def insertionsBefore : Option StringKind → List Insertion → List Insertion
  | none, is => is
  | some kind, is => ⟨kind, 0⟩ :: is

/-- The insertions that are open behind a lexeme, given those inside it. -/
def insertionsBehind : Shape → List Insertion → List Insertion
  | .string kind _ false, is => ⟨kind, 0⟩ :: is
  | _, is => is

/-- The insertions behind a brace, which is counted in the innermost. -/
def braced? (cs : List Char) : List Insertion → Option (List Insertion)
  | [] => some []
  | i :: is =>
    if cs = ['\x7b'] then some ({ i with braces := i.braces + 1 } :: is)
    else if cs = ['\x7d'] then
      if i.braces = 0 then none else some ({ i with braces := i.braces - 1 } :: is)
    else some (i :: is)

/-- The insertions inside a lexeme, given those in front of it. -/
def entered? : Option StringKind → List Insertion → Option (List Insertion)
  | none, is => some is
  | some kind, i :: is => if i = ⟨kind, 0⟩ then some is else none
  | some _, [] => none

/-- The insertions that are open behind a lexeme. -/
def next? (s : Shape) (cs : List Char) (is : List Insertion) : Option (List Insertion) :=
  if s = .symbol then braced? cs is else (entered? (resumes s) is).map (insertionsBehind s)

theorem entered_iff {k : Option StringKind} :
    entered? k p = some is ↔ p = insertionsBefore k is := by
  cases k with
  | none => simp [entered?, insertionsBefore]
  | some kind =>
    cases p with
    | nil => simp [entered?, insertionsBefore]
    | cons i js => simp [entered?, insertionsBefore]

theorem braced_other (hcs : cs ∉ [['\x7b'], ['\x7d']]) (is : List Insertion) :
    braced? cs is = some is := by
  simp only [List.mem_cons, List.not_mem_nil, or_false, not_or] at hcs
  cases is <;> simp [braced?, hcs]

theorem next_iff (hs : s = .symbol → cs ∉ [['\x7b'], ['\x7d']]) :
    next? s cs p = some q ↔
      ∃ is, p = insertionsBefore (resumes s) is ∧ insertionsBehind s is = q := by
  by_cases h : s = .symbol
  · subst h
    simp [next?, braced_other (hs rfl), resumes, insertionsBefore, insertionsBehind]
  · simp [next?, h, Option.map_eq_some_iff, entered_iff]

-- ---------------------------------------------------------------------------
-- The scanner
-- ---------------------------------------------------------------------------

/-- A character that is a lexeme of its own, unless it is a brace that ends inserted code. -/
def standsAlone (c : Char) : Bool :=
  !Text.isBlank c && !isWordStart c && c ∉ ['/', '-', '"', '\'']

theorem begin_sign (hc : standsAlone c = true) (hq : braced? [c] p = some q) (r : Reading) :
    Lexer.begin ⟨.start, r, p⟩ c = ⟨.start, r.symbol c, q⟩ := by
  simp only [standsAlone, Bool.and_eq_true, Bool.not_eq_true', decide_eq_true_eq, List.mem_cons,
    List.not_mem_nil, or_false, not_or] at hc
  have hbegin : Lexer.begin ⟨.start, r, p⟩ c =
      if c = '\x7b' || c = '\x7d' then Lexer.brace ⟨.start, r, p⟩ c
      else ⟨.start, r.symbol c, p⟩ := by
    simp [Lexer.begin, hc]
  rw [hbegin]
  cases p with
  | nil =>
    obtain rfl : [] = q := by simpa [braced?] using hq
    split <;> rfl
  | cons i is =>
    by_cases h1 : c = '\x7b'
    · subst h1
      obtain rfl := Option.some.inj hq
      rfl
    by_cases h2 : c = '\x7d'
    · subst h2
      by_cases h3 : i.braces = 0
      · simp [braced?, h3] at hq
      · obtain rfl : _ = q := by simpa [braced?, h3] using hq
        simp [Lexer.brace, h3]
    · obtain rfl : i :: is = q := by simpa [braced?, h1, h2] using hq
      simp [h1, h2]

def scanner : Scanner Lexer (List Insertion) where
  outside := []
  next? := next?
  step := Lexer.step
  finish := Lexer.finish
  fresh is g L := ⟨.start, ⟨[], g, L⟩, is⟩
  isStart c := !Text.isBlank c && isWordStart c
  isPart := isWordPart
  isSign := standsAlone
  start_solid h := by simp_all
  sign_solid h := by simp_all [standsAlone]
  next_word _ _ := rfl
  next_sign _ := rfl
  step_sign g L hc hq := begin_sign hc hq ⟨[], g, L⟩
  step_word p g L hc hcs hd := by
    simp only [Bool.and_eq_true, Bool.not_eq_true'] at hc
    have hbegin : Lexer.step ⟨.start, ⟨[], g, L⟩, p⟩ _ = ⟨.word, ⟨[_], g, L⟩, p⟩ :=
      (if_neg (by simp [hc.1])).trans (if_pos hc.2)
    rw [List.foldl_cons, hbegin, foldl_word hcs]
    simpa [Lexer.step, hd, Reading.finish] using begin_mode ..
  step_blank p g L hne hb hd := by
    rw [foldl_blank hb hne]
    simpa [Lexer.step, hd, Reading.finishBlank] using begin_mode ..
  finish_blank {b} p L hb := by
    by_cases hne : b = []
    · subst hne
      rfl
    · rw [foldl_blank hb hne]
      rfl

@[simp] theorem scanner_step (x : Lexer) (c : Char) : scanner.step x c = x.step c := rfl

@[simp] theorem scanner_fresh (is : List Insertion) (g : List Trivia) (L : List Lexeme) :
    scanner.fresh is g L = ⟨.start, ⟨[], g, L⟩, is⟩ := rfl

@[simp] theorem scanner_isPart (c : Char) : scanner.isPart c = isWordPart c := rfl

-- ---------------------------------------------------------------------------
-- Moves
-- ---------------------------------------------------------------------------

/-- What a character does to a lexer. -/
inductive Move
  /-- It belongs to what is being read. -/
  | push (m : Mode)
  /-- It is the last character of a lexeme. -/
  | close (s : Shape)
  /-- It is the last character of a comment. -/
  | closeComment
  /-- A lexeme ends in front of it. -/
  | cut (s : Shape)
  | cutBlank
  | cutComment

def Move.apply (c : Char) (r : Reading) (is : List Insertion) : Move → Lexer
  | push m => ⟨m, r.push c, is⟩
  | close s => ⟨.start, (r.push c).finish s, insertionsBehind s is⟩
  | closeComment => ⟨.start, (r.push c).finishComment, is⟩
  | cut s => Lexer.begin ⟨.start, r.finish s, is⟩ c
  | cutBlank => Lexer.begin ⟨.start, r.finishBlank, is⟩ c
  | cutComment => Lexer.begin ⟨.start, r.finishComment, is⟩ c

/-- A lexeme or a gap begins with a character that belongs to it: a sign is read at once, and a
brace may go on with a string. -/
theorem begin_move (c : Char) (is : List Insertion) :
    (∃ js, standsAlone c = true ∧ next? .symbol [c] is = some js ∧
      ∀ r, Lexer.begin ⟨.start, r, is⟩ c = ⟨.start, r.symbol c, js⟩) ∨
    (∃ kind js, c = '\x7d' ∧ is = ⟨kind, 0⟩ :: js ∧
      ∀ r, Lexer.begin ⟨.start, r, is⟩ c = ⟨.string kind false, r.push c, js⟩) ∨
    ∃ m, (∀ r js, Lexer.begin ⟨.start, r, js⟩ c = ⟨m, r.push c, js⟩) ∧ m ≠ .start ∧
      m.resumes = none ∧ (m = .blank ∨ Text.isBlank c = false) ∧
      (m = .word → isWordStart c = true) := by
  by_cases h1 : Text.isBlank c
  · exact .inr (.inr ⟨.blank, fun r js => by simp [Lexer.begin, h1], by simp, rfl, .inl rfl,
      by simp⟩)
  have hsolid : Text.isBlank c = false := by simpa using h1
  by_cases h2 : isWordStart c
  · exact .inr (.inr ⟨.word, fun r js => by simp [Lexer.begin, h1, h2], by simp, rfl, .inr hsolid,
      fun _ => h2⟩)
  have hpush (m : Mode) (h : ∀ r js, Lexer.begin ⟨.start, r, js⟩ c = ⟨m, r.push c, js⟩)
      (hm : m ≠ .start ∧ m ≠ .word ∧ m.resumes = none) :
      ∃ m, (∀ r js, Lexer.begin ⟨.start, r, js⟩ c = ⟨m, r.push c, js⟩) ∧ m ≠ .start ∧
        m.resumes = none ∧ (m = .blank ∨ Text.isBlank c = false) ∧
        (m = .word → isWordStart c = true) :=
    ⟨m, h, hm.1, hm.2.2, .inr hsolid, fun he => absurd he hm.2.1⟩
  by_cases h3 : c = '/'
  · exact .inr (.inr (hpush .slash (fun r js => by subst h3; rfl) (by decide)))
  by_cases h4 : c = '-'
  · exact .inr (.inr (hpush .dash (fun r js => by subst h4; rfl) (by decide)))
  by_cases h5 : c = '"'
  · exact .inr (.inr (hpush .quote (fun r js => by subst h5; rfl) (by decide)))
  by_cases h6 : c = '\''
  · exact .inr (.inr (hpush .apostrophe (fun r js => by subst h6; rfl) (by decide)))
  have hsign : standsAlone c = true := by simp [standsAlone, h1, h2, h3, h4, h5, h6]
  by_cases hresumed : c = '\x7d' ∧ ∃ kind js, is = ⟨kind, 0⟩ :: js
  · obtain ⟨rfl, kind, js, rfl⟩ := hresumed
    exact .inr (.inl ⟨kind, js, rfl, rfl, fun r => rfl⟩)
  · obtain ⟨js, hjs⟩ : ∃ js, braced? [c] is = some js := by
      cases is with
      | nil => exact ⟨[], rfl⟩
      | cons i js =>
        have hi : c = '\x7d' → i.braces ≠ 0 := by
          rintro rfl he
          exact hresumed ⟨rfl, i.kind, js, by rw [← he]⟩
        by_cases hc : c = '\x7d' <;> by_cases ho : c = '\x7b' <;> simp_all [braced?]
    exact .inl ⟨js, hsign, hjs, begin_sign hsign hjs⟩

theorem ending_word (h : m.ending? = some .word) : m = .word := by
  cases m <;> first | rfl | cases h

theorem ending_symbol (h : m.ending? = some .symbol) : m ≠ .start ∧ m.resumes = none := by
  cases m <;> simp_all [Mode.ending?, Mode.resumes]

/-- A step is a move that the mode and the character decide. Words go on in the mode of words only,
and blanks end as blanks. What ends in front of a character is what would end with the text. Whether
a string is gone on with does not change while it is read. -/
structure Steps (m : Mode) (c : Char) (v : Move) : Prop where
  step : ∀ r is, Lexer.step ⟨m, r, is⟩ c = v.apply c r is
  close : v ≠ .close .word := by simp
  cut : ∀ s, v = .cut s → m.ending? = some s := by simp [Mode.ending?]
  word : v = .push .word → m = .word ∧ isWordPart c = true := by simp
  busy : v ≠ .push .start := by simp
  blank : m = .blank → v = .push .blank ∨ v = .cutBlank := by simp
  pushes : ∀ m', v = .push m' → m'.resumes = m.resumes := by simp [Mode.resumes]
  ends : ∀ s, v = .close s ∨ v = .cut s → resumes s = m.resumes := by
    simp [Mode.resumes, resumes]
  inserts : ∀ s, v = .cut s → ∀ is, insertionsBehind s is = is := by simp [insertionsBehind]
  gaps : v = .closeComment ∨ v = .cutBlank ∨ v = .cutComment → m.resumes = none := by
    simp [Mode.resumes]

theorem string_steps {kind : StringKind} {opens : Bool}
    (h : ∀ r is, Lexer.step ⟨m, r, is⟩ c = Lexer.string ⟨m, r, is⟩ kind opens c)
    (hr : m.resumes = (Mode.string kind opens).resumes := by rfl)
    (hm : m ≠ .blank := by simp) : ∃ v, Steps m c v := by
  simp only [Lexer.string] at h
  have hpush {m' : Mode} (hstep : ∀ r is, Lexer.step ⟨m, r, is⟩ c = ⟨m', r.push c, is⟩)
      (hm' : m' ≠ .word ∧ m' ≠ .start) (hr' : m'.resumes = m.resumes) : ∃ v, Steps m c v :=
    ⟨.push m',
      { step := hstep
        word := by simp [hm'.1]
        busy := by simp [hm'.2]
        blank := by simp [hm]
        pushes := by simpa using hr'
        ends := by simp
        gaps := by simp }⟩
  by_cases h1 : c = '\\'
  · exact hpush (by simpa only [if_pos h1] using h) (by simp) (by rw [hr]; rfl)
  by_cases h2 : c = '"'
  · cases kind with
    | single =>
      exact ⟨.close (.string .single opens true),
        { step r is := by rw [h, if_neg h1, if_pos h2]; rfl
          blank := by simp [hm]
          ends := by
            rintro s (h | h) <;> cases h
            exact hr.symm
          gaps := by simp }⟩
    | triple =>
      exact hpush (by simpa only [if_neg h1, if_pos h2] using h) (by simp) (by rw [hr]; rfl)
  · exact hpush (by simpa only [if_neg h1, if_neg h2] using h) (by simp) (by rw [hr])

theorem character_steps (h : ∀ r is, Lexer.step ⟨m, r, is⟩ c = Lexer.character ⟨m, r, is⟩ c)
    (hr : m.resumes = none := by rfl) (hend : m.ending? = some .symbol := by rfl)
    (hm : m ≠ .blank := by simp) : ∃ v, Steps m c v := by
  simp only [Lexer.character] at h
  have hpush {m' : Mode} (hstep : ∀ r is, Lexer.step ⟨m, r, is⟩ c = ⟨m', r.push c, is⟩)
      (hm' : m' = .characterEscape ∨ m' = .character) : ∃ v, Steps m c v :=
    ⟨.push m',
      { step := hstep
        word := by rcases hm' with rfl | rfl <;> simp
        busy := by rcases hm' with rfl | rfl <;> simp
        blank := by simp [hm]
        pushes := by
          rintro _ ⟨⟩
          rcases hm' with rfl | rfl <;> exact hr.symm
        ends := by simp
        gaps := by simp }⟩
  by_cases h1 : c = '\n'
  · exact ⟨.cut .symbol,
      { step r is := by rw [h, if_pos h1]; rfl
        cut := by simpa using hend
        blank := by simp [hm]
        ends := by
          rintro s (h | h) <;> cases h
          exact hr.symm }⟩
  by_cases h2 : c = '\\'
  · exact hpush (by simpa only [if_neg h1, if_pos h2] using h) (.inl rfl)
  · exact hpush (by simpa only [if_neg h1, if_neg h2] using h) (.inr rfl)

theorem step_move (hm : m ≠ .start) (c : Char) : ∃ v, Steps m c v := by
  cases m with
  | start => exact absurd rfl hm
  | blank =>
    by_cases h : Text.isBlank c
    · exact ⟨.push .blank, { step r is := by simp [Lexer.step, h, Move.apply] }⟩
    · exact ⟨.cutBlank, { step r is := by simp [Lexer.step, h, Move.apply, begin_mode] }⟩
  | word =>
    by_cases h : isWordPart c
    · exact ⟨.push .word, { step r is := by simp [Lexer.step, h, Move.apply], word := by simp [h] }⟩
    · exact ⟨.cut .word, { step r is := by simp [Lexer.step, h, Move.apply, begin_mode] }⟩
  | dash =>
    by_cases h : c = '>' ∨ c = '-'
    · exact ⟨.close .symbol, { step r is := by simp [Lexer.step, h, Move.apply, insertionsBehind] }⟩
    · exact ⟨.cut .symbol, { step r is := by simp [Lexer.step, h, Move.apply, begin_mode] }⟩
  | slash =>
    by_cases h1 : c = '/'
    · exact ⟨.push .lineComment, { step r is := by simp [Lexer.step, h1, Move.apply] }⟩
    by_cases h2 : c = '*'
    · exact ⟨.push .blockComment, { step r is := by simp [Lexer.step, h2, Move.apply] }⟩
    · exact ⟨.cut .symbol, { step r is := by simp [Lexer.step, h1, h2, Move.apply, begin_mode] }⟩
  | lineComment =>
    by_cases h : c = '\n'
    · exact ⟨.cutComment, { step r is := by simp [Lexer.step, h, Move.apply, begin_mode] }⟩
    · exact ⟨.push .lineComment, { step r is := by simp [Lexer.step, h, Move.apply] }⟩
  | blockComment =>
    by_cases h : c = '*'
    · exact ⟨.push .blockCommentStar, { step r is := by simp [Lexer.step, h, Move.apply] }⟩
    · exact ⟨.push .blockComment, { step r is := by simp [Lexer.step, h, Move.apply] }⟩
  | blockCommentStar =>
    by_cases h1 : c = '/'
    · exact ⟨.closeComment, { step r is := by simp [Lexer.step, h1, Move.apply] }⟩
    by_cases h2 : c = '*'
    · exact ⟨.push .blockCommentStar, { step r is := by simp [Lexer.step, h2, Move.apply] }⟩
    · exact ⟨.push .blockComment, { step r is := by simp [Lexer.step, h1, h2, Move.apply] }⟩
  | quote =>
    by_cases h : c = '"'
    · exact ⟨.push .quoteQuote, { step r is := by simp [Lexer.step, h, Move.apply] }⟩
    · exact string_steps fun _ _ => if_neg h
  | quoteQuote =>
    by_cases h : c = '"'
    · exact ⟨.push (.string .triple true), { step r is := by simp [Lexer.step, h, Move.apply] }⟩
    · exact ⟨.cut (.string .single true true),
        { step r is := by simp [Lexer.step, h, Move.apply, begin_mode] }⟩
  | string kind opens => exact string_steps fun _ _ => rfl
  | stringEscape kind opens =>
    by_cases h : c = '\x7b'
    · exact ⟨.close (.string kind opens false),
        { step r is := by simp [Lexer.step, h, Move.apply, insertionsBehind] }⟩
    · exact ⟨.push (.string kind opens), { step r is := by simp [Lexer.step, h, Move.apply] }⟩
  | textBlockQuote opens =>
    by_cases h : c = '"'
    · exact ⟨.push (.textBlockQuoteQuote opens),
        { step r is := by simp [Lexer.step, h, Move.apply] }⟩
    · exact string_steps fun _ _ => if_neg h
  | textBlockQuoteQuote opens =>
    by_cases h : c = '"'
    · exact ⟨.close (.string .triple opens true),
        { step r is := by simp [Lexer.step, h, Move.apply, insertionsBehind] }⟩
    · exact string_steps fun _ _ => if_neg h
  | apostrophe =>
    by_cases h : c = '\''
    · exact ⟨.close .symbol, { step r is := by simp [Lexer.step, h, Move.apply, insertionsBehind] }⟩
    · exact character_steps fun _ _ => if_neg h
  | character =>
    by_cases h : c = '\''
    · exact ⟨.close .quoted, { step r is := by simp [Lexer.step, h, Move.apply, insertionsBehind] }⟩
    · exact character_steps fun _ _ => if_neg h
  | characterEscape => exact ⟨.push .character, { step _ _ := rfl }⟩

-- ---------------------------------------------------------------------------
-- What a lexer has read
-- ---------------------------------------------------------------------------

/-- The characters of an unfinished lexeme or gap lead to the mode, whatever insertions are open. -/
def Held (m : Mode) (cs : List Char) : Prop :=
  ∀ is g L, scanner.run (scanner.fresh (insertionsBefore m.resumes is) g L) cs =
    ⟨m, ⟨cs.reverse, g, L⟩, is⟩

/-- A sign would have been finished at once. -/
theorem Held.standsAlone_false (h : Held m [c]) (hm : m ≠ .start) (hr : m.resumes = none) :
    standsAlone c = false := by
  refine Bool.eq_false_iff.mpr fun hc => hm ?_
  have hrun := h [] [] []
  rw [hr, Scanner.run_cons, insertionsBefore, scanner.step_sign (q := []) _ _ hc rfl] at hrun
  exact (congrArg Lexer.mode hrun).symm

/-- What the lexer has read is read back, were the character the next. -/
structure Again (x : Lexer) (c : Char) : Prop where
  held : Held x.mode x.reading.current.reverse
  idle : x.mode = .start → x.reading.current = []
  solid : x.mode = .blank ∨ ∀ d ∈ x.reading.current.reverse.head?, Text.isBlank d = false
  word : x.mode = .word → scanner.isWord (String.ofList x.reading.current.reverse) = true
  parts : scanner.Parts x.reading.gap.reverse (headOr x.reading.current.reverse c)
  lexemes : scanner.Splits x.reading.lexemes.reverse
    (headOr (x.reading.gap.reverse.flatMap Trivia.chars ++ x.reading.current.reverse) c)

namespace Again

variable {x : Lexer} {r : Reading} {js : List Insertion}

theorem fresh : Again (scanner.fresh is [] []) c where
  held _ _ _ := rfl
  idle _ := rfl
  solid := .inr (by simp)
  word h := by cases h
  parts := .nil
  lexemes := trivial

theorem step_held (h : Again x c) (is : List Insertion) (g : List Trivia) (L : List Lexeme) :
    scanner.run (scanner.fresh (insertionsBefore x.mode.resumes is) g L)
      (x.reading.current.reverse ++ [c]) = Lexer.step ⟨x.mode, ⟨x.reading.current, g, L⟩, is⟩ c := by
  rw [Scanner.run_append, h.held, List.reverse_reverse]
  rfl

/-- The character belongs to what is being read. -/
theorem push (h : Again x c) (hs : ∀ g L, ∀ is, scanner.run
      (scanner.fresh (insertionsBefore m.resumes is) g L) (x.reading.current.reverse ++ [c]) =
        ⟨m, ⟨c :: x.reading.current, g, L⟩, is⟩)
    (hm : m ≠ .start)
    (hsolid : m = .blank ∨ x.mode ≠ .blank ∧ (x.reading.current = [] → Text.isBlank c = false))
    (hword : m = .word → scanner.isWord (String.ofList (x.reading.current.reverse ++ [c])) = true)
    (d : Char) : Again ⟨m, x.reading.push c, is⟩ d where
  held is g L := by simpa [Reading.push] using hs g L is
  idle h := absurd h hm
  solid := by
    refine hsolid.imp_right fun ⟨hm, hc⟩ => ?_
    have hcurrent := h.solid.resolve_left hm
    cases he : x.reading.current.reverse with
    | nil => simpa [Reading.push, he] using hc (by simpa using he)
    | cons e es => simpa [Reading.push, he] using hcurrent
  word hm := by simpa [Reading.push] using hword hm
  parts := by simpa [Reading.push, headOr_append] using h.parts
  lexemes := by simpa [Reading.push, headOr_append] using h.lexemes

/-- A lexeme is added, given the characters of it that have not been read yet. -/
theorem lexeme {cs : List Char} (h : Again x c) (is : List Insertion)
    (hcuts : scanner.Cuts s (x.reading.current.reverse ++ cs) d)
    (hhead : ∃ e es, x.reading.current.reverse ++ cs = e :: es ∧ Text.isBlank e = false)
    (hnext : headOr (x.reading.current.reverse ++ cs) d = headOr x.reading.current.reverse c)
    (hword : s = .word →
      scanner.isWord (String.ofList (x.reading.current.reverse ++ cs)) = true) :
    Again (scanner.fresh is [] (⟨x.reading.gap.reverse, s,
      String.ofList (x.reading.current.reverse ++ cs)⟩ :: x.reading.lexemes)) d where
  held _ _ _ := rfl
  idle _ := rfl
  solid := .inr (by simp)
  word h := by cases h
  parts := .nil
  lexemes := by
    obtain ⟨e, es, he, hsolid⟩ := hhead
    have hparts := h.parts
    have hread := h.lexemes
    rw [headOr_append, ← hnext] at hread
    rw [← hnext] at hparts
    simp only [scanner_fresh, List.reverse_cons, Scanner.splits_append, List.reverse_nil,
      List.flatMap_nil, List.append_nil, headOr_nil]
    refine ⟨?_, ⟨⟨e, es, by simpa using he, hsolid⟩, ?_, hword⟩, by simpa using hcuts, trivial⟩
    · simpa [lexemeChars, Lexeme.gapChars, headOr_append] using hread
    · simpa [he] using hparts

theorem trivia {t : Trivia} (h : Again x c) (is : List Insertion)
    (ht : ∀ p g L, scanner.step (scanner.run (scanner.fresh p g L) t.chars) d =
      scanner.step (scanner.fresh p (t :: g) L) d)
    (hnext : headOr t.chars d = headOr x.reading.current.reverse c) :
    Again (scanner.fresh is (t :: x.reading.gap) x.reading.lexemes) d where
  held _ _ _ := rfl
  idle _ := rfl
  solid := .inr (by simp)
  word h := by cases h
  parts := by
    intro p g L
    have hparts := h.parts p g L
    rw [← hnext] at hparts
    have hrun : scanner.run (scanner.fresh p g L)
          ((x.reading.gap.reverse.flatMap Trivia.chars ++ t.chars) ++ [d]) =
        scanner.run (scanner.fresh p (x.reading.gap ++ g) L) (t.chars ++ [d]) := by
      rw [List.append_assoc, Scanner.run_append, append_headOr t.chars d [], Scanner.run_cons,
        hparts, List.reverse_reverse, ← Scanner.run_cons, ← append_headOr]
    simp only [Scanner.run_append _ _ _ [d], Scanner.run_cons, Scanner.run_nil] at hrun
    simpa using hrun.trans (ht p (x.reading.gap ++ g) L)
  lexemes := by
    have hread := h.lexemes
    rw [headOr_append, ← hnext] at hread
    simpa [headOr_append] using hread

/-- A lexeme or a gap begins. -/
theorem begin (h : Again ⟨.start, ⟨[], g, L⟩, is⟩ c) (d : Char) :
    Again (Lexer.begin ⟨.start, ⟨[], g, L⟩, is⟩ c) d := by
  rcases begin_move c is with ⟨js, hsign, -, hv⟩ | ⟨kind, js, rfl, rfl, hv⟩ |
    ⟨m, hv, hm, hr, hsolid, hword⟩
  · have hcuts : scanner.Cuts .symbol ([] ++ [c]) d := by
      simpa [Char.toString] using Scanner.Cuts.sign (m := scanner) hsign d
    have := h.lexeme js hcuts ⟨c, [], rfl, scanner.sign_solid hsign⟩ rfl (by simp)
    simpa [hv, Reading.symbol, Reading.push, Reading.finish] using this
  · rw [hv]
    exact h.push (fun _ _ _ => rfl) (by simp) (.inr ⟨by simp, fun _ => by decide⟩) (by simp) d
  · rw [hv]
    refine h.push (fun g L js => ?_) hm (hsolid.imp_right fun hc => ⟨by simp, fun _ => hc⟩)
      (fun he => ?_) d
    · rw [hr]
      exact hv ⟨[], g, L⟩ js
    · have hc : Text.isBlank c = false := hsolid.resolve_left (by simp [he])
      exact Scanner.isWord_iff.mpr ⟨c, [], by simp, by simp [scanner, hc, hword he], by simp⟩

theorem ne_nil (h : Again x c) (hm : x.mode ≠ .start) : x.reading.current ≠ [] := by
  intro he
  have := h.held [] [] []
  simp only [he, List.reverse_nil, Scanner.run_nil, scanner_fresh, Lexer.mk.injEq] at this
  exact hm this.1.symm

theorem head_solid (h : Again x c) (hm : x.mode ≠ .start) (hb : x.mode ≠ .blank) :
    ∃ e es, x.reading.current.reverse = e :: es ∧ Text.isBlank e = false := by
  obtain ⟨e, es, he⟩ := List.exists_cons_of_ne_nil
    (List.reverse_ne_nil_iff.mpr (h.ne_nil hm))
  exact ⟨e, es, he, by simpa [he] using h.solid.resolve_left hb⟩

/-- What has been read of a lexeme is no brace, unless a string goes on with it. -/
theorem not_brace (h : Again x c) (hm : x.mode ≠ .start) (hr : x.mode.resumes = none) :
    x.reading.current.reverse ∉ [['\x7b'], ['\x7d']] := by
  intro hmem
  simp only [List.mem_cons, List.not_mem_nil, or_false] at hmem
  have hheld := h.held
  rcases hmem with he | he <;> rw [he] at hheld <;>
    exact absurd (hheld.standsAlone_false hm hr) (by decide)

/-- What one more character does keeps what has been read readable. -/
theorem step (h : ∀ c, Again x c) (c d : Char) : Again (x.step c) d := by
  obtain ⟨m, ⟨current, g, L⟩, is⟩ := x
  by_cases hm : m = .start
  · subst hm
    obtain rfl : current = [] := (h c).idle rfl
    exact (h c).begin d
  have hne := (h c).ne_nil hm
  obtain ⟨v, hv⟩ := step_move hm c
  have hstep : Lexer.step ⟨m, ⟨current, g, L⟩, is⟩ c = v.apply c ⟨current, g, L⟩ is := hv.step _ _
  have hread (is : List Insertion) (g : List Trivia) (L : List Lexeme) :
      scanner.run (scanner.fresh (insertionsBefore m.resumes is) g L) (current.reverse ++ [c]) =
        v.apply c ⟨current, g, L⟩ is :=
    ((h c).step_held is g L).trans (hv.step _ _)
  have hcut (is : List Insertion) (g : List Trivia) (L : List Lexeme) :
      scanner.step (scanner.run (scanner.fresh (insertionsBefore m.resumes is) g L)
        current.reverse) c = v.apply c ⟨current, g, L⟩ is := by
    simpa [Scanner.run_append] using hread is g L
  have hlexeme {s : Shape} (he : v = .close s ∨ v = .cut s) : ∃ e es,
      current.reverse = e :: es ∧ Text.isBlank e = false := by
    refine (h c).head_solid hm fun hb => ?_
    rcases hv.blank hb with rfl | rfl <;> simp at he
  have hgap (hend : v = .closeComment ∨ v = .cutBlank ∨ v = .cutComment) (p : List Insertion) :
      insertionsBefore m.resumes p = p := by rw [hv.gaps hend]; rfl
  rw [hstep]
  cases v with
  | push m' =>
    refine (h c).push (fun g L is => ?_) (fun he => hv.busy (he ▸ rfl)) ?_ (fun he => ?_) d
    · rw [hv.pushes m' rfl]
      exact hread is g L
    · by_cases hb : m = .blank
      · exact .inl (by simpa using hv.blank hb)
      · exact .inr ⟨hb, fun he => absurd he hne⟩
    · obtain ⟨hword, hpart⟩ := hv.word (he ▸ rfl)
      rw [String.ofList_append]
      exact Scanner.isWord_append ((h c).word hword) (by simpa using hpart)
  | close s =>
    obtain ⟨e, es, he, hsolid⟩ := hlexeme (.inl rfl)
    have hcuts : scanner.Cuts s (current.reverse ++ [c]) d := by
      intro p q g L hq
      have hlong : current.reverse ++ [c] ∉ [['\x7b'], ['\x7d']] := by simp [he]
      obtain ⟨is, rfl, rfl⟩ := (next_iff fun _ => hlong).mp hq
      rw [hv.ends s (.inl rfl), hread]
      simp [Move.apply, Reading.push, Reading.finish]
    have := (h c).lexeme (insertionsBehind s is) hcuts ⟨e, es ++ [c], by simp [he], hsolid⟩
      (by simp [he]) fun hs => absurd (by rw [hs]) hv.close
    simpa [Move.apply, Reading.push, Reading.finish] using this
  | closeComment =>
    have := (h c).trivia is (t := .comment (current.reverse ++ [c])) (d := d)
      (fun p g L => by
        have := hread p g L
        rw [hgap (.inl rfl)] at this
        rw [Trivia.chars, this]
        simp [Move.apply, Reading.push, Reading.finishComment])
      (by
        rw [Trivia.chars, headOr_append]
        rfl)
    simpa [Move.apply, Reading.push, Reading.finishComment] using this
  | cut s =>
    obtain ⟨e, es, he, hsolid⟩ := hlexeme (.inr rfl)
    have hcuts : scanner.Cuts s (current.reverse ++ []) c := by
      intro p q g L hq
      rw [List.append_nil] at hq ⊢
      have hbrace (hs : s = .symbol) : current.reverse ∉ [['\x7b'], ['\x7d']] := by
        refine (h c).not_brace hm ?_
        rw [← hv.ends s (.inr rfl), hs]
        rfl
      obtain ⟨is, rfl, rfl⟩ := (next_iff hbrace).mp hq
      rw [hv.ends s (.inr rfl), hcut, hv.inserts s rfl]
      simp [Move.apply, Reading.finish, Lexer.step]
    have := (h c).lexeme is hcuts ⟨e, es, by simp [he], hsolid⟩ (by simp)
      fun hs => by simpa using (h c).word (ending_word (hs ▸ hv.cut s rfl))
    simpa [Move.apply, Reading.finish] using this.begin d
  | cutBlank =>
    have := (h c).trivia is (t := .blank current.reverse) (d := c)
      (fun p g L => by
        have := hcut p g L
        rw [hgap (.inr (.inl rfl))] at this
        exact this.trans (by simp [Move.apply, Reading.finishBlank, Lexer.step])) rfl
    simpa [Move.apply, Reading.finishBlank] using this.begin d
  | cutComment =>
    have := (h c).trivia is (t := .comment current.reverse) (d := c)
      (fun p g L => by
        have := hcut p g L
        rw [hgap (.inr (.inr rfl))] at this
        exact this.trans (by simp [Move.apply, Reading.finishComment, Lexer.step])) rfl
    simpa [Move.apply, Reading.finishComment] using this.begin d

theorem run (h : ∀ c, Again x c) (cs : List Char) (c : Char) : Again (scanner.run x cs) c := by
  induction cs generalizing x with
  | nil => exact h c
  | cons d cs ih => exact ih fun e => step h d e

end Again

-- ---------------------------------------------------------------------------
-- The lexemes of a text
-- ---------------------------------------------------------------------------

theorem lexemes_eq (text : List Char) : lexemes text = scanner.read (withoutMark text) := rfl

/-- All lexemes of a text are read back but one that the end of the text leaves unfinished. -/
theorem lexemes_read (text : List Char) : ∃ ls last c, lexemes text = ls ++ Option.toList last ∧
    (∀ l ∈ last, ¬scanner.Final l) ∧ scanner.Splits ls c := by
  obtain ⟨⟨m, ⟨current, g, L⟩, is⟩, hx⟩ : ∃ x, scanner.run (scanner.fresh scanner.outside [] [])
    (withoutMark text) = x := ⟨_, rfl⟩
  have h (c : Char) : Again ⟨m, ⟨current, g, L⟩, is⟩ c := hx ▸ Again.run (fun _ => .fresh) _ c
  have hread : scanner.Splits L.reverse
    (headOr (g.reverse.flatMap Trivia.chars ++ current.reverse) ' ') := (h ' ').lexemes
  have hfinish : lexemes text = Lexer.finish ⟨m, ⟨current, g, L⟩, is⟩ := congrArg Lexer.finish hx
  cases hend : m.ending? with
  | none =>
    refine ⟨L.reverse, none, _, ?_, by simp, hread⟩
    simp [hfinish, Lexer.finish, hend]
  | some s =>
    have hlexeme : lexemes text = L.reverse ++ [⟨g.reverse, s, String.ofList current.reverse⟩] := by
      simp [hfinish, Lexer.finish, hend, Reading.finish]
    by_cases hs : s = .word
    · subst hs
      obtain rfl := ending_word hend
      obtain ⟨e, es, he, hsolid⟩ := (h ' ').head_solid (by simp) (by simp)
      have hword := (h ' ').word rfl
      have hcuts : scanner.Cuts .word (current.reverse ++ []) ' ' := by
        simpa using Scanner.Cuts.word hword (by decide : scanner.isPart ' ' = false)
      have := ((h ' ').lexeme is hcuts ⟨e, es, by simp [he], hsolid⟩ (by simp [he])
        fun _ => by simpa using hword).lexemes
      refine ⟨_, none, _, ?_, by simp, this⟩
      simp [hlexeme]
    · refine ⟨_, some _, _, hlexeme, ?_, hread⟩
      rintro _ ⟨⟩ (he | ⟨g, c, hc, he⟩)
      · exact hs he
      · simp only [Lexeme.mk.injEq] at he
        obtain ⟨-, rfl, htext⟩ := he
        obtain ⟨hm, hr⟩ := ending_symbol hend
        have hheld : Held m current.reverse := (h ' ').held
        have hcurrent : current.reverse = [c] := by
          simpa [Char.toString] using congrArg String.toList htext
        rw [hcurrent] at hheld
        exact absurd hc (Bool.eq_false_iff.mp (hheld.standsAlone_false hm hr))

/-- Lexemes that stand together in a text are read back elsewhere when they lead out of no place and
the last of them is a word or a sign. -/
theorem rereads_inside {text : List Char} {before ls after : List Lexeme}
    (h : lexemes text = before ++ ls ++ after) (hp : scanner.path [] ls = some [])
    (hl : ∀ l ∈ ls.getLast?, scanner.Final l) (hc : isWordPart c = false) :
    scanner.Rereads ls c := by
  obtain ⟨read, last, d, he, hlast, hread⟩ := lexemes_read text
  have hinner {back : List Lexeme} (hback : read = before ++ ls ++ back) :
      scanner.Rereads ls c := by
    rw [hback, Scanner.splits_append, Scanner.splits_append] at hread
    exact ⟨hread.1.2.final hl hc, hp⟩
  rw [h] at he
  cases last with
  | none => exact hinner (by simpa using he.symm)
  | some l =>
    rcases List.eq_nil_or_concat after with rfl | ⟨back, k, rfl⟩
    · rcases List.eq_nil_or_concat ls with rfl | ⟨front, k, rfl⟩
      · exact .nil
      · simp only [List.append_nil, Option.toList_some, List.concat_eq_append,
          ← List.append_assoc] at he
        obtain ⟨-, rfl⟩ : _ ∧ k = l := by simpa using List.append_inj' he rfl
        exact absurd (hl k (by simp)) (hlast k rfl)
    · simp only [Option.toList_some, List.concat_eq_append, ← List.append_assoc] at he
      exact hinner (List.append_inj' he rfl).1.symm

/-- A word of a text is what the lexer goes on with. -/
theorem isWord_of_mem {l : Lexeme} {text : List Char} (hl : l ∈ lexemes text)
    (hs : l.shape = .word) : scanner.isWord l.text = true := by
  obtain ⟨before, after, he⟩ := List.append_of_mem hl
  have hinside : lexemes text = before ++ [l] ++ after := by simpa using he
  have hread : scanner.Rereads [l] ' ' :=
    rereads_inside hinside (Scanner.path_word _ hs) (by simpa using .inl hs) (by decide)
  exact hread.splits.1.word hs

-- ---------------------------------------------------------------------------
-- Behind what has been read
-- ---------------------------------------------------------------------------

/-- What has been read stays. -/
theorem step_grows (x : Lexer) (c : Char) : x.reading.lexemes <:+ (x.step c).reading.lexemes := by
  have hbegin (r : Reading) (is : List Insertion) :
      r.lexemes <:+ (Lexer.begin ⟨.start, r, is⟩ c).reading.lexemes := by
    rcases begin_move c is with ⟨_, _, _, h⟩ | ⟨_, _, _, _, h⟩ | ⟨_, h, _⟩ <;> rw [h]
    · exact List.suffix_cons ..
    · exact List.suffix_rfl
    · exact List.suffix_rfl
  obtain ⟨m, r, is⟩ := x
  by_cases hm : m = .start
  · subst hm
    exact hbegin r is
  · obtain ⟨v, hv⟩ := step_move hm c
    rw [hv.step]
    cases v with
    | push | closeComment => exact List.suffix_rfl
    | close => exact List.suffix_cons ..
    | cut s => exact (List.suffix_cons ..).trans (hbegin (r.finish s) is)
    | cutBlank => exact hbegin r.finishBlank is
    | cutComment => exact hbegin r.finishComment is

theorem run_grows (x : Lexer) (cs : List Char) :
    x.reading.lexemes <:+ (scanner.run x cs).reading.lexemes := by
  induction cs generalizing x with
  | nil => exact List.suffix_rfl
  | cons c cs ih => exact (step_grows x c).trans (ih _)

theorem finish_grows (x : Lexer) : x.reading.lexemes.reverse <+: x.finish := by
  rw [Lexer.finish]
  split
  · exact List.prefix_rfl
  · exact ⟨_, (List.reverse_cons ..).symm⟩

/-- Whatever a text goes on with, the lexemes in front are read. -/
theorem lexemes_in_front {ls : List Lexeme} (h : scanner.Rereads ls c) (rest : List Char) :
    ls <+: scanner.read (written ls ++ c :: rest) := by
  have hgrows := List.reverse_prefix.mpr
    (run_grows (scanner.fresh scanner.outside [] (ls.reverse ++ [])) (c :: rest))
  rw [scanner_fresh, List.append_nil, List.reverse_reverse] at hgrows
  rw [Scanner.read, h.run_written, List.append_nil]
  exact hgrows.trans (finish_grows _)

-- ---------------------------------------------------------------------------
-- What ends a word
-- ---------------------------------------------------------------------------

theorem ends_space (t : String) (ls : List Lexeme) (c : Char) :
    scanner.isPart (headOr (written (.word " " t :: ls)) c) = false := by
  rw [written_cons, lexemeChars_word]
  exact (by decide : isWordPart ' ' = false)

theorem ends_sign (hd : isWordPart d = false) (ls : List Lexeme) (c : Char) :
    scanner.isPart (headOr (written (.sign "" d :: ls)) c) = false := by
  rw [written_cons, lexemeChars_sign]
  exact hd

-- ---------------------------------------------------------------------------
-- Literals
-- ---------------------------------------------------------------------------

/-- Some characters between quotes. -/
def literal (cs : List Char) : Lexeme :=
  ⟨[], .string .single true true, String.ofList ('"' :: cs ++ ['"'])⟩

theorem cuts_literal (hne : cs ≠ []) (h : ∀ d ∈ cs, d ∉ ['"', '\\']) :
    scanner.Cuts (.string .single true true) ('"' :: cs ++ ['"']) c := by
  have hstring {cs : List Char} (h : ∀ d ∈ cs, d ∉ ['"', '\\']) (r : List Char)
      (g : List Trivia) (L : List Lexeme) (is : List Insertion) :
      scanner.run ⟨.string .single true, ⟨r, g, L⟩, is⟩ cs =
        ⟨.string .single true, ⟨cs.reverse ++ r, g, L⟩, is⟩ := by
    induction cs generalizing r with
    | nil => rfl
    | cons d cs ih =>
      rw [List.forall_mem_cons] at h
      have hd : d ≠ '"' ∧ d ≠ '\\' := by simpa using h.1
      simp [Lexer.step, Lexer.string, hd, Reading.push, ih h.2]
  obtain ⟨d, cs, rfl⟩ := List.exists_cons_of_ne_nil hne
  rw [List.forall_mem_cons] at h
  have hd : d ≠ '"' ∧ d ≠ '\\' := by simpa using h.1
  have hopen (g : List Trivia) (L : List Lexeme) (is : List Insertion) :
      scanner.run (scanner.fresh is g L) ['"', d] =
        ⟨.string .single true, ⟨[d, '"'], g, L⟩, is⟩ := by
    have hquote : Lexer.step ⟨.start, ⟨[], g, L⟩, is⟩ '"' = ⟨.quote, ⟨['"'], g, L⟩, is⟩ := rfl
    rw [Scanner.run_cons, scanner_fresh, scanner_step, hquote]
    simp [Lexer.step, Lexer.string, hd, Reading.push]
  intro p q g L hq
  obtain rfl := Option.some.inj hq
  have hcut : '"' :: d :: cs ++ ['"'] = ['"', d] ++ cs ++ ['"'] := rfl
  rw [hcut, Scanner.run_append, Scanner.run_append, hopen, hstring h.2]
  simp [Lexer.step, Lexer.string, Reading.push, Reading.finish, insertionsBehind]

theorem rereads_literal {ls : List Lexeme} (hne : cs ≠ []) (h : ∀ d ∈ cs, d ∉ ['"', '\\'])
    (hls : scanner.Rereads ls c) : scanner.Rereads (literal cs :: ls) c := by
  have htext : (literal cs).text.toList = '"' :: cs ++ ['"'] := by simp [literal]
  refine .cons ⟨⟨'"', cs ++ ['"'], htext, by decide⟩, .nil, fun h => by cases h⟩ ?_ rfl hls
  rw [htext]
  exact cuts_literal hne h

end Scaffold.Source.Java
