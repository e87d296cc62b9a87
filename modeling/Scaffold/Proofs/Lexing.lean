import Scaffold.Proofs.Spellings

/-!
# What a lexer reads back

Between lexemes a lexer remembers nothing but what it has read. Lexemes that
are written one after another are thus read back one by one, each in front of
what is written behind it: a word in front of anything that does not go on with
it, a sign in front of everything.
-/

namespace Scaffold.Source

open Piece

-- ---------------------------------------------------------------------------
-- Written lexemes
-- ---------------------------------------------------------------------------

/-- The characters of the lexemes. -/
def written (ls : List Lexeme) : List Char := ls.flatMap lexemeChars

/-- The first of some characters, or what follows them. -/
def headOr (cs : List Char) (c : Char) : Char := cs.headD c

section

variable {c d : Char} {cs ds : List Char} {l : Lexeme} {ls ms : List Lexeme}

@[simp] theorem written_nil : written [] = [] := rfl

@[simp] theorem written_cons (l : Lexeme) (ls : List Lexeme) :
    written (l :: ls) = lexemeChars l ++ written ls := by
  simp [written]

@[simp] theorem written_append (ls ms : List Lexeme) :
    written (ls ++ ms) = written ls ++ written ms := by
  simp [written]

@[simp] theorem headOr_nil (c : Char) : headOr [] c = c := rfl

@[simp] theorem headOr_cons (d : Char) (cs : List Char) (c : Char) : headOr (d :: cs) c = d := rfl

theorem headOr_append (cs ds : List Char) (c : Char) :
    headOr (cs ++ ds) c = headOr cs (headOr ds c) := by
  cases cs <;> rfl

theorem headOr_of_ne_nil (h : cs ≠ []) (c d : Char) : headOr cs c = headOr cs d := by
  cases cs with
  | nil => exact absurd rfl h
  | cons => rfl

theorem append_headOr (cs : List Char) (c : Char) (rest : List Char) :
    cs ++ c :: rest = headOr cs c :: (cs ++ c :: rest).tail := by
  cases cs <;> rfl

theorem charsOf_flat (ls : List Lexeme) : charsOf (ls.map .lexeme) = written ls := by
  induction ls with
  | nil => rfl
  | cons l ls ih => simp [charsOf, chars, ih]

/-- Nothing but blanks. -/
def isBlankText (b : String) : Bool := b.toList.all Text.isBlank

theorem isBlankText_append (a b : String) :
    isBlankText (a ++ b) = (isBlankText a && isBlankText b) := by
  simp [isBlankText]

theorem lexemeChars_word (b t : String) : lexemeChars (.word b t) = b.toList ++ t.toList := by
  by_cases h : b = "" <;> simp [lexemeChars, Lexeme.word, Lexeme.blanks, Lexeme.gapChars, h,
    Trivia.chars]

theorem lexemeChars_sign (b : String) (c : Char) : lexemeChars (.sign b c) = b.toList ++ [c] := by
  by_cases h : b = "" <;> simp [lexemeChars, Lexeme.sign, Lexeme.blanks, Lexeme.gapChars, h,
    Trivia.chars, Char.toString]

@[simp] theorem gapChars_word (b t : String) : (Lexeme.word b t).gapChars = b.toList := by
  by_cases h : b = "" <;> simp [Lexeme.word, Lexeme.blanks, Lexeme.gapChars, h, Trivia.chars]

@[simp] theorem gapChars_sign (b : String) (c : Char) : (Lexeme.sign b c).gapChars = b.toList := by
  by_cases h : b = "" <;> simp [Lexeme.sign, Lexeme.blanks, Lexeme.gapChars, h, Trivia.chars]

/-- The text of lexemes behind blanks. -/
theorem spell_flat {ls : List Lexeme} {b t : String} (h : written ls = b.toList ++ t.toList)
    (hgap : ∀ l ∈ ls.head?, l.gapChars = b.toList) : spell (ls.map .lexeme) = t := by
  cases ls with
  | nil =>
    have ht : t = "" := by simpa using congrArg (List.drop b.toList.length) h
    rw [ht]
    rfl
  | cons l ls =>
    have hl : l.gapChars = b.toList := hgap l (by simp)
    rw [List.map_cons, spell, ← List.map_cons, charsOf_flat, h, first, hl, List.drop_left,
      String.ofList_toList]

end

-- ---------------------------------------------------------------------------
-- Scanners
-- ---------------------------------------------------------------------------

/-- A lexer of a language, with the characters that begin its words, those that go on with them
and those that are lexemes of their own. Lexemes are read in places: what a lexer keeps in mind
besides what it has read. -/
structure Scanner (σ P : Type) where
  /-- Where a text begins. -/
  outside : P
  /-- The place behind a lexeme of some shape and text, where there may be one. -/
  next? : Shape → List Char → P → Option P
  step : σ → Char → σ
  finish : σ → List Lexeme
  /-- In front of a lexeme, behind a gap and the lexemes read, both newest first. -/
  fresh : P → List Trivia → List Lexeme → σ
  isStart : Char → Bool
  isPart : Char → Bool
  isSign : Char → Bool
  start_solid {c : Char} : isStart c = true → Text.isBlank c = false
  sign_solid {c : Char} : isSign c = true → Text.isBlank c = false
  next_word (cs : List Char) (p : P) : next? .word cs p = some p
  next_sign {c : Char} : isSign c = true → next? .symbol [c] outside = some outside
  step_sign {c : Char} {p q : P} (g : List Trivia) (L : List Lexeme) : isSign c = true →
    next? .symbol [c] p = some q →
      step (fresh p g L) c = fresh q [] (⟨g.reverse, .symbol, c.toString⟩ :: L)
  step_word {c : Char} {cs : List Char} {d : Char} (p : P) (g : List Trivia)
    (L : List Lexeme) : isStart c = true → (∀ e ∈ cs, isPart e = true) → isPart d = false →
      step ((c :: cs).foldl step (fresh p g L)) d =
        step (fresh p [] (⟨g.reverse, .word, String.ofList (c :: cs)⟩ :: L)) d
  step_blank {b : List Char} {d : Char} (p : P) (g : List Trivia) (L : List Lexeme) :
    b ≠ [] → (∀ e ∈ b, Text.isBlank e = true) → Text.isBlank d = false →
      step (b.foldl step (fresh p g L)) d = step (fresh p (.blank b :: g) L) d
  finish_blank {b : List Char} (p : P) (L : List Lexeme) : (∀ e ∈ b, Text.isBlank e = true) →
    finish (b.foldl step (fresh p [] L)) = L.reverse

namespace Scanner

variable {σ P : Type} (m : Scanner σ P)

def run (x : σ) (cs : List Char) : σ := cs.foldl m.step x

@[simp] theorem run_nil (x : σ) : m.run x [] = x := rfl

@[simp] theorem run_cons (x : σ) (c : Char) (cs : List Char) :
    m.run x (c :: cs) = m.run (m.step x c) cs := rfl

theorem run_append (x : σ) (cs ds : List Char) : m.run x (cs ++ ds) = m.run (m.run x cs) ds :=
  List.foldl_append

/-- The lexemes of a text. -/
def read (text : List Char) : List Lexeme := m.finish (m.run (m.fresh m.outside [] []) text)

/-- The text is a word. -/
def isWord (t : String) : Bool :=
  match t.toList with
  | [] => false
  | c :: cs => m.isStart c && cs.all m.isPart

/-- The place behind some lexemes. -/
def path (p : P) (ls : List Lexeme) : Option P :=
  ls.foldlM (fun p l => m.next? l.shape l.text.toList p) p

/-- Wherever they may stand, the characters are read as one lexeme in front of another
character. -/
def Cuts (s : Shape) (cs : List Char) (c : Char) : Prop :=
  ∀ p q g L, m.next? s cs p = some q → m.step (m.run (m.fresh p g L) cs) c =
    m.step (m.fresh q [] (⟨g.reverse, s, String.ofList cs⟩ :: L)) c

/-- The gap is read in front of a character. -/
def Parts (gap : List Trivia) (c : Char) : Prop :=
  ∀ p g L, m.step (m.run (m.fresh p g L) (gap.flatMap Trivia.chars)) c =
    m.step (m.fresh p (gap.reverse ++ g) L) c

/-- The lexeme is read whole, whatever stands in front. -/
structure Whole (l : Lexeme) : Prop where
  solid : ∃ c cs, l.text.toList = c :: cs ∧ Text.isBlank c = false
  parts : m.Parts l.gap (headOr l.text.toList ' ')
  word : l.shape = .word → m.isWord l.text = true

/-- The lexemes are cut off one by one, in front of a character, each wherever it may stand. -/
def Splits : List Lexeme → Char → Prop
  | [], _ => True
  | l :: ls, c => m.Whole l ∧ m.Cuts l.shape l.text.toList (headOr (written ls) c) ∧ Splits ls c

/-- The lexemes are read back one by one, in front of a character, and lead out of no place. -/
structure Rereads (ls : List Lexeme) (c : Char) : Prop where
  splits : m.Splits ls c
  path : m.path m.outside ls = some m.outside

/-- A lexeme behind which anything may stand that does not go on with it, were it a word. -/
def Final (l : Lexeme) : Prop :=
  l.shape = .word ∨ ∃ g c, m.isSign c = true ∧ l = ⟨g, .symbol, c.toString⟩

variable {m} {b t : String} {c d : Char} {cs ds : List Char} {g gap : List Trivia} {l : Lexeme}
  {ls ms : List Lexeme} {p q : P}

theorem isWord_iff : m.isWord t = true ↔
    ∃ c cs, t.toList = c :: cs ∧ m.isStart c = true ∧ ∀ d ∈ cs, m.isPart d = true := by
  rw [isWord]
  split
  · next h => simp [h]
  · next c cs h =>
    simp only [h, List.cons.injEq, Bool.and_eq_true, List.all_eq_true]
    exact ⟨fun hc => ⟨c, cs, ⟨rfl, rfl⟩, hc⟩, by rintro ⟨_, _, ⟨rfl, rfl⟩, hc⟩; exact hc⟩

theorem isWord_append (ht : m.isWord t = true) (hs : ∀ c ∈ cs, m.isPart c = true) :
    m.isWord (t ++ String.ofList cs) = true := by
  obtain ⟨c, ds, he, hc, hds⟩ := isWord_iff.mp ht
  exact isWord_iff.mpr ⟨c, ds ++ cs, by simp [he], hc, by simpa [or_imp, forall_and] using ⟨hds, hs⟩⟩

-- ---------------------------------------------------------------------------
-- Places
-- ---------------------------------------------------------------------------

@[simp] theorem path_nil (p : P) : m.path p [] = some p := rfl

theorem path_cons (p : P) (l : Lexeme) (ls : List Lexeme) :
    m.path p (l :: ls) = (m.next? l.shape l.text.toList p).bind (m.path · ls) := rfl

theorem path_append (p : P) (ls ms : List Lexeme) :
    m.path p (ls ++ ms) = (m.path p ls).bind (m.path · ms) := by
  rw [path, List.foldlM_append]
  rfl

theorem path_word (p : P) (h : l.shape = .word) : m.path p [l] = some p := by
  rw [path_cons, h, m.next_word]
  rfl

theorem path_sign (g : List Trivia) (hc : m.isSign c = true) :
    m.path m.outside [⟨g, .symbol, c.toString⟩] = some m.outside := by
  have hnext : m.next? .symbol c.toString.toList m.outside = some m.outside := by
    simpa [Char.toString] using m.next_sign hc
  rw [path_cons, hnext]
  rfl

-- ---------------------------------------------------------------------------
-- Lexemes
-- ---------------------------------------------------------------------------

theorem Cuts.word (ht : m.isWord t = true) (hd : m.isPart d = false) :
    m.Cuts .word t.toList d := by
  obtain ⟨c, cs, he, hc, hcs⟩ := isWord_iff.mp ht
  intro p q g L hq
  rw [m.next_word, Option.some.injEq] at hq
  rw [he, hq]
  exact m.step_word q g L hc hcs hd

theorem Cuts.sign (hc : m.isSign c = true) (d : Char) : m.Cuts .symbol c.toString.toList d := by
  intro p q g L hq
  simp only [Char.toString, String.toList_singleton] at hq ⊢
  rw [run_cons, run_nil, m.step_sign g L hc hq]
  rfl

theorem Parts.nil : m.Parts [] c := fun _ _ _ => rfl

theorem Parts.blanks (hb : isBlankText b = true) (hc : Text.isBlank c = false) :
    m.Parts (Lexeme.blanks b) c := by
  rw [Lexeme.blanks]
  split
  · exact .nil
  · next hne =>
    intro p g L
    have hb : ∀ e ∈ b.toList, Text.isBlank e = true := by simpa [isBlankText] using hb
    simpa [Trivia.chars, run] using m.step_blank p g L (by simpa using hne) hb hc

theorem whole_word (hb : isBlankText b = true) (ht : m.isWord t = true) :
    m.Whole (.word b t) := by
  obtain ⟨c, cs, he, hc, -⟩ := isWord_iff.mp ht
  refine ⟨⟨c, cs, he, m.start_solid hc⟩, ?_, fun _ => ht⟩
  simpa [Lexeme.word, he] using Parts.blanks hb (m.start_solid hc)

theorem whole_sign (hb : isBlankText b = true) (hc : m.isSign c = true) :
    m.Whole (.sign b c) where
  solid := ⟨c, [], by simp [Lexeme.sign, Char.toString], m.sign_solid hc⟩
  parts := by simpa [Lexeme.sign, Char.toString] using Parts.blanks hb (m.sign_solid hc)
  word h := by cases h

/-- The lexeme is read whole behind blanks instead of its gap. -/
theorem Whole.regap (h : m.Whole l) (hb : isBlankText b = true) :
    m.Whole (l.regap (Lexeme.blanks b)) := by
  obtain ⟨c, cs, he, hc⟩ := h.solid
  refine ⟨⟨c, cs, he, hc⟩, ?_, h.word⟩
  simpa [he] using Parts.blanks hb hc

theorem Final.cuts (h : m.Final l) (hw : m.Whole l) (hd : m.isPart d = false) :
    m.Cuts l.shape l.text.toList d := by
  rcases h with h | ⟨g, c, hc, rfl⟩
  · rw [h]
    exact .word (hw.word h) hd
  · exact .sign hc d

theorem splits_append :
    m.Splits (ls ++ ms) c ↔ m.Splits ls (headOr (written ms) c) ∧ m.Splits ms c := by
  induction ls with
  | nil => simp [Splits]
  | cons l ls ih => simp [Splits, ih, headOr_append, and_assoc]

namespace Splits

/-- Where the last lexeme is a word or a sign, anything may stand behind that does not go on with
a word. -/
theorem final (h : m.Splits ls c) (hl : ∀ l ∈ ls.getLast?, m.Final l)
    (hd : m.isPart d = false) : m.Splits ls d := by
  induction ls with
  | nil => trivial
  | cons l ls ih =>
    obtain ⟨hw, hcut, hls⟩ := h
    cases ls with
    | nil => exact ⟨hw, (hl l (by simp)).cuts hw hd, trivial⟩
    | cons k ls =>
      have hne : written (k :: ls) ≠ [] := by
        obtain ⟨c, cs, he, -⟩ := hls.1.solid
        simp [lexemeChars, he]
      refine ⟨hw, ?_, ih hls fun k hk => hl k (by simpa using hk)⟩
      rwa [headOr_of_ne_nil hne d c]

theorem run_written (h : m.Splits ls c) (hp : m.path p ls = some q) (L : List Lexeme)
    (rest : List Char) : m.run (m.fresh p [] L) (written ls ++ c :: rest) =
      m.run (m.fresh q [] (ls.reverse ++ L)) (c :: rest) := by
  induction ls generalizing p L with
  | nil =>
    obtain rfl := Option.some.inj hp
    rfl
  | cons l ls ih =>
    obtain ⟨hl, hcut, hls⟩ := h
    obtain ⟨d, ds, hd, -⟩ := hl.solid
    obtain ⟨r, hr, hrest⟩ := Option.bind_eq_some_iff.mp hp
    have hgap : m.run (m.fresh p [] L) (l.gapChars ++ l.text.toList) =
        m.run (m.fresh p l.gap.reverse L) l.text.toList := by
      have hparts := hl.parts p [] L
      rw [hd, headOr_cons, List.append_nil] at hparts
      rw [run_append, hd, run_cons, run_cons, ← hparts, Lexeme.gapChars]
    have hnext := append_headOr (written ls) c rest
    rw [written_cons, lexemeChars, List.append_assoc, run_append, hgap, hnext, run_cons,
      hcut _ _ _ _ hr, ← run_cons, ← hnext, List.reverse_reverse, String.ofList_toList,
      ih hls hrest]
    simp

end Splits

namespace Rereads

theorem nil : m.Rereads [] c := ⟨trivial, rfl⟩

/-- A lexeme is read that does not lead to another place. -/
theorem cons (hl : m.Whole l) (hcut : m.Cuts l.shape l.text.toList (headOr (written ls) c))
    (hp : m.path m.outside [l] = some m.outside) (h : m.Rereads ls c) :
    m.Rereads (l :: ls) c where
  splits := ⟨hl, hcut, h.splits⟩
  path := by
    rw [← List.singleton_append, path_append, hp]
    exact h.path

theorem word (hb : isBlankText b = true) (ht : m.isWord t = true)
    (hd : m.isPart (headOr (written ls) c) = false) (h : m.Rereads ls c) :
    m.Rereads (.word b t :: ls) c :=
  cons (whole_word hb ht) (.word ht hd) (path_word _ rfl) h

theorem sign (hb : isBlankText b = true) (hd : m.isSign d = true) (h : m.Rereads ls c) :
    m.Rereads (.sign b d :: ls) c :=
  cons (whole_sign hb hd) (.sign hd _) (path_sign _ hd) h

theorem append (hl : m.Rereads ls (headOr (written ms) c)) (hm : m.Rereads ms c) :
    m.Rereads (ls ++ ms) c where
  splits := splits_append.mpr ⟨hl.splits, hm.splits⟩
  path := by
    rw [path_append, hl.path]
    exact hm.path

/-- Blanks may stand in front instead of the first gap. -/
theorem regap (h : m.Rereads (l :: ls) c) (hb : isBlankText b = true) :
    m.Rereads (l.regap (Lexeme.blanks b) :: ls) c :=
  ⟨⟨h.splits.1.regap hb, h.splits.2.1, h.splits.2.2⟩, h.path⟩

theorem run_written (h : m.Rereads ls c) (L : List Lexeme) (rest : List Char) :
    m.run (m.fresh m.outside [] L) (written ls ++ c :: rest) =
      m.run (m.fresh m.outside [] (ls.reverse ++ L)) (c :: rest) :=
  h.splits.run_written h.path L rest

end Rereads

/-- A text that ends with blanks is read as the lexemes that are written in front. -/
theorem read_written (h : m.Rereads ls c) (hb : ∀ e ∈ c :: cs, Text.isBlank e = true) :
    m.read (written ls ++ c :: cs) = ls := by
  rw [read, h.run_written, run, m.finish_blank _ _ hb]
  simp

/-- A text that ends with a sign is read as its lexemes. -/
theorem read_written_sign (hb : isBlankText b = true) (hc : m.isSign c = true)
    (h : m.Rereads ls (headOr (b.toList ++ [c]) ' ')) :
    m.read (written (ls ++ [.sign b c])) = ls ++ [.sign b c] := by
  have hlast : m.run (m.fresh m.outside [] ls.reverse) (lexemeChars (.sign b c)) =
      m.fresh m.outside [] (.sign b c :: ls.reverse) := by
    have hparts := (whole_sign hb hc).parts m.outside [] ls.reverse
    simp only [Lexeme.sign, Char.toString, String.toList_singleton, headOr_cons,
      List.append_nil] at hparts
    rw [lexemeChars, Lexeme.gapChars, run_append]
    simp [Lexeme.sign, Char.toString, hparts, m.step_sign _ _ hc (m.next_sign hc)]
  have hwritten : written (ls ++ [.sign b c]) =
      written ls ++ headOr (b.toList ++ [c]) ' ' :: (b.toList ++ [c]).tail := by
    rw [written_append, written_cons, written_nil, List.append_nil, lexemeChars_sign]
    cases b.toList <;> rfl
  have hback : headOr (b.toList ++ [c]) ' ' :: (b.toList ++ [c]).tail =
      lexemeChars (.sign b c) := by
    rw [lexemeChars_sign]
    cases b.toList <;> rfl
  rw [hwritten, read, h.run_written, hback, List.append_nil, hlast]
  simpa [run] using m.finish_blank (b := []) m.outside (Lexeme.sign b c :: ls.reverse) (by simp)

end Scanner

end Scaffold.Source
