import Scaffold.Proofs.Java.Lexing

/-!
# Blanks and comments between lexemes

More blanks and comments between two lexemes of a text leave all lexemes as
they are but for the gap in front of the second. A comment has to begin behind
something that is not itself a slash: two slashes begin another comment.
-/

namespace Scaffold.Source.Java

variable {c : Char} {cs t front back : List Char} {x y : Lexer} {L : List Lexeme}
  {is : List Insertion}

/-- Blanks, line breaks and comments. A line comment has its line end with it. -/
inductive Spacing : List Char → Prop
  | blanks {b : List Char} : (∀ c ∈ b, Text.isBlank c = true) → Spacing b
  | line {cs : List Char} : '\n' ∉ cs → Spacing ('/' :: '/' :: cs ++ ['\n'])
  | block {cs : List Char} : ¬['*', '/'] <:+: cs → Spacing ('/' :: '*' :: cs ++ ['*', '/'])
  | append {a b : List Char} : Spacing a → Spacing b → Spacing (a ++ b)

/-- The lexemes have been read, the insertions are open, and nothing is being read but blanks. -/
structure Idle (L : List Lexeme) (is : List Insertion) (x : Lexer) : Prop where
  lexemes : x.reading.lexemes = L
  insertions : x.insertions = is
  mode : x.mode = .start ∧ x.reading.current = [] ∨ x.mode = .blank

namespace Idle

theorem blank (h : Idle L is x) (hc : Text.isBlank c = true) : Idle L is (x.step c) := by
  obtain ⟨m, r, js⟩ := x
  obtain ⟨hm, -⟩ | hm := h.mode <;> obtain rfl : m = _ := hm
  · have hstep : Lexer.step ⟨.start, r, js⟩ c = ⟨.blank, r.push c, js⟩ := if_pos hc
    rw [hstep]
    exact ⟨h.lexemes, h.insertions, .inr rfl⟩
  · have hstep : Lexer.step ⟨.blank, r, js⟩ c = ⟨.blank, r.push c, js⟩ := if_pos hc
    rw [hstep]
    exact ⟨h.lexemes, h.insertions, .inr rfl⟩

/-- Anything but a blank begins behind a finished gap. -/
theorem solid (h : Idle L is x) (hc : Text.isBlank c = false) :
    ∃ g, x.step c = Lexer.begin ⟨.start, ⟨[], g, L⟩, is⟩ c := by
  obtain ⟨m, ⟨current, g, L'⟩, js⟩ := x
  obtain rfl : L' = L := h.lexemes
  obtain rfl : js = is := h.insertions
  obtain ⟨hm, hcurrent⟩ | hm := h.mode <;> obtain rfl : m = _ := hm
  · obtain rfl : current = [] := hcurrent
    exact ⟨g, rfl⟩
  · exact ⟨.blank current.reverse :: g, if_neg (by simp [hc])⟩

theorem slash (h : Idle L is x) : ∃ r, x.step '/' = ⟨.slash, r, is⟩ ∧ r.lexemes = L := by
  obtain ⟨g, hg⟩ := h.solid (c := '/') (by decide)
  exact ⟨_, hg, rfl⟩

end Idle

-- ---------------------------------------------------------------------------
-- Comments
-- ---------------------------------------------------------------------------

theorem foldl_lineComment (h : '\n' ∉ cs) (r : Reading) : ∃ r',
    cs.foldl Lexer.step ⟨.lineComment, r, is⟩ = ⟨.lineComment, r', is⟩ ∧
      r'.lexemes = r.lexemes := by
  induction cs generalizing r with
  | nil => exact ⟨r, rfl, rfl⟩
  | cons c cs ih =>
    simp only [List.mem_cons, not_or] at h
    have hstep : Lexer.step ⟨.lineComment, r, is⟩ c = ⟨.lineComment, r.push c, is⟩ :=
      if_neg (Ne.symm h.1)
    obtain ⟨r', he, hl⟩ := ih h.2 (r.push c)
    exact ⟨r', by rw [List.foldl_cons, hstep, he], hl⟩

/-- A block comment ends with the first star and slash, of which the star may have been read. -/
theorem foldl_blockComment {m : Mode} (hm : m = .blockComment ∧ ¬['*', '/'] <:+: cs ∨
      m = .blockCommentStar ∧ ¬['*', '/'] <:+: '*' :: cs) (r : Reading) : ∃ r',
    (cs ++ ['*', '/']).foldl Lexer.step ⟨m, r, is⟩ = ⟨.start, r', is⟩ ∧ r'.lexemes = r.lexemes ∧
      r'.current = [] := by
  induction cs generalizing m r with
  | nil => obtain ⟨rfl, -⟩ | ⟨rfl, -⟩ := hm <;> exact ⟨_, rfl, rfl, rfl⟩
  | cons c cs ih =>
    have htail {d : Char} (h : ¬['*', '/'] <:+: d :: cs) : ¬['*', '/'] <:+: cs :=
      fun hi => h (hi.trans (List.suffix_cons ..).isInfix)
    have hpush {m' : Mode} (hstep : Lexer.step ⟨m, r, is⟩ c = ⟨m', r.push c, is⟩)
        (hm' : m' = .blockComment ∧ ¬['*', '/'] <:+: cs ∨
          m' = .blockCommentStar ∧ ¬['*', '/'] <:+: '*' :: cs) : ∃ r',
        ((c :: cs) ++ ['*', '/']).foldl Lexer.step ⟨m, r, is⟩ = ⟨.start, r', is⟩ ∧
          r'.lexemes = r.lexemes ∧ r'.current = [] := by
      rw [List.cons_append, List.foldl_cons, hstep]
      exact ih hm' (r.push c)
    by_cases hstar : c = '*'
    · subst hstar
      obtain ⟨rfl, h⟩ | ⟨rfl, h⟩ := hm
      · exact hpush rfl (.inr ⟨rfl, h⟩)
      · exact hpush rfl (.inr ⟨rfl, fun hi => h (hi.trans (List.suffix_cons ..).isInfix)⟩)
    · obtain ⟨rfl, h⟩ | ⟨rfl, h⟩ := hm
      · exact hpush (if_neg hstar) (.inl ⟨rfl, htail h⟩)
      · have hslash : c ≠ '/' := by
          rintro rfl
          exact h (List.prefix_append ['*', '/'] cs).isInfix
        have hstep : Lexer.step ⟨.blockCommentStar, r, is⟩ c = ⟨.blockComment, r.push c, is⟩ :=
          (if_neg hslash).trans (if_neg hstar)
        exact hpush hstep (.inl ⟨rfl, htail fun hi => h (hi.trans (List.suffix_cons ..).isInfix)⟩)

/-- No blank goes on with a word. -/
theorem isWordPart_blank (h : Text.isBlank c = true) : isWordPart c = false := by
  let codes := [9, 10, 11, 12, 13, 0x20, 0x85, 0xA0, 0x1680] ++ List.range' 0x2000 11 ++
    [0x2028, 0x2029, 0x202F, 0x205F, 0x3000]
  have hcode : c.toNat ∈ codes := by
    simp only [Text.isBlank, Bool.or_eq_true, Bool.and_eq_true, decide_eq_true_eq, beq_iff_eq] at h
    simp only [codes, List.mem_append, List.mem_cons, List.not_mem_nil, List.mem_range'_1]
    omega
  have hnone : ∀ n ∈ codes, isWordPart (Char.ofNat n) = false := by decide +kernel
  simpa using hnone _ hcode

namespace Spacing

/-- Spacing adds no lexeme. -/
theorem idle (ht : Spacing t) (h : Idle L is x) : Idle L is (t.foldl Lexer.step x) := by
  induction ht generalizing x with
  | @blanks b hb =>
    induction b generalizing x with
    | nil => exact h
    | cons c b ih =>
      rw [List.forall_mem_cons] at hb
      exact ih hb.2 (h.blank hb.1)
  | line hcs =>
    obtain ⟨r, hslash, hr⟩ := h.slash
    obtain ⟨r', hcomment, hr'⟩ := foldl_lineComment hcs (r.push '/')
    have hopen : Lexer.step ⟨.slash, r, is⟩ '/' = ⟨.lineComment, r.push '/', is⟩ := rfl
    rw [List.cons_append, List.cons_append, List.foldl_cons, List.foldl_cons, hslash, hopen,
      List.foldl_append, hcomment]
    exact ⟨hr'.trans hr, rfl, .inr rfl⟩
  | block hcs =>
    obtain ⟨r, hslash, hr⟩ := h.slash
    obtain ⟨r', hcomment, hr', hcurrent⟩ := foldl_blockComment (.inl ⟨rfl, hcs⟩) (r.push '*')
    have hopen : Lexer.step ⟨.slash, r, is⟩ '*' = ⟨.blockComment, r.push '*', is⟩ := rfl
    rw [List.cons_append, List.cons_append, List.foldl_cons, List.foldl_cons, hslash, hopen,
      hcomment]
    exact ⟨hr'.trans hr, rfl, .inl ⟨rfl, hcurrent⟩⟩
  | append _ _ iha ihb =>
    rw [List.foldl_append]
    exact ihb (iha h)

theorem head (ht : Spacing t) : ∀ c ∈ t.head?, Text.isBlank c = true ∨ c = '/' := by
  induction ht with
  | blanks hb => exact fun c hc => .inl (hb c (List.mem_of_mem_head? hc))
  | line | block => exact fun c hc => .inr (by simpa using hc.symm)
  | @append a b _ _ iha ihb =>
    cases a with
    | nil => exact ihb
    | cons => exact iha

end Spacing

-- ---------------------------------------------------------------------------
-- Behind whole lexemes
-- ---------------------------------------------------------------------------

/-- Neither a comment nor a literal is open. -/
def Mode.rests : Mode → Bool
  | .start | .blank | .word | .dash | .slash | .quoteQuote => true
  | _ => false

/-- Behind whole lexemes spacing ends the last of them, unless it makes a comment of it. -/
theorem Spacing.settles (ht : Spacing t) (hne : t ≠ []) (hm : x.mode.rests = true)
    (hstart : x.mode = .start → x.reading.current = [])
    (hslash : x.mode = .slash → t.head? ≠ some '/') :
    Idle x.finish.reverse x.insertions (t.foldl Lexer.step x) := by
  obtain ⟨c, cs, rfl⟩ := List.exists_cons_of_ne_nil hne
  have hc : Text.isBlank c = true ∨ c = '/' := ht.head c rfl
  have hcut (hstep : x.step c = Lexer.step ⟨.start, ⟨[], [], x.finish.reverse⟩, x.insertions⟩ c) :
      Idle x.finish.reverse x.insertions ((c :: cs).foldl Lexer.step x) := by
    rw [List.foldl_cons, hstep, ← List.foldl_cons]
    exact ht.idle ⟨rfl, rfl, .inl ⟨rfl, rfl⟩⟩
  have hother {d : Char} (hd : Text.isBlank d = false) (hd' : d ≠ '/') : c ≠ d := by
    rintro rfl
    exact hc.elim (by simp [hd]) hd'
  obtain ⟨m, r, is⟩ := x
  cases m with
  | start =>
    exact ht.idle ⟨by simp [Lexer.finish, Mode.ending?], rfl, .inl ⟨rfl, hstart rfl⟩⟩
  | blank => exact ht.idle ⟨by simp [Lexer.finish, Mode.ending?], rfl, .inr rfl⟩
  | word =>
    have hpart : isWordPart c = false := by
      rcases hc with hc | rfl
      · exact isWordPart_blank hc
      · decide
    refine hcut ?_
    simp [Lexer.step, hpart, Lexer.finish, Mode.ending?, Reading.finish, begin_mode .word]
  | dash =>
    refine hcut ?_
    simp [Lexer.step, Lexer.finish, Mode.ending?, Reading.finish, begin_mode .dash,
      hother (d := '>') (by decide) (by decide), hother (d := '-') (by decide) (by decide)]
  | slash =>
    have hc' : c ≠ '/' := fun he => hslash rfl (by simp [he])
    refine hcut ?_
    simp [Lexer.step, Lexer.finish, Mode.ending?, Reading.finish, begin_mode .slash, hc',
      hother (d := '*') (by decide) (by decide)]
  | quoteQuote =>
    refine hcut ?_
    simp [Lexer.step, Lexer.finish, Mode.ending?, Reading.finish, begin_mode .quoteQuote,
      hother (d := '"') (by decide) (by decide)]
  | _ => cases hm

-- ---------------------------------------------------------------------------
-- In front of whole lexemes
-- ---------------------------------------------------------------------------

/-- The lexemes with more in front of the first of them. -/
def widen (g : List Trivia) : List Lexeme → List Lexeme
  | [] => []
  | l :: ls => l.regap (g ++ l.gap) :: ls

/-- What has been read, were a gap and other lexemes read before, both newest first. -/
def behind (r : Reading) (g : List Trivia) (L : List Lexeme) : Reading where
  current := r.current
  gap := if r.lexemes = [] then r.gap ++ g else r.gap
  lexemes := (widen g.reverse r.lexemes.reverse).reverse ++ L

def Lexer.behind (x : Lexer) (g : List Trivia) (L : List Lexeme) : Lexer :=
  { x with reading := Java.behind x.reading g L }

section

variable {g : List Trivia} {r : Reading} {s : Shape}

theorem push_behind : (behind r g L).push c = behind (r.push c) g L := rfl

theorem finish_behind : (behind r g L).finish s = behind (r.finish s) g L := by
  obtain ⟨current, gap, ls⟩ := r
  cases h : ls.reverse with
  | nil =>
    obtain rfl : ls = [] := List.reverse_eq_nil_iff.mp h
    simp [behind, Reading.finish, widen, Lexeme.regap]
  | cons l ks =>
    have hne : ls ≠ [] := by
      rintro rfl
      cases h
    simp [behind, Reading.finish, widen, h, hne]

theorem finishBlank_behind : (behind r g L).finishBlank = behind r.finishBlank g L := by
  by_cases h : r.lexemes = [] <;> simp [behind, Reading.finishBlank, h]

theorem finishComment_behind : (behind r g L).finishComment = behind r.finishComment g L := by
  by_cases h : r.lexemes = [] <;> simp [behind, Reading.finishComment, h]

theorem begin_behind (r : Reading) (is : List Insertion) (c : Char) :
    Lexer.begin ⟨.start, behind r g L, is⟩ c = (Lexer.begin ⟨.start, r, is⟩ c).behind g L := by
  rcases begin_move c is with ⟨_, _, _, h⟩ | ⟨_, _, _, _, h⟩ | ⟨_, h, _⟩ <;> rw [h, h]
  · simp only [Lexer.behind, Reading.symbol, push_behind, finish_behind]
  · rfl
  · rfl

/-- What stands before changes nothing about a step. -/
theorem step_behind (x : Lexer) (c : Char) : (x.behind g L).step c = (x.step c).behind g L := by
  obtain ⟨m, r, is⟩ := x
  by_cases hm : m = .start
  · subst hm
    exact begin_behind r is c
  · obtain ⟨v, hv⟩ := step_move hm c
    rw [Lexer.behind, hv.step, hv.step]
    cases v with
    | push m => rfl
    | close s => simp only [Move.apply, Lexer.behind, push_behind, finish_behind]
    | closeComment => simp only [Move.apply, Lexer.behind, push_behind, finishComment_behind]
    | cut s => simp only [Move.apply, finish_behind, begin_behind]
    | cutBlank => simp only [Move.apply, finishBlank_behind, begin_behind]
    | cutComment => simp only [Move.apply, finishComment_behind, begin_behind]

theorem foldl_behind (x : Lexer) (cs : List Char) :
    (cs.foldl Lexer.step (x.behind g L)).finish =
      L.reverse ++ widen g.reverse (cs.foldl Lexer.step x).finish := by
  induction cs generalizing x with
  | nil =>
    have hlexemes (r : Reading) : (behind r g L).lexemes.reverse =
        L.reverse ++ widen g.reverse r.lexemes.reverse := by simp [behind]
    cases hend : x.mode.ending? with
    | none => simp [Lexer.finish, Lexer.behind, hend, hlexemes]
    | some s => simp [Lexer.finish, Lexer.behind, hend, finish_behind, hlexemes]
  | cons c cs ih => rw [List.foldl_cons, List.foldl_cons, step_behind, ih]

end

namespace Idle

theorem finish (h : Idle L is x) : x.finish = L.reverse := by
  have hend : x.mode.ending? = none := by
    rcases h.mode with ⟨hm, -⟩ | hm <;> rw [hm] <;> rfl
  simp [Lexer.finish, hend, h.lexemes]

/-- Where nothing is being read, the lexemes of what follows are added; only the gap in front of
them depends on what has been read. -/
theorem lexemes_behind {l : Lexeme} {ls : List Lexeme} (hx : Idle L is x) (hy : Idle L is y)
    (h : (cs.foldl Lexer.step x).finish = L.reverse ++ l :: ls) :
    ∃ g, (cs.foldl Lexer.step y).finish = L.reverse ++ l.regap g :: ls := by
  induction cs generalizing x y with
  | nil =>
    rw [List.foldl_nil, hx.finish] at h
    simp at h
  | cons c cs ih =>
    by_cases hc : Text.isBlank c = true
    · exact ih (hx.blank hc) (hy.blank hc) h
    · rw [Bool.not_eq_true] at hc
      obtain ⟨g, hg⟩ := hx.solid hc
      obtain ⟨g', hg'⟩ := hy.solid hc
      have hempty (g : List Trivia) : (⟨[], g, L⟩ : Reading) = behind {} g L := by
        simp [behind, widen]
      rw [List.foldl_cons, hg, hempty, begin_behind, foldl_behind, List.append_cancel_left_eq] at h
      rw [List.foldl_cons, hg', hempty, begin_behind, foldl_behind]
      generalize (cs.foldl Lexer.step (Lexer.begin ⟨.start, {}, is⟩ c)).finish = read at h
      cases read with
      | nil => cases h
      | cons k ks =>
        obtain ⟨rfl, rfl⟩ := List.cons.inj h
        exact ⟨_, rfl⟩

end Idle

-- ---------------------------------------------------------------------------
-- What is being read
-- ---------------------------------------------------------------------------

/-- So many characters have been read since the last lexeme. -/
def pending (r : Reading) : Nat := (r.gap.reverse.flatMap Trivia.chars).length + r.current.length

@[simp] theorem pending_push (r : Reading) (c : Char) : pending (r.push c) = pending r + 1 := by
  simp [pending, Reading.push, Nat.add_assoc]

@[simp] theorem pending_finishBlank (r : Reading) : pending r.finishBlank = pending r := by
  simp [pending, Reading.finishBlank, Trivia.chars]

@[simp] theorem pending_finishComment (r : Reading) : pending r.finishComment = pending r := by
  simp [pending, Reading.finishComment, Trivia.chars]

/-- Behind the lexemes stands one of so many characters at least, as far as it has been read. -/
def Owes (n : Nat) (L : List Lexeme) (r : Reading) : Prop :=
  ∃ ks, r.lexemes = ks ++ L ∧ (ks = [] → n ≤ pending r) ∧
    ∀ k ∈ ks.getLast?, n ≤ (Piece.lexemeChars k).length

namespace Owes

variable {n : Nat} {r : Reading}

theorem refl (r : Reading) : Owes (pending r) r.lexemes r :=
  ⟨[], rfl, fun _ => Nat.le_refl _, by simp⟩

/-- More is read of a lexeme or a gap. -/
theorem more {r' : Reading} (h : Owes n L r) (hl : r'.lexemes = r.lexemes)
    (hp : pending r ≤ pending r') : Owes n L r' := by
  obtain ⟨ks, hks, hnil, hlast⟩ := h
  exact ⟨ks, hl.trans hks, fun he => Nat.le_trans (hnil he) hp, hlast⟩

theorem push (h : Owes n L r) (c : Char) : Owes n L (r.push c) :=
  h.more rfl (by simp)

theorem finishBlank (h : Owes n L r) : Owes n L r.finishBlank :=
  h.more rfl (by simp)

theorem finishComment (h : Owes n L r) : Owes n L r.finishComment :=
  h.more rfl (by simp)

theorem finish (h : Owes n L r) (s : Shape) : Owes n L (r.finish s) := by
  obtain ⟨ks, hks, hnil, hlast⟩ := h
  refine ⟨⟨r.gap.reverse, s, String.ofList r.current.reverse⟩ :: ks, by simp [Reading.finish, hks],
    by simp, fun k hk => ?_⟩
  cases ks with
  | nil =>
    obtain rfl := Option.some.inj hk
    simpa [Piece.lexemeChars, Lexeme.gapChars, pending] using hnil rfl
  | cons l ks => exact hlast k (by simpa using hk)

/-- Whatever begins with the character, the character belongs to it. -/
theorem begin (h : Owes n L (r.push c)) (is : List Insertion) :
    Owes n L (Lexer.begin ⟨.start, r, is⟩ c).reading := by
  rcases begin_move c is with ⟨_, _, _, he⟩ | ⟨_, _, _, _, he⟩ | ⟨_, he, _⟩ <;> rw [he]
  · exact h.finish .symbol
  · exact h
  · exact h

theorem step (h : Owes n L x.reading) (c : Char) : Owes n L (x.step c).reading := by
  obtain ⟨m, r, is⟩ := x
  by_cases hm : m = .start
  · subst hm
    exact begin (h.push c) is
  · obtain ⟨v, hv⟩ := step_move hm c
    rw [hv.step]
    cases v with
    | push m => exact h.push c
    | close s => exact (h.push c).finish s
    | closeComment => exact (h.push c).finishComment
    | cut s => exact begin ((h.finish s).push c) is
    | cutBlank => exact begin (h.finishBlank.push c) is
    | cutComment => exact begin (h.finishComment.push c) is

theorem foldl (h : Owes n L x.reading) (cs : List Char) :
    Owes n L (cs.foldl Lexer.step x).reading := by
  induction cs generalizing x with
  | nil => exact h
  | cons c cs ih => exact ih (h.step c)

/-- The lexeme is read when the text ends. -/
theorem ended (h : Owes n L x.reading) :
    ∃ ks, x.finish = L.reverse ++ ks ∧ ∀ k ∈ ks.head?, n ≤ (Piece.lexemeChars k).length := by
  have hread {r : Reading} (h : Owes n L r) : ∃ ks, r.lexemes.reverse = L.reverse ++ ks ∧
      ∀ k ∈ ks.head?, n ≤ (Piece.lexemeChars k).length := by
    obtain ⟨ks, hks, -, hlast⟩ := h
    exact ⟨ks.reverse, by simp [hks], by simpa using hlast⟩
  rw [Lexer.finish]
  split
  · exact hread h
  · exact hread (h.finish _)

end Owes

/-- Where another lexeme than the last follows, the last one ends in front of the next
character. -/
theorem cut_behind {l : Lexeme} {ls : List Lexeme} (hm : x.mode.rests = true)
    (hstart : x.mode = .start → x.reading.current = [])
    (h : (cs.foldl Lexer.step x).finish = x.finish ++ l :: ls) :
    ∃ y, Idle x.finish.reverse x.insertions y ∧ cs.foldl Lexer.step x = cs.foldl Lexer.step y := by
  obtain ⟨m, r, is⟩ := x
  cases hend : m.ending? with
  | none =>
    refine ⟨_, ⟨by simp [Lexer.finish, hend], rfl, ?_⟩, rfl⟩
    cases m with
    | start => exact .inl ⟨rfl, hstart rfl⟩
    | blank => exact .inr rfl
    | lineComment | blockComment | blockCommentStar => cases hm
    | _ => cases hend
  | some s =>
    have hfinish : Lexer.finish ⟨m, r, is⟩ = (r.finish s).lexemes.reverse := by
      simp [Lexer.finish, hend]
    have hne : m ≠ .start := by
      rintro rfl
      cases hend
    cases cs with
    | nil => simp at h
    | cons c cs =>
      obtain ⟨v, hv⟩ := step_move hne c
      have hstep : Lexer.step ⟨m, r, is⟩ c = v.apply c r is := hv.step r is
      -- were the character part of the lexeme, the lexeme would be longer
      have hlonger (howes : Owes (pending r + 1) r.lexemes (v.apply c r is).reading) : False := by
        obtain ⟨ks, hks, hhead⟩ := (howes.foldl cs).ended
        rw [List.foldl_cons, hstep, hks, hfinish] at h
        simp only [Reading.finish, List.reverse_cons, List.append_assoc,
          List.append_cancel_left_eq, List.cons_append, List.nil_append] at h
        have hlength := hhead _ (by rw [h]; rfl)
        simp only [Piece.lexemeChars, Lexeme.gapChars, List.length_append, String.toList_ofList,
          List.length_reverse, pending] at hlength
        omega
      have hpushed : Owes (pending r + 1) r.lexemes (r.push c) :=
        pending_push r c ▸ .refl (r.push c)
      cases v with
      | push m => exact (hlonger hpushed).elim
      | close s => exact (hlonger (hpushed.finish s)).elim
      | closeComment => exact (hlonger hpushed.finishComment).elim
      | cut s' =>
        obtain rfl : s = s' := Option.some.inj (hend.symm.trans (hv.cut s' rfl))
        refine ⟨⟨.start, r.finish s, is⟩, ⟨by simp [hfinish], rfl, .inl ⟨rfl, rfl⟩⟩, ?_⟩
        rw [List.foldl_cons, hstep]
        rfl
      | cutBlank =>
        have hblank : Owes (pending r + 1) r.lexemes (r.finishBlank.push c) :=
          hpushed.more rfl (by simp)
        exact (hlonger (hblank.begin is)).elim
      | cutComment =>
        have hcomment : Owes (pending r + 1) r.lexemes (r.finishComment.push c) :=
          hpushed.more rfl (by simp)
        exact (hlonger (hcomment.begin is)).elim

-- ---------------------------------------------------------------------------
-- Between lexemes
-- ---------------------------------------------------------------------------

/-- The lexer that has read the characters. -/
def Lexer.over (cs : List Char) : Lexer := cs.foldl step {}

/-- A text is cut between two of its lexemes. -/
structure Between (front back : List Char) : Prop where
  before : lexemes front ≠ []
  after : ∃ l ls, lexemes (front ++ back) = lexemes front ++ l :: ls

/-- What follows the text stands apart from it: no comment is open there, and a slash in front does
not make another comment of a comment. It is the line end that closes a line comment. -/
structure Parted (front t : List Char) : Prop where
  closed : (Lexer.over (withoutMark front)).mode.rests = true
  slash : (Lexer.over (withoutMark front)).mode = .slash → t.head? ≠ some '/'

theorem Between.lexemes_spaced (h : Between front back) (ht : Spacing t) (hp : Parted front t) :
    ∃ l ls g, lexemes (front ++ back) = lexemes front ++ l :: ls ∧
      lexemes (front ++ t ++ back) = lexemes front ++ l.regap g :: ls := by
  obtain ⟨l, ls, hwhole⟩ := h.after
  by_cases hne : t = []
  · subst hne
    refine ⟨l, ls, l.gap, hwhole, ?_⟩
    rw [List.append_nil, hwhole, Lexeme.regap_same]
  have hmark (cs : List Char) : withoutMark (front ++ cs) = withoutMark front ++ cs := by
    cases front with
    | nil => exact absurd rfl h.before
    | cons c front =>
      simp only [List.cons_append, withoutMark]
      split <;> rfl
  have hover (cs : List Char) :
      lexemes (front ++ cs) = (cs.foldl Lexer.step (Lexer.over (withoutMark front))).finish := by
    rw [lexemes, hmark, List.foldl_append, Lexer.over]
  have hstart (hm : (Lexer.over (withoutMark front)).mode = .start) :
      (Lexer.over (withoutMark front)).reading.current = [] :=
    (Again.run (fun _ => .fresh) (withoutMark front) ' ').idle hm
  have hback := (hover back).symm.trans hwhole
  obtain ⟨y, hy, hsame⟩ := cut_behind hp.closed hstart hback
  rw [hsame] at hback
  obtain ⟨g, hspaced⟩ := hy.lexemes_behind (ht.settles hne hp.closed hstart hp.slash)
    (hback.trans (by rw [List.reverse_reverse]; rfl))
  refine ⟨l, ls, g, hwhole, ?_⟩
  rw [List.append_assoc, hover, List.foldl_append, hspaced, List.reverse_reverse]
  rfl

end Scaffold.Source.Java
