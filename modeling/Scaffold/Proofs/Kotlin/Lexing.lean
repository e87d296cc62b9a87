import Scaffold.Proofs.Lexing
import Scaffold.Source.Kotlin.Lexer

/-!
# What the lexer of Kotlin reads back

Outside the code inserted into strings, words, signs and blanks of Kotlin are
read as those of any other language.
-/

namespace Scaffold.Source.Kotlin

theorem foldl_word {cs : List Char} (h : ∀ c ∈ cs, isWordPart c = true) (acc : List Char)
    (g : List Trivia) (L : List Lexeme) :
    cs.foldl Lexer.step ⟨.word, ⟨acc, g, L⟩, []⟩ = ⟨.word, ⟨cs.reverse ++ acc, g, L⟩, []⟩ := by
  induction cs generalizing acc with
  | nil => rfl
  | cons c cs ih =>
    rw [List.forall_mem_cons] at h
    simp [Lexer.step, h.1, Reading.push, ih h.2]

theorem foldl_blank {cs : List Char} (h : ∀ c ∈ cs, Text.isBlank c = true) (hne : cs ≠ [])
    (g : List Trivia) (L : List Lexeme) :
    cs.foldl Lexer.step ⟨.start, ⟨[], g, L⟩, []⟩ = ⟨.blank, ⟨cs.reverse, g, L⟩, []⟩ := by
  have hblank {cs : List Char} (h : ∀ c ∈ cs, Text.isBlank c = true) (acc : List Char) :
      cs.foldl Lexer.step ⟨.blank, ⟨acc, g, L⟩, []⟩ = ⟨.blank, ⟨cs.reverse ++ acc, g, L⟩, []⟩ := by
    induction cs generalizing acc with
    | nil => rfl
    | cons c cs ih =>
      rw [List.forall_mem_cons] at h
      simp [Lexer.step, h.1, Reading.push, ih h.2]
  cases cs with
  | nil => exact absurd rfl hne
  | cons c cs =>
    rw [List.forall_mem_cons] at h
    have hbegin : Lexer.step ⟨.start, ⟨[], g, L⟩, []⟩ c = ⟨.blank, ⟨[c], g, L⟩, []⟩ := by
      simp [Lexer.step, Lexer.begin, h.1, Reading.push]
    rw [List.foldl_cons, hbegin, hblank h.2]
    simp

/-- A lexeme begins without regard to what ended before it. -/
theorem begin_mode (m : Mode) (r : Reading) (is : List Insertion) (c : Char) :
    Lexer.begin ⟨m, r, is⟩ c = Lexer.begin ⟨.start, r, is⟩ c := rfl

def scanner : Scanner Lexer Unit where
  outside := ()
  next? _ _ _ := some ()
  step := Lexer.step
  finish := Lexer.finish
  fresh _ g L := ⟨.start, ⟨[], g, L⟩, []⟩
  isStart c := !Text.isBlank c && isWordStart c
  isPart := isWordPart
  isSign c := !Text.isBlank c && !isWordStart c && c ∉ ['\x60', '/', '-', '"', '\'']
  start_solid h := by simp_all
  sign_solid h := by simp_all
  next_word _ _ := rfl
  next_sign _ := rfl
  step_sign {c _ _} g L h _ := by
    simp only [Bool.and_eq_true, Bool.not_eq_true', decide_eq_true_eq, List.mem_cons,
      List.not_mem_nil, or_false, not_or] at h
    have hbrace : Lexer.brace ⟨.start, ⟨[], g, L⟩, []⟩ c =
        ⟨.start, Reading.symbol ⟨[], g, L⟩ c, []⟩ := rfl
    simp [Lexer.step, Lexer.begin, h, hbrace, Reading.symbol, Reading.push, Reading.finish,
      Char.toString]
  step_word _ g L hc hcs hd := by
    simp only [Bool.and_eq_true, Bool.not_eq_true'] at hc
    have hbegin : Lexer.step ⟨.start, ⟨[], g, L⟩, []⟩ _ = ⟨.word, ⟨[_], g, L⟩, []⟩ :=
      (if_neg (by simp [hc.1])).trans (if_pos hc.2)
    rw [List.foldl_cons, hbegin, foldl_word hcs]
    simpa [Lexer.step, hd, Reading.finish] using begin_mode ..
  step_blank _ g L hne hb hd := by
    rw [foldl_blank hb hne]
    simpa [Lexer.step, hd, Reading.finishBlank] using begin_mode ..
  finish_blank {b} _ L hb := by
    by_cases hne : b = []
    · subst hne
      rfl
    · rw [foldl_blank hb hne]
      rfl

end Scaffold.Source.Kotlin
