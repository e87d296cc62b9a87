import Mathlib.Tactic.SplitIfs
import Scaffold.Proofs.Kotlin.Lexing

/-!
# The words of a Kotlin text

A word is what the lexer goes on with, or it stands between backticks, which
belong to it.
-/

namespace Scaffold.Source.Kotlin

/-- Some text of one line between backticks. -/
def IsQuoted (t : String) : Prop :=
  ∃ cs, t.toList = '\x60' :: (cs ++ ['\x60']) ∧ '\x60' ∉ cs ∧ '\n' ∉ cs

/-- The words among the lexemes. -/
def Words (ls : List Lexeme) : Prop :=
  ∀ l ∈ ls, l.shape = .word → scanner.isWord l.text = true ∨ IsQuoted l.text

theorem Words.other {ls : List Lexeme} {s : Shape} (h : Words ls) (hs : s ≠ .word)
    (g : List Trivia) (t : String) : Words (⟨g, s, t⟩ :: ls) :=
  List.forall_mem_cons.mpr ⟨fun he => absurd he hs, h⟩

/-- What a lexer has read of a word, and the words that it has finished. -/
structure Reads (x : Lexer) : Prop where
  idle : x.mode = .start → x.reading.current = []
  word : x.mode = .word → scanner.isWord (String.ofList x.reading.current.reverse) = true
  quoted : x.mode = .quotedName →
    ∃ cs, x.reading.current.reverse = '\x60' :: cs ∧ '\x60' ∉ cs ∧ '\n' ∉ cs
  words : Words x.reading.lexemes

namespace Reads

variable {x : Lexer} {r : Reading} {m : Mode} {is : List Insertion} {c : Char}

/-- In the other modes nothing of a word is being read. -/
theorem other (hw : Words x.reading.lexemes) (hs : x.mode ≠ .start := by simp)
    (hm : x.mode ≠ .word := by simp) (hq : x.mode ≠ .quotedName := by simp) : Reads x :=
  ⟨fun h => absurd h hs, fun h => absurd h hm, fun h => absurd h hq, hw⟩

theorem fresh (hw : Words r.lexemes) (hc : r.current = []) : Reads ⟨.start, r, is⟩ :=
  ⟨fun _ => hc, nofun, nofun, hw⟩

theorem begin (hw : Words r.lexemes) (hc : r.current = []) : Reads (Lexer.begin ⟨m, r, is⟩ c) := by
  have hsymbol : Words (r.symbol c).lexemes := hw.other (by simp) _ _
  unfold Lexer.begin
  split_ifs with hblank hstart htick
  · exact other hw
  · refine ⟨nofun, fun _ => Scanner.isWord_iff.mpr ⟨c, [], ?_, ?_, by simp⟩, nofun, hw⟩
    · simp [Reading.push, hc]
    · simp [scanner, hblank, hstart]
  · exact ⟨nofun, nofun, fun _ => ⟨[], by simp [Reading.push, hc, htick]⟩, hw⟩
  · exact other hw
  · exact other hw
  · exact other hw
  · exact other hw
  · unfold Lexer.brace
    split
    · exact fresh hsymbol rfl
    · split_ifs
      · exact fresh hsymbol rfl
      · exact other hsymbol
      · exact fresh hsymbol rfl
  · exact fresh hsymbol rfl

theorem string (hw : Words x.reading.lexemes) (kind : StringKind) :
    Reads (Lexer.string x kind c) := by
  have hfinish (r : Reading) (h : Words r.lexemes) : Words (r.finish .quoted).lexemes :=
    h.other (by simp) _ _
  unfold Lexer.string
  simp only
  split
  · exact other hw
  · split
    · split <;> exact other hw
    · split
      · exact fresh (hfinish _ hw) rfl
      · split
        · exact begin (hfinish _ hw) rfl
        · split <;> exact other hw

theorem step (h : Reads x) (c : Char) : Reads (x.step c) := by
  obtain ⟨m, r, is⟩ := x
  have hw : Words r.lexemes := h.words
  have hfinish {s : Shape} (hs : s ≠ .word) (r : Reading) (h : Words r.lexemes) :
      Words (r.finish s).lexemes := h.other hs _ _
  unfold Lexer.step
  cases m with
  | start => exact begin hw (h.idle rfl)
  | blank =>
    simp only
    split
    · exact other hw
    · exact begin hw rfl
  | word =>
    have hword := h.word rfl
    simp only
    split
    · next hpart =>
      refine ⟨nofun, fun _ => ?_, nofun, hw⟩
      rw [Reading.push, List.reverse_cons, String.ofList_append]
      exact Scanner.isWord_append hword (List.forall_mem_singleton.mpr hpart)
    · refine begin ?_ rfl
      exact List.forall_mem_cons.mpr ⟨fun _ => .inl hword, hw⟩
  | quotedName =>
    obtain ⟨cs, hcs, htick, hline⟩ := h.quoted rfl
    simp only at hcs ⊢
    split
    · next hc =>
      refine fresh (List.forall_mem_cons.mpr ⟨fun _ => .inr ⟨cs, ?_, htick, hline⟩, hw⟩) rfl
      simp [Reading.push, hcs, hc]
    · next hc =>
      split
      · exact begin (hfinish (by simp) _ hw) rfl
      · next hbreak =>
        refine ⟨nofun, nofun, fun _ => ⟨cs ++ [c], ?_, ?_, ?_⟩, hw⟩
        · simp [Reading.push, hcs]
        · simp [htick, Ne.symm hc]
        · simp [hline, Ne.symm hbreak]
  | dash =>
    simp only
    split
    · exact fresh (hfinish (by simp) _ hw) rfl
    · exact begin (hfinish (by simp) _ hw) rfl
  | slash =>
    simp only
    split
    · exact other hw
    · split
      · exact other hw
      · exact begin (hfinish (by simp) _ hw) rfl
  | lineComment =>
    simp only
    split
    · exact begin hw rfl
    · exact other hw
  | blockComment depth =>
    simp only
    split
    · exact other hw
    · split <;> exact other hw
  | blockCommentStar depth =>
    simp only
    split
    · split
      · exact fresh hw rfl
      · exact other hw
    · split <;> exact other hw
  | blockCommentSlash depth =>
    simp only
    split
    · exact other hw
    · split <;> exact other hw
  | quote =>
    simp only
    split
    · exact other hw
    · exact string hw .single
  | quoteQuote =>
    simp only
    split
    · exact other hw
    · exact begin (hfinish (by simp) _ hw) rfl
  | string kind => exact string hw kind
  | stringDollar kind =>
    simp only
    split
    · exact fresh ((hfinish (by simp) _ hw).other (by simp) _ _) rfl
    · exact string hw kind
  | stringEscape => exact other hw
  | rawQuotes count =>
    simp only
    split
    · exact other hw
    · split
      · exact begin (hfinish (by simp) _ hw) rfl
      · exact string hw .triple
  | character =>
    simp only
    split
    · exact fresh (hfinish (by simp) _ hw) rfl
    · split
      · exact begin (hfinish (by simp) _ hw) rfl
      · split <;> exact other hw
  | characterEscape => exact other hw

theorem finish (h : Reads x) : Words x.finish := by
  obtain ⟨m, r, is⟩ := x
  have hword : m = .word → Words (r.finish .word).lexemes := fun hm =>
    List.forall_mem_cons.mpr ⟨fun _ => .inl (h.word hm), h.words⟩
  intro l hl
  unfold Lexer.finish at hl
  cases m <;> rw [List.mem_reverse] at hl
  case word => exact hword rfl l hl
  case start | blank | lineComment | blockComment | blockCommentStar | blockCommentSlash =>
    exact h.words l hl
  all_goals exact h.words.other (by simp) _ _ l hl

theorem run (h : Reads x) (cs : List Char) : Reads (cs.foldl Lexer.step x) := by
  induction cs generalizing x with
  | nil => exact h
  | cons c cs ih => exact ih (h.step c)

end Reads

theorem words_lexemes (text : List Char) : Words (lexemes text) :=
  ((Reads.fresh (r := {}) (by simp [Words]) rfl).run _).finish

end Scaffold.Source.Kotlin
