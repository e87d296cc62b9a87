import Scaffold.Proofs.Lexing
import Scaffold.Proofs.Nestings

/-!
# Parts of a tree elsewhere

A node that stands somewhere in a tree follows its rule, and its lexemes stand
together among those of the tree. Behind another gap it follows the rule still,
and its text is the same.
-/

namespace Scaffold.Source

open Piece

variable {T N : Type} {g : Grammar T N} {r : Rule T N}

namespace Tree

/-- Somewhere in the trees stands the node. -/
inductive Holds (n : N) (us : List (Tree N)) : List (Tree N) → Prop
  | here {ts} : Holds n us (.node n us :: ts)
  | inNode {m vs ts} : Holds n us vs → Holds n us (.node m vs :: ts)
  | inGroup {o vs e ts} : Holds n us vs → Holds n us (.group o vs e :: ts)
  | later {t ts} : Holds n us ts → Holds n us (t :: ts)

variable {n m : N} {us vs ts : List (Tree N)}

namespace Holds

theorem of_mem (h : Tree.node n us ∈ ts) : Holds n us ts := by
  induction ts with
  | nil => cases h
  | cons t ts ih =>
    rcases List.mem_cons.mp h with rfl | h
    · exact .here
    · exact .later (ih h)

theorem append_iff : Holds n us (ts ++ vs) ↔ Holds n us ts ∨ Holds n us vs := by
  induction ts with
  | nil => exact ⟨.inr, fun h => h.resolve_left nofun⟩
  | cons t ts ih =>
    constructor
    · rintro (_ | h | h | h)
      · exact .inl .here
      · exact .inl (.inNode h)
      · exact .inl (.inGroup h)
      · exact (ih.mp h).imp_left .later
    · rintro ((_ | h | h | h) | h)
      · exact .here
      · exact .inNode h
      · exact .inGroup h
      · exact .later (ih.mpr (.inl h))
      · exact .later (ih.mpr (.inr h))

theorem trans (h : Holds m vs ts) (hv : Holds n us vs) : Holds n us ts := by
  induction h with
  | here => exact .inNode hv
  | inNode _ ih => exact .inNode ih
  | inGroup _ ih => exact .inGroup ih
  | later _ ih => exact .later ih

theorem parses (h : Holds n us ts) (hts : Parses g r ts) : Parses g (g.rule n) us := by
  have hnone {t : List (Tree N)} (ht : t = []) (h : Holds n us t) : Parses g (g.rule n) us := by
    subst ht
    cases h
  induction hts with
  | token =>
    cases h with
    | later h => exact hnone rfl h
  | node hts ih =>
    cases h with
    | here => exact hts
    | inNode h => exact ih h
    | later h => exact hnone rfl h
  | group _ _ ih =>
    cases h with
    | inGroup h => exact ih h
    | later h => exact hnone rfl h
  | angles _ _ _ ih =>
    rcases append_iff.mp h with h | h
    · cases h with
      | later h => exact ih h
    · cases h with
      | later h => exact hnone rfl h
  | empty | stop => exact hnone rfl h
  | seq _ _ ih1 ih2 | more _ _ ih1 ih2 => exact (append_iff.mp h).elim ih1 ih2
  | left _ ih | right _ ih => exact ih h

theorem lexemes_inside (h : Holds n us ts) :
    lexemesOf (piecesOf us) <:+: lexemesOf (piecesOf ts) := by
  have hhead {p : Tree N} {ts : List (Tree N)} (h : lexemesOf (piecesOf us) <:+: lexemesOf p.pieces) :
      lexemesOf (piecesOf us) <:+: lexemesOf (piecesOf (p :: ts)) := by
    rw [piecesOf_cons, lexemesOf_append]
    exact h.trans (List.prefix_append ..).isInfix
  induction h with
  | here => exact hhead (by simp)
  | inNode _ ih => exact hhead (by simpa using ih)
  | inGroup _ ih =>
    refine hhead (ih.trans ?_)
    simp only [pieces_group, lexemesOf, Piece.lexemes, List.append_nil]
    exact (List.prefix_append ..).isInfix.trans (List.suffix_cons ..).isInfix
  | later _ ih =>
    rw [piecesOf_cons, lexemesOf_append]
    exact ih.trans (List.suffix_append ..).isInfix

end Holds

end Tree

open Source.Tree

-- ---------------------------------------------------------------------------
-- Other gaps
-- ---------------------------------------------------------------------------

/-- What the grammar admits does not depend on gaps. -/
def Grammar.Gapless (g : Grammar T N) : Prop :=
  ∀ t l gap, g.admits t (l.regap gap) = g.admits t l

theorem Tree.regaps_append (gap : List Trivia) (ts us : List (Tree N)) :
    regaps gap (ts ++ us) =
      if piecesOf ts = [] then ts ++ regaps gap us else regaps gap ts ++ us := by
  induction ts with
  | nil => rfl
  | cons t ts ih =>
    by_cases ht : t.pieces = []
    · by_cases hts : piecesOf ts = [] <;> simp [regaps, ht, hts, ih]
    · simp [regaps, ht]

theorem Parses.regaps (hg : g.Gapless) (gap : List Trivia) {ts : List (Tree N)}
    (h : Parses g r ts) : Parses g r (regaps gap ts) := by
  induction h with
  | token ha => exact .token ((hg ..).trans ha)
  | node h ih =>
    rw [Tree.regaps]
    split
    · exact .node h
    · exact .node ih
  | group he h => exact .group ⟨he.opens, he.bracket, he.closes, he.closer⟩ h
  | angles ha h hb => exact .angles ha h hb
  | empty => exact .empty
  | seq h1 h2 ih1 ih2 =>
    rw [regaps_append]
    split
    · exact .seq h1 ih2
    · exact .seq ih1 h2
  | left _ ih => exact .left ih
  | right _ ih => exact .right ih
  | stop => exact .stop
  | more h1 h2 ih1 ih2 =>
    rw [regaps_append]
    split
    · exact .more h1 ih2
    · exact .more ih1 h2

namespace Piece

variable {p : Piece} {ps : List Piece}

mutual

theorem written_lexemes (p : Piece) : written p.lexemes = p.chars := by
  match p with
  | .lexeme l => simp [Piece.lexemes, chars]
  | .group o inner e => cases e <;> simp [Piece.lexemes, chars, written_lexemesOf inner]

theorem written_lexemesOf (ps : List Piece) : written (lexemesOf ps) = charsOf ps := by
  match ps with
  | [] => rfl
  | p :: ps => simp [lexemesOf, charsOf, written_lexemes p, written_lexemesOf ps]

end

/-- The characters of pieces behind a new gap. -/
theorem written_regapFirst (gap : List Trivia) (h : ps ≠ []) :
    written (lexemesOf (regapFirst gap ps)) = gap.flatMap Trivia.chars ++ (spell ps).toList := by
  cases ps with
  | nil => exact absurd rfl h
  | cons p ps =>
    have hfirst : (p.regap gap).first.gapChars = gap.flatMap Trivia.chars := by cases p <;> rfl
    rw [written_lexemesOf, regapFirst, charsOf, chars_ink, hfirst, inkOf_regap, spell_cons]
    simp

theorem lexemesOf_regapFirst (gap : List Trivia) (ps : List Piece) :
    lexemesOf (regapFirst gap ps) =
      match lexemesOf ps with
      | [] => []
      | l :: ls => l.regap gap :: ls := by
  cases ps with
  | nil => rfl
  | cons p ps => cases p <;> simp [regapFirst, lexemesOf, regap, Piece.lexemes]

/-- Pieces are read back behind other blanks. -/
theorem rereads_regapFirst {σ P : Type} {m : Scanner σ P} {c : Char} {b : String}
    (h : m.Rereads (lexemesOf ps) c) (hb : isBlankText b = true) :
    m.Rereads (lexemesOf (regapFirst (Lexeme.blanks b) ps)) c := by
  rw [lexemesOf_regapFirst]
  cases hls : lexemesOf ps with
  | nil => exact .nil
  | cons l ls =>
    rw [hls] at h
    exact h.regap hb

/-- The text of pieces one behind another. -/
theorem spell_append_close (h : ps ≠ []) (qs : List Piece) :
    spell (ps ++ regapFirst [] qs) = spell ps ++ spell qs := by
  cases ps with
  | nil => exact absurd rfl h
  | cons p ps =>
    cases qs with
    | nil => simp [regapFirst]
    | cons q qs =>
      have hfirst : (q.regap []).first.gapChars = [] := by cases q <;> rfl
      rw [List.cons_append, spell_cons, spell_cons, spell_cons, regapFirst, charsOf_append, charsOf,
        chars_ink, hfirst, inkOf_regap]
      simp [String.append_assoc]

end Piece

end Scaffold.Source
