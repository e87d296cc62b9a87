import Scaffold.Proofs.Java.Lexing
import Scaffold.Proofs.Java.Syntax
import Scaffold.Proofs.Nestings

/-!
# Insertions in a tree

The lexemes of a tree leave the insertions open that were open in front of
them: braces come in pairs, and a string that code is inserted into has a last
part of its own kind behind the first.
-/

namespace Scaffold.Source.Java

open Piece Source.Tree

variable {l : Lexeme} {ls : List Lexeme} {ps qs : List Piece} {is : List Insertion} {c : Char}

/-- The lexeme opens no insertion and closes none. -/
def Neutral (l : Lexeme) : Prop := ∀ is, scanner.path is [l] = some is

/-- The insertions that are open in front of the pieces are open behind them. -/
def Level (ps : List Piece) : Prop := ∀ is, scanner.path is (lexemesOf ps) = some is

theorem lexemesOf_lexeme (l : Lexeme) : lexemesOf [.lexeme l] = [l] := rfl

/-- The insertions behind a lexeme. -/
theorem path_lexeme (l : Lexeme) (is : List Insertion) :
    scanner.path is [l] = next? l.shape l.text.toList is := by
  exact Option.bind_fun_some (next? l.shape l.text.toList is)

theorem isFlat_of_symbol (h : (lexeme l).isSymbol c = true)
    (hc : c ∉ ['(', '[', '\x7b', ')', ']', '\x7d']) : isFlat l = true := by
  have hsign := isFlat_sign "" c
  rw [decide_eq_true hc] at hsign
  simp only [isSymbol, Bool.and_eq_true, decide_eq_true_eq] at h
  rwa [isFlat, Nesting.isOpener, Nesting.isCloser, h.1, h.2]

theorem neutral_of_word (h : l.shape = .word) : Neutral l := fun is => Scanner.path_word is h

theorem shape_of_symbol (h : (lexeme l).isSymbol c = true) : l.shape = .symbol := by
  simp only [isSymbol, Bool.and_eq_true, decide_eq_true_eq] at h
  exact h.1

theorem neutral_of_symbol (hs : l.shape = .symbol) (hf : isFlat l = true) : Neutral l := by
  intro is
  simp only [isFlat, Nesting.isOpener, Nesting.isCloser, hs, decide_true, Bool.true_and,
    Bool.and_eq_true, Bool.not_eq_true', Bool.or_eq_false_iff, decide_eq_false_iff_not] at hf
  have hbrace : l.text.toList ∉ [['\x7b'], ['\x7d']] := by
    have htext {s : String} (h : l.text ≠ s) : l.text.toList ≠ s.toList :=
      fun he => h (String.toList_injective he)
    simpa using ⟨htext hf.1.2, htext hf.2.2⟩
  rw [path_lexeme, hs]
  exact braced_other hbrace is

theorem neutral_of_final (h : scanner.Final l) (hf : isFlat l = true) : Neutral l := by
  rcases h with h | ⟨g, c, -, rfl⟩
  · exact neutral_of_word h
  · exact neutral_of_symbol rfl hf

namespace Level

theorem nil : Level [] := fun _ => rfl

theorem append (hp : Level ps) (hq : Level qs) : Level (ps ++ qs) := by
  intro is
  rw [lexemesOf_append, Scanner.path_append, hp]
  exact hq is

theorem lexeme (h : Neutral l) : Level [.lexeme l] := h

theorem flat (h : ∀ l ∈ ls, Neutral l) : Level (ls.map .lexeme) := by
  induction ls with
  | nil => exact nil
  | cons l ls ih =>
    rw [List.forall_mem_cons] at h
    exact (lexeme h.1).append (ih h.2)

/-- A pair of braces is counted and forgotten. -/
theorem group {o e : Lexeme} (he : Encloses c o e) (hp : Level ps) :
    Level [.group o ps (some e)] := by
  intro is
  obtain ⟨js, hopen, hclose⟩ : ∃ js, scanner.path is [o] = some js ∧
      scanner.path js [e] = some is := by
    have hopens := he.opens
    have hcloses := he.closes
    simp only [Nesting.isOpener, Nesting.isCloser, Bool.and_eq_true, Bool.or_eq_true,
      decide_eq_true_eq] at hopens hcloses
    have hcloser := he.closer
    simp only [path_lexeme, hopens.1, hcloses.1]
    rcases hopens.2 with (ho | ho) | ho <;> rw [ho] at hcloser ⊢ <;> rw [← hcloser]
    · exact ⟨is, braced_other (by decide : ['('] ∉ _) is, braced_other (by decide : [')'] ∉ _) is⟩
    · exact ⟨is, braced_other (by decide : ['['] ∉ _) is, braced_other (by decide : [']'] ∉ _) is⟩
    · cases is <;> exact ⟨_, rfl, rfl⟩
  have hlexemes : lexemesOf [.group o ps (some e)] = [o] ++ (lexemesOf ps ++ [e]) := by
    simp [lexemesOf, Piece.lexemes]
  rw [hlexemes, Scanner.path_append, hopen, Option.bind_some, Scanner.path_append, hp js]
  exact hclose

end Level

-- ---------------------------------------------------------------------------
-- Trees
-- ---------------------------------------------------------------------------

/-- No part of a string that code is inserted into. -/
def Terminal.isWhole : Terminal → Bool
  | .string _ opens closes => opens && closes
  | _ => true

theorem shape_of_string {kind : StringKind} {opens closes : Bool}
    (h : grammar.admits (.string kind opens closes) l = true) :
    l.shape = .string kind opens closes := by
  simp only [grammar, Terminal.admits, Bool.and_eq_true, decide_eq_true_eq] at h
  exact h.2.1

theorem neutral_of_admits {t : Terminal} (h : grammar.admits t l = true)
    (ht : t.isWhole = true) : Neutral l := by
  have hflat : isFlat l = true := by
    simp only [grammar, Terminal.admits, Bool.and_eq_true] at h
    simpa [isFlat] using h.1
  cases hs : l.shape with
  | word => exact neutral_of_word hs
  | symbol => exact neutral_of_symbol hs hflat
  | quoted =>
    intro is
    rw [path_lexeme, hs]
    rfl
  | string kind opens closes =>
    obtain rfl : t = .string kind opens closes := by
      cases t <;> simp_all [grammar, Terminal.admits, Piece.isWord, word?, isSymbol, isArrow, name?]
    simp only [Terminal.isWhole, Bool.and_eq_true] at ht
    obtain ⟨rfl, rfl⟩ := ht
    intro is
    rw [path_lexeme, hs]
    rfl

theorem level_of_yields {r : Rule Terminal Node} (hr : r.tokens Terminal.isWhole = true)
    (h : r.Yields grammar (fun _ => Level) ps) : Level ps := by
  induction r generalizing ps with
  | token t =>
    obtain ⟨l, hl, rfl⟩ := h
    exact .lexeme (neutral_of_admits hl hr)
  | node n => exact h
  | group c r ih =>
    obtain ⟨o, inner, e, he, hi, rfl⟩ := h
    exact .group he (ih hr hi)
  | angles r ih =>
    obtain ⟨a, inner, b, ha, hi, hb, rfl⟩ := h
    have hangle {l : Lexeme} {c : Char} (h : (Piece.lexeme l).isSymbol c = true)
        (hc : c ∉ ['(', '[', '\x7b', ')', ']', '\x7d']) : Level [.lexeme l] :=
      .lexeme (neutral_of_symbol (shape_of_symbol h) (isFlat_of_symbol h hc))
    exact ((hangle ha (by decide)).append (ih hr hi)).append (hangle hb (by decide))
  | empty =>
    obtain rfl : ps = [] := h
    exact .nil
  | seq r s ihr ihs =>
    obtain ⟨qs, hq, rs, hs, rfl⟩ := h
    simp only [Rule.tokens, Bool.and_eq_true] at hr
    exact (ihr hr.1 hq).append (ihs hr.2 hs)
  | alt r s ihr ihs =>
    simp only [Rule.tokens, Bool.and_eq_true] at hr
    exact h.elim (ihr hr.1) (ihs hr.2)
  | many r ih =>
    obtain ⟨pss, hpss, rfl⟩ := h
    induction pss with
    | nil => exact .nil
    | cons qs pss ihp =>
      rw [List.forall_mem_cons] at hpss
      exact (ih hr hpss.1).append (ihp hpss.2)

/-- Behind a part of a string an insertion is open, unless the part ends the string. -/
theorem path_part {kind : StringKind} {opens closes : Bool}
    (h : grammar.admits (.string kind opens closes) l = true) (is : List Insertion) :
    scanner.path (if opens then is else ⟨kind, 0⟩ :: is) [l] =
      some (if closes then is else ⟨kind, 0⟩ :: is) := by
  rw [path_lexeme, shape_of_string h]
  cases opens <;> cases closes <;> simp [next?, entered?, resumes, insertionsBehind]

/-- A string is gone on with behind the code that is inserted into it, and ended. -/
theorem level_of_template {kind : StringKind}
    (h : (Node.template kind).Yields grammar (fun _ => Level) ps) : Level ps := by
  obtain ⟨_, ⟨first, hfirst, rfl⟩, _, ⟨qs, hq, _, ⟨_, ⟨pss, hpss, rfl⟩, _, ⟨last, hlast, rfl⟩, rfl⟩,
    rfl⟩, rfl⟩ := h
  intro is
  have hparts : scanner.path (⟨kind, 0⟩ :: is) (lexemesOf pss.flatten) =
      some (⟨kind, 0⟩ :: is) := by
    induction pss with
    | nil => rfl
    | cons rs pss ih =>
      rw [List.forall_mem_cons] at hpss
      obtain ⟨_, ⟨part, hpart, rfl⟩, qs, hq, rfl⟩ := hpss.1
      rw [List.flatten_cons, lexemesOf_append, lexemesOf_append, Scanner.path_append,
        Scanner.path_append]
      have hopen := path_part hpart is
      simp only [Bool.false_eq_true, if_false] at hopen
      rw [lexemesOf_lexeme, hopen, Option.bind_some, hq, Option.bind_some, ih hpss.2]
  have hopen := path_part hfirst is
  have hclose := path_part hlast is
  simp only [Bool.false_eq_true, if_false, if_true] at hopen hclose
  simp only [lexemesOf_append, lexemesOf_lexeme, Scanner.path_append, hopen, Option.bind_some,
    hq (⟨kind, 0⟩ :: is), hparts, hclose]

/-- Every node is level. -/
theorem level {r : Rule Terminal Node} {ts : Trees} (h : Parses grammar r ts)
    (hr : r.tokens Terminal.isWhole = true) : Level (piecesOf ts) := by
  refine level_of_yields hr (h.yields fun n ts _ hy => ?_)
  cases n
  case stringLiteral =>
    rcases hy with h | h | h | h
    · exact level_of_yields (r := .token _) rfl h
    · exact level_of_yields (r := .token _) rfl h
    · exact level_of_template h
    · exact level_of_template h
  all_goals exact level_of_yields (by decide) hy

end Scaffold.Source.Java
