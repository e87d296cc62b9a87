import Scaffold.Proofs.Spellings

/-!
# Nesting

Grouping the lexemes of a tree by their brackets gives the pieces of the tree
back: no lexeme that stands for itself is a bracket, and every bracket of a
tree is closed by its own kind.
-/

namespace Scaffold.Source

open Source.Tree

namespace Piece

@[simp] theorem lexemesOf_flat (ls : List Lexeme) : lexemesOf (ls.map .lexeme) = ls := by
  induction ls with
  | nil => rfl
  | cons l ls ih => simp [lexemesOf, lexemes, ih]

/-- No bracket. -/
def isFlat (l : Lexeme) : Bool := !Nesting.isOpener l && !Nesting.isCloser l

@[simp] theorem isFlat_word (blank t : String) : isFlat (.word blank t) = true := rfl

@[simp] theorem isFlat_sign (blank : String) (c : Char) :
    isFlat (.sign blank c) = decide (c ∉ ['(', '[', '\x7b', ')', ']', '\x7d']) := by
  have hsame {t : String} {d : Char} (h : t = String.singleton d) :
      (String.singleton c = t) = (c = d) := by
    subst h
    simp [String.singleton_inj]
  simp [isFlat, Nesting.isOpener, Nesting.isCloser, Lexeme.sign,
    hsame (t := "(") (d := '(') (by decide), hsame (t := "[") (d := '[') (by decide),
    hsame (t := "\x7b") (d := '\x7b') (by decide), hsame (t := ")") (d := ')') (by decide),
    hsame (t := "]") (d := ']') (by decide), hsame (t := "\x7d") (d := '\x7d') (by decide),
    Bool.and_assoc]

/-- Adding the lexemes of the pieces adds the pieces. -/
def Nested (ps : List Piece) : Prop :=
  ∀ frames current, (lexemesOf ps).foldl Nesting.add ⟨frames, current⟩ =
    ⟨frames, ps.reverse ++ current⟩

namespace Nested

theorem nil : Nested [] := fun _ _ => rfl

theorem append {ps qs : List Piece} (hp : Nested ps) (hq : Nested qs) : Nested (ps ++ qs) := by
  intro frames current
  rw [lexemesOf_append, List.foldl_append, hp, hq, List.reverse_append, List.append_assoc]

theorem lexeme {l : Lexeme} (ho : Nesting.isOpener l = false) (hc : Nesting.isCloser l = false) :
    Nested [.lexeme l] := by
  intro frames current
  simp [lexemesOf, lexemes, Nesting.add, ho, hc]

/-- Lexemes that are no brackets stand for themselves. -/
theorem flat {ls : List Lexeme} (h : ∀ l ∈ ls, isFlat l = true) : Nested (ls.map .lexeme) := by
  induction ls with
  | nil => exact .nil
  | cons l ls ih =>
    simp only [List.forall_mem_cons, isFlat, Bool.and_eq_true, Bool.not_eq_true'] at h
    exact (lexeme h.1.1 h.1.2).append (ih fun k hk => by simp [isFlat, h.2 k hk])

theorem group {c : Char} {o e : Lexeme} {ps : List Piece} (he : Encloses c o e)
    (hp : Nested ps) : Nested [.group o ps (some e)] := by
  intro frames current
  have hopener : Nesting.isOpener e = false := by
    have hclosed := he.closes
    simp only [Nesting.isCloser, Bool.and_eq_true, Bool.or_eq_true, decide_eq_true_eq] at hclosed
    rcases hclosed with ⟨hs, (h | h) | h⟩ <;> simp [Nesting.isOpener, h]
  have hopen : Nesting.add ⟨frames, current⟩ o = ⟨⟨o, current⟩ :: frames, []⟩ := by
    simp [Nesting.add, he.opens]
  have hclose : Nesting.add ⟨⟨o, current⟩ :: frames, ps.reverse⟩ e =
      ⟨frames, .group o ps (some e) :: current⟩ := by
    simp [Nesting.add, hopener, he.closes, he.closer, Nesting.close]
  have hinner := hp (⟨o, current⟩ :: frames) []
  rw [List.append_nil] at hinner
  simp only [lexemesOf, lexemes, Option.toList_some, List.append_nil, List.cons_append,
    List.foldl_cons, List.foldl_append, List.foldl_nil, hopen, hinner, hclose, List.reverse_cons,
    List.reverse_nil, List.nil_append]

theorem ofLexemes_lexemesOf {ps : List Piece} (hp : Nested ps) :
    ofLexemes (lexemesOf ps) = ps := by
  have h := hp [] []
  simp only [ofLexemes, h, Nesting.finish, List.append_nil, List.reverse_reverse]

end Nested

-- ---------------------------------------------------------------------------
-- What an open bracket keeps
-- ---------------------------------------------------------------------------

/-- The bracket is open behind the pieces, newest first, or has been closed there. -/
def Kept (o : Lexeme) (before : List Piece) (n : Nesting) : Prop :=
  n.frames.getLast? = some ⟨o, before⟩ ∨
    ∃ inner closing, .group o inner closing :: before <:+
      (n.frames.getLast?.map Frame.before).getD n.current

namespace Kept

variable {o l : Lexeme} {before current : List Piece} {frame : Frame} {frames : List Frame}

/-- The innermost bracket is closed. -/
theorem closed (h : Kept o before ⟨frame :: frames, current⟩) (inner : List Piece)
    (closing : Option Lexeme) :
    Kept o before ⟨frames, .group frame.opening inner closing :: frame.before⟩ := by
  cases frames with
  | cons f fs => exact h
  | nil =>
    rcases h with h | ⟨_, _, h⟩
    · cases h
      exact .inr ⟨_, _, List.suffix_rfl⟩
    · exact .inr ⟨_, _, h.trans (List.suffix_cons ..)⟩

theorem close (h : Kept o before ⟨frames, current⟩) (l : Lexeme) :
    Kept o before (Nesting.close l frames current) := by
  induction frames generalizing current with
  | nil => exact h
  | cons frame frames ih =>
    rw [Nesting.close]
    split
    · exact h.closed _ _
    · exact ih (h.closed _ _)

theorem add (h : Kept o before ⟨frames, current⟩) (l : Lexeme) :
    Kept o before (Nesting.add ⟨frames, current⟩ l) := by
  rw [Nesting.add]
  split
  · cases frames with
    | cons f fs => exact h
    | nil =>
      rcases h with h | h
      · cases h
      · exact .inr h
  · split
    · exact h.close l
    · cases frames with
      | cons f fs => exact h
      | nil =>
        rcases h with h | ⟨inner, closing, h⟩
        · cases h
        · exact .inr ⟨inner, closing, h.trans (List.suffix_cons ..)⟩

theorem finish (h : Kept o before ⟨frames, current⟩) : ∃ inner closing rest,
    Nesting.finish frames current = before.reverse ++ .group o inner closing :: rest := by
  induction frames generalizing current with
  | nil =>
    rcases h with h | ⟨inner, closing, front, h⟩
    · cases h
    · obtain rfl : front ++ .group o inner closing :: before = current := h
      exact ⟨inner, closing, front.reverse, by simp [Nesting.finish]⟩
  | cons frame frames ih => exact ih (h.closed _ _)

end Kept

/-- Whatever follows an open bracket, what stands in front is nested as it was. -/
theorem Nested.ofLexemes_opened {ps : List Piece} (hp : Nested ps) {o : Lexeme}
    (ho : Nesting.isOpener o = true) (ls : List Lexeme) : ∃ inner closing rest,
    ofLexemes (lexemesOf ps ++ o :: ls) = ps ++ .group o inner closing :: rest := by
  have hopened : (lexemesOf ps ++ [o]).foldl Nesting.add {} = ⟨[⟨o, ps.reverse⟩], []⟩ := by
    rw [List.foldl_append, hp, List.append_nil]
    simp [Nesting.add, ho]
  have hkept : Kept o ps.reverse (ls.foldl Nesting.add ⟨[⟨o, ps.reverse⟩], []⟩) := by
    have hstart : Kept o ps.reverse ⟨[⟨o, ps.reverse⟩], []⟩ := .inl rfl
    revert hstart
    generalize Nesting.mk [⟨o, ps.reverse⟩] [] = n
    induction ls generalizing n with
    | nil => exact id
    | cons l ls ih => exact fun h => ih _ (h.add l)
  obtain ⟨inner, closing, rest, he⟩ := hkept.finish
  refine ⟨inner, closing, rest, ?_⟩
  rw [ofLexemes, List.append_cons, List.foldl_append, hopened]
  simpa using he

end Piece

open Piece

/-- No lexeme that the grammar admits is a bracket. -/
def Grammar.Unbracketed {T N : Type} (g : Grammar T N) : Prop :=
  ∀ t l, g.admits t l = true → Nesting.isOpener l = false ∧ Nesting.isCloser l = false

namespace Parses

variable {T N : Type} {g : Grammar T N} {r : Rule T N} {ts : List (Tree N)}

theorem nested (hg : g.Unbracketed) (h : Parses g r ts) : Nested (piecesOf ts) := by
  have angle {l : Lexeme} {c : Char} (hc : c = '<' ∨ c = '>')
      (h : (Piece.lexeme l).isSymbol c = true) : Nested [.lexeme l] := by
    simp only [isSymbol, Bool.and_eq_true, decide_eq_true_eq] at h
    refine .lexeme ?_ ?_ <;> rcases hc with rfl | rfl <;>
      simp [Nesting.isOpener, Nesting.isCloser, h.2, Char.toString]
  induction h with
  | token ha => simpa using Nested.lexeme (hg _ _ ha).1 (hg _ _ ha).2
  | node _ ih => simpa using ih
  | group he _ ih => simpa using Nested.group he ih
  | angles ha _ hb ih =>
    simpa using ((angle (.inl rfl) ha).append ih).append (angle (.inr rfl) hb)
  | empty | stop => exact .nil
  | seq _ _ ih1 ih2 | more _ _ ih1 ih2 => simpa using ih1.append ih2
  | left _ ih | right _ ih => exact ih

/-- The lexemes of a tree group to its pieces. -/
theorem ofLexemes (hg : g.Unbracketed) (h : Parses g r ts) :
    Piece.ofLexemes (lexemesOf (piecesOf ts)) = piecesOf ts :=
  (h.nested hg).ofLexemes_lexemesOf

end Parses

end Scaffold.Source
