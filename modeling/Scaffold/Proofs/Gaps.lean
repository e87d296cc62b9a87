import Scaffold.Proofs.Occurrences

/-!
# Other gaps

The lexemes of pieces and trees are numbered in order, and each gets another gap
by its number. What follows a rule does so with any gaps, and the text from the
first lexeme to the last is the same while no gap behind the first changes.
-/

namespace Scaffold.Source

/-- What becomes of the gap in front of a lexeme, by the lexeme's number. -/
abbrev Respacing := Nat → List Trivia → List Trivia

namespace Respacing

/-- The gaps of those numbers stay as they are. -/
def Keeps (e : Respacing) (numbers : List Nat) : Prop :=
  ∀ i ∈ numbers, ∀ gap, e i gap = gap

variable {e : Respacing} {is js : List Nat}

theorem Keeps.mono (h : e.Keeps is) (hj : ∀ j ∈ js, j ∈ is) : e.Keeps js :=
  fun j hj' => h j (hj j hj')

theorem keeps_append : e.Keeps (is ++ js) ↔ e.Keeps is ∧ e.Keeps js := by
  simp [Keeps, or_imp, forall_and]

end Respacing

def Lexeme.respace (e : Respacing) (k : Nat) (l : Lexeme) : Lexeme := l.regap (e k l.gap)

theorem Lexeme.respace_keep {e : Respacing} {k : Nat} {l : Lexeme} (h : ∀ gap, e k gap = gap) :
    l.respace e k = l := by
  rw [respace, h, regap_same]

/-- Lexemes that keep their gaps. -/
theorem mapIdx_respace_keep {e : Respacing} {k : Nat} {ls : List Lexeme}
    (h : e.Keeps (List.range' k ls.length)) :
    (ls.mapIdx fun i l => l.respace e (k + i)) = ls := by
  refine List.ext_getElem (by simp) fun i _ hi => ?_
  rw [List.getElem_mapIdx]
  exact Lexeme.respace_keep (h _ (List.mem_range'_1.mpr (by omega)))

variable {T N : Type} {g : Grammar T N} {r : Rule T N} {e : Respacing} {k : Nat}

-- ---------------------------------------------------------------------------
-- Pieces
-- ---------------------------------------------------------------------------

namespace Piece

variable {p : Piece} {ps qs : List Piece} {l : Lexeme} {ls : List Lexeme}

mutual

/-- The piece with other gaps; its first lexeme has the number `k`. -/
def respace (e : Respacing) (k : Nat) : Piece → Piece
  | lexeme l => lexeme (l.respace e k)
  | group o inner c =>
    group (o.respace e k) (respaces e (k + 1) inner)
      (c.map (Lexeme.respace e (k + 1 + (lexemesOf inner).length)))

def respaces (e : Respacing) (k : Nat) : List Piece → List Piece
  | [] => []
  | p :: ps => p.respace e k :: respaces e (k + p.lexemes.length) ps

end

theorem respaces_append (e : Respacing) (k : Nat) (ps qs : List Piece) :
    respaces e k (ps ++ qs) =
      respaces e k ps ++ respaces e (k + (lexemesOf ps).length) qs := by
  induction ps generalizing k with
  | nil => rfl
  | cons p ps ih => simp [respaces, lexemesOf, ih, Nat.add_assoc]

mutual

theorem lexemes_respace (e : Respacing) (k : Nat) (p : Piece) : (p.respace e k).lexemes =
    p.lexemes.mapIdx fun i l => l.respace e (k + i) := by
  match p with
  | lexeme l => rfl
  | group o inner c =>
    have hshift (i : Nat) : k + 1 + i = k + (i + 1) := by omega
    cases c <;>
      simp [respace, lexemes, lexemes_respaces e (k + 1) inner, List.mapIdx_append, hshift]

theorem lexemes_respaces (e : Respacing) (k : Nat) (ps : List Piece) :
    lexemesOf (respaces e k ps) = (lexemesOf ps).mapIdx fun i l => l.respace e (k + i) := by
  match ps with
  | [] => rfl
  | p :: ps =>
    have hshift (i : Nat) : k + p.lexemes.length + i = k + (i + p.lexemes.length) := by omega
    rw [respaces, lexemesOf, lexemesOf, List.mapIdx_append, lexemes_respace e k p,
      lexemes_respaces e (k + p.lexemes.length) ps]
    simp only [hshift]

end

theorem lexemesOf_eq_nil : lexemesOf ps = [] ↔ ps = [] := by
  cases ps with
  | nil => simp [lexemesOf]
  | cons p ps => cases p <;> simp [lexemesOf, lexemes]

/-- The text does not show the gap in front of it. -/
theorem spell_of_lexemes {gap : List Trivia} (hp : lexemesOf ps = l.regap gap :: ls)
    (hq : lexemesOf qs = l :: ls) : spell ps = spell qs := by
  have hspell {l : Lexeme} {ps : List Piece} (h : lexemesOf ps = l :: ls) :
      (spell ps).toList = written (l.regap [] :: ls) := by
    have hne : ps ≠ [] := fun he => by simp [he, lexemesOf] at h
    have := written_regapFirst [] hne
    rw [lexemesOf_regapFirst, h] at this
    simpa using this.symm
  exact String.toList_injective ((hspell hp).trans (hspell hq).symm)

/-- The numbers of the lexemes behind the first. -/
def innerGaps (k : Nat) (ps : List Piece) : List Nat :=
  List.range' (k + 1) ((lexemesOf ps).length - 1)

theorem spell_respaces (h : e.Keeps (innerGaps k ps)) : spell (respaces e k ps) = spell ps := by
  have hlexemes := lexemes_respaces e k ps
  cases hls : lexemesOf ps with
  | nil =>
    obtain rfl : ps = [] := lexemesOf_eq_nil.mp hls
    rfl
  | cons l ls =>
    rw [innerGaps, hls] at h
    have hrest : (ls.mapIdx fun i l => l.respace e (k + (i + 1))) = ls := by
      simpa only [Nat.add_assoc, Nat.add_comm 1] using mapIdx_respace_keep h
    rw [hls, List.mapIdx_cons, hrest] at hlexemes
    exact spell_of_lexemes hlexemes hls

theorem respaces_flat (h : e.Keeps (List.range' k ls.length)) :
    respaces e k (ls.map lexeme) = ls.map lexeme := by
  induction ls generalizing k with
  | nil => rfl
  | cons l ls ih =>
    rw [List.length_cons, List.range'_succ] at h
    have hl : l.respace e k = l := Lexeme.respace_keep (h k List.mem_cons_self)
    have hrest : respaces e (k + 1) (ls.map lexeme) = ls.map lexeme :=
      ih (h.mono fun _ hj => List.mem_cons_of_mem _ hj)
    simp only [List.map_cons, respaces, respace, lexemes, List.length_singleton, hl, hrest]

/-- Lexemes of which only the first does not keep its gap. -/
theorem respaces_first (h : e.Keeps (List.range' (k + 1) ls.length)) :
    respaces e k ((l :: ls).map lexeme) =
      regapFirst (e k l.gap) ((l :: ls).map lexeme) := by
  have hrest : respaces e (k + 1) (ls.map lexeme) = ls.map lexeme := respaces_flat h
  simp only [List.map_cons, respaces, respace, lexemes, List.length_singleton, hrest]
  rfl

end Piece

-- ---------------------------------------------------------------------------
-- Trees
-- ---------------------------------------------------------------------------

namespace Tree

open Piece

/-- The number of lexemes. -/
def size (t : Tree N) : Nat := (lexemesOf t.pieces).length

def sizes (ts : List (Tree N)) : Nat := (lexemesOf (piecesOf ts)).length

mutual

/-- The tree with other gaps; its first lexeme has the number `k`. -/
def respace (e : Respacing) (k : Nat) : Tree N → Tree N
  | leaf l => leaf (l.respace e k)
  | group o ts c =>
    group (o.respace e k) (respaces e (k + 1) ts) (c.respace e (k + 1 + sizes ts))
  | node n ts => node n (respaces e k ts)

def respaces (e : Respacing) (k : Nat) : List (Tree N) → List (Tree N)
  | [] => []
  | t :: ts => t.respace e k :: respaces e (k + t.size) ts

end

theorem respaces_append (e : Respacing) (k : Nat) (ts us : List (Tree N)) :
    respaces e k (ts ++ us) = respaces e k ts ++ respaces e (k + sizes ts) us := by
  induction ts generalizing k with
  | nil => rfl
  | cons t ts ih => simp [respaces, sizes, size, lexemesOf_append, ih, Nat.add_assoc]

mutual

theorem pieces_respace (e : Respacing) (k : Nat) (t : Tree N) :
    (t.respace e k).pieces = Piece.respaces e k t.pieces := by
  match t with
  | leaf l => simp [respace, Piece.respaces, Piece.respace]
  | group o ts c =>
    simp [respace, Piece.respaces, Piece.respace, piecesOf_respaces e (k + 1) ts, sizes]
  | node n ts => simpa [respace] using piecesOf_respaces e k ts

theorem piecesOf_respaces (e : Respacing) (k : Nat) (ts : List (Tree N)) :
    piecesOf (respaces e k ts) = Piece.respaces e k (piecesOf ts) := by
  match ts with
  | [] => rfl
  | t :: ts =>
    rw [respaces, piecesOf_cons, piecesOf_cons, Piece.respaces_append, pieces_respace e k t,
      piecesOf_respaces e (k + t.size) ts]
    rfl

end

end Tree

open Source.Tree

theorem Parses.respaces {ts : List (Tree N)} (hg : g.Gapless) (h : Parses g r ts) (k : Nat) :
    Parses g r (respaces e k ts) := by
  induction h generalizing k with
  | token ha => exact .token ((hg ..).trans ha)
  | node _ ih => exact .node (ih k)
  | group he _ ih => exact .group ⟨he.opens, he.bracket, he.closes, he.closer⟩ (ih _)
  | angles ha _ hb ih =>
    rw [respaces_append]
    exact .angles ha (ih _) hb
  | empty => exact .empty
  | seq _ _ ih1 ih2 =>
    rw [respaces_append]
    exact .seq (ih1 _) (ih2 _)
  | left _ ih => exact .left (ih k)
  | right _ ih => exact .right (ih k)
  | stop => exact .stop
  | more _ _ ih1 ih2 =>
    rw [respaces_append]
    exact .more (ih1 _) (ih2 _)

end Scaffold.Source
