import Scaffold.Proofs.Grammar

/-!
# Spelling

The text of some pieces does not depend on the gap in front of them.
-/

namespace Scaffold.Source

namespace Lexeme

/-- The lexeme behind another gap. -/
def regap (g : List Trivia) (l : Lexeme) : Lexeme := { l with gap := g }

@[simp] theorem regap_gap (g : List Trivia) (l : Lexeme) : (l.regap g).gap = g := rfl

@[simp] theorem regap_shape (g : List Trivia) (l : Lexeme) : (l.regap g).shape = l.shape := rfl

@[simp] theorem regap_text (g : List Trivia) (l : Lexeme) : (l.regap g).text = l.text := rfl

theorem regap_same (l : Lexeme) : l.regap l.gap = l := rfl

/-- Some blanks in front, if any. -/
def blanks (text : String) : List Trivia :=
  if text.isEmpty then [] else [.blank text.toList]

/-- A word behind blanks. -/
def word (blank text : String) : Lexeme := ⟨blanks blank, .word, text⟩

/-- A single character behind blanks. -/
def sign (blank : String) (c : Char) : Lexeme := ⟨blanks blank, .symbol, c.toString⟩

end Lexeme

namespace Piece

@[simp] theorem word_lexeme_word (b t : String) : (lexeme (.word b t)).word? = some t := rfl

@[simp] theorem word_lexeme_sign (b : String) (c : Char) : (lexeme (.sign b c)).word? = none := rfl

@[simp] theorem isWord_lexeme_sign (b : String) (c : Char) (w : String) :
    (lexeme (.sign b c)).isWord w = false := rfl

@[simp] theorem isSymbol_lexeme_word (b t : String) (c : Char) :
    (lexeme (.word b t)).isSymbol c = false := rfl

@[simp] theorem isSymbol_lexeme_sign (b : String) (c d : Char) :
    (lexeme (.sign b c)).isSymbol d = decide (c = d) := by
  simp [isSymbol, Lexeme.sign, Char.toString, String.singleton_inj]

@[simp] theorem isArrow_lexeme_word (b t : String) : (lexeme (.word b t)).isArrow = false := rfl

@[simp] theorem isGroup_lexeme (l : Lexeme) (c : Char) : (lexeme l).isGroup c = false := rfl

def regap (g : List Trivia) : Piece → Piece
  | lexeme l => lexeme (l.regap g)
  | group o inner e => group (o.regap g) inner e

/-- The pieces behind another gap. -/
def regapFirst (g : List Trivia) : List Piece → List Piece
  | [] => []
  | p :: ps => p.regap g :: ps

variable {p : Piece} {ps : List Piece} {c : Char}

theorem charsOf_append (ps qs : List Piece) : charsOf (ps ++ qs) = charsOf ps ++ charsOf qs := by
  induction ps with
  | nil => rfl
  | cons p ps ih => simp [charsOf, ih]

/-- The characters of a piece from its first lexeme on. -/
def inkOf : Piece → List Char
  | lexeme l => l.text.toList
  | group o inner e => o.text.toList ++ (charsOf inner ++ (e.map lexemeChars).getD [])

theorem chars_ink (p : Piece) : p.chars = p.first.gapChars ++ inkOf p := by
  cases p <;> simp [chars, inkOf, first, lexemeChars]

@[simp] theorem spell_nil : spell [] = "" := rfl

theorem spell_cons (p : Piece) (ps : List Piece) :
    spell (p :: ps) = String.ofList (inkOf p ++ charsOf ps) := by
  simp [spell, charsOf, chars_ink]

theorem inkOf_regap (g : List Trivia) (p : Piece) : inkOf (p.regap g) = inkOf p := by
  cases p <;> rfl

theorem spell_regapFirst (g : List Trivia) (ps : List Piece) :
    spell (regapFirst g ps) = spell ps := by
  cases ps with
  | nil => rfl
  | cons p ps => rw [regapFirst, spell_cons, spell_cons, inkOf_regap]

/-- The character of a symbol or a bracket. -/
theorem mem_inkOf (h : p.isSymbol c = true ∨ p.isGroup c = true) : c ∈ inkOf p := by
  rcases h with h | h
  · cases p with
    | group => cases h
    | lexeme l =>
      simp only [isSymbol, Bool.and_eq_true, decide_eq_true_eq] at h
      simp [inkOf, h.2]
  · cases p with
    | lexeme => cases h
    | group o inner e =>
      simp only [isGroup, group?] at h
      split at h
      · next ho => simp [inkOf, ho]
      · cases h

theorem mem_charsOf (h : p.isSymbol c = true ∨ p.isGroup c = true) (hp : p ∈ ps) :
    c ∈ charsOf ps := by
  obtain ⟨front, back, rfl⟩ := List.append_of_mem hp
  simp [charsOf_append, charsOf, chars_ink, mem_inkOf h]

theorem mem_spell (h : p.isSymbol c = true ∨ p.isGroup c = true) (hp : p ∈ ps) :
    c ∈ (spell ps).toList := by
  cases ps with
  | nil => cases hp
  | cons q ps =>
    rw [spell_cons, String.toList_ofList, List.mem_append]
    rcases List.mem_cons.mp hp with rfl | hp
    · exact .inl (mem_inkOf h)
    · exact .inr (mem_charsOf h hp)

/-- Names with dots between them are a qualified name, up to what is no dot. -/
theorem qualifiedName_dotted {isName : Piece → Bool} {rest : List Piece}
    (hnames : ∀ q, isName q = true → q.isSymbol '.' = false) {ws : List (Piece × Piece)}
    (hp : isName p = true)
    (hws : ∀ w ∈ ws, w.1.isSymbol '.' = true ∧ isName w.2 = true)
    (hrest : rest.head?.any (·.isSymbol '.') = false) :
    qualifiedName isName [] (p :: ws.flatMap (fun w => [w.1, w.2]) ++ rest) =
      p :: ws.flatMap fun w => [w.1, w.2] := by
  have hgo (taken : List Piece) {p : Piece} (hp : isName p = true) :
      qualifiedName isName (p :: taken) (ws.flatMap (fun w => [w.1, w.2]) ++ rest) =
        taken.reverse ++ p :: ws.flatMap fun w => [w.1, w.2] := by
    induction ws generalizing taken p with
    | nil =>
      cases rest with
      | nil => simp [qualifiedName]
      | cons r rest =>
        have hr : r.isSymbol '.' = false := by simpa using hrest
        simp [qualifiedName, hnames p hp, hr]
    | cons w ws ih =>
      rw [List.forall_mem_cons] at hws
      simp only [List.flatMap_cons, List.cons_append, List.nil_append]
      rw [qualifiedName]
      simp [qualifiedName, hnames p hp, hws.1, ih hws.2]
  rw [List.cons_append, qualifiedName, if_pos hp]
  exact hgo [] hp

end Piece

variable {N : Type}

namespace Tree

mutual

def regap (g : List Trivia) : Tree N → Tree N
  | leaf l => leaf (l.regap g)
  | group o ts e => group (o.regap g) ts e
  | node n ts => node n (regaps g ts)

/-- The trees behind another gap: the first of them that has a lexeme gets it. -/
def regaps (g : List Trivia) : List (Tree N) → List (Tree N)
  | [] => []
  | t :: ts => if t.pieces.isEmpty then t :: regaps g ts else t.regap g :: ts

end

@[simp] theorem length_regaps (g : List Trivia) (ts : List (Tree N)) :
    (regaps g ts).length = ts.length := by
  induction ts with
  | nil => rfl
  | cons t ts ih =>
    rw [regaps]
    split
    · simp [ih]
    · rfl

mutual

theorem pieces_regap (g : List Trivia) (t : Tree N) :
    (t.regap g).pieces = Piece.regapFirst g t.pieces := by
  cases t with
  | leaf l => simp [regap, Piece.regapFirst, Piece.regap]
  | group o ts e => simp [regap, Piece.regapFirst, Piece.regap]
  | node n ts => simpa [regap] using piecesOf_regaps g ts

theorem piecesOf_regaps (g : List Trivia) (ts : List (Tree N)) :
    piecesOf (regaps g ts) = Piece.regapFirst g (piecesOf ts) := by
  cases ts with
  | nil => simp [regaps, Piece.regapFirst]
  | cons t ts =>
    rw [regaps]
    split
    · next h =>
      rw [List.isEmpty_iff] at h
      simpa [h] using piecesOf_regaps g ts
    · next h =>
      rw [piecesOf_cons, piecesOf_cons, pieces_regap g t]
      cases hp : t.pieces with
      | nil => simp [hp] at h
      | cons p ps => rfl

end

end Tree

end Scaffold.Source
