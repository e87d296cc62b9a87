import Scaffold.Proofs.Grammar

/-!
# Type arguments

Angles are no brackets: a `<` opens a list of type arguments only where nothing
but types stands up to the `>` that closes it. A cut at the commas outside such
lists finds those between declarators, whatever operators their initialisers
hold, since no list of types reaches over a declarator with an initialiser or
over the last one.
-/

namespace Scaffold.Source.Piece

/-- What may stand among type arguments beside nested angles. -/
def isArgument (p : Piece) : Bool :=
  !p.isSymbol '<' && !p.isSymbol '>' &&
    (p.word?.isSome || p.isGroup '(' || p.isGroup '[' || p.isArrow ||
      [',', '.', '?', '&', '@', '*'].any p.isSymbol)

/-- What stands for itself outside type arguments that commas separate. -/
def isLoose (p : Piece) : Bool := !p.isSymbol ','

/-- No angle. -/
def isStraight (p : Piece) : Bool := !p.isSymbol '<' && !p.isSymbol '>'

/-- Pieces of one sort and, among them, lists of type arguments between angles. -/
inductive Angled : (Piece → Bool) → List Piece → Prop
  | nil {plain} : Angled plain []
  | cons {plain p ps} : plain p = true → Angled plain ps → Angled plain (p :: ps)
  | block {plain a inner b ps} : a.isSymbol '<' = true → Angled isArgument inner →
      b.isSymbol '>' = true → Angled plain ps → Angled plain (a :: inner ++ b :: ps)

/-- Two symbols that one piece is are the same. -/
theorem isSymbol_unique {p : Piece} {c d : Char} (hc : p.isSymbol c = true)
    (hd : p.isSymbol d = true) : c = d := by
  cases p with
  | group => simp [isSymbol] at hc
  | lexeme l =>
    simp only [isSymbol, Bool.and_eq_true, decide_eq_true_eq] at hc hd
    have := hc.2.symm.trans hd.2
    simpa [Char.toString, String.singleton_inj] using this

theorem isSymbol_false {p : Piece} {c d : Char} (hc : p.isSymbol c = true) (h : c ≠ d) :
    p.isSymbol d = false := by
  cases hd : p.isSymbol d with
  | false => rfl
  | true => exact absurd (isSymbol_unique hc hd) h

section

-- A piece is a word, a symbol or a group, and no two of them.

variable {p : Piece}

theorem isSymbol_word (h : p.word?.isSome = true) (c : Char) : p.isSymbol c = false := by
  cases p with
  | group => rfl
  | lexeme l =>
    simp only [word?] at h
    split at h
    · next hs => simp [isSymbol, hs]
    · cases h

theorem isGroup_word (h : p.word?.isSome = true) (c : Char) : p.isGroup c = false := by
  cases p with
  | group => simp [word?] at h
  | lexeme => rfl

theorem word_symbol {c : Char} (h : p.isSymbol c = true) : p.word? = none := by
  cases hp : p.word? with
  | none => rfl
  | some w => rw [isSymbol_word (by simp [hp])] at h; cases h

theorem isGroup_symbol {c : Char} (h : p.isSymbol c = true) (d : Char) : p.isGroup d = false := by
  cases p with
  | group => cases h
  | lexeme => rfl

theorem isArrow_symbol {c : Char} (h : p.isSymbol c = true) : p.isArrow = false := by
  cases p with
  | group => rfl
  | lexeme l =>
    simp only [isSymbol, Bool.and_eq_true, decide_eq_true_eq] at h
    simp only [isArrow, Bool.and_eq_false_imp, decide_eq_false_iff_not]
    intro _ ha
    have := congrArg String.length (ha.symm.trans h.2)
    rw [Char.toString, String.length_singleton] at this
    cases this

theorem isSymbol_group {c : Char} (h : p.isGroup c = true) (d : Char) : p.isSymbol d = false := by
  cases p with
  | group => rfl
  | lexeme => cases h

theorem isArrow_group {c : Char} (h : p.isGroup c = true) : p.isArrow = false := by
  cases p with
  | lexeme => cases h
  | group => rfl

theorem word_group {c : Char} (h : p.isGroup c = true) : p.word? = none := by
  cases p with
  | group => rfl
  | lexeme => cases h

theorem isGroup_unique {c d : Char} (hc : p.isGroup c = true) (hd : p.isGroup d = true) :
    c = d := by
  cases p with
  | lexeme => cases hc
  | group o inner e =>
    simp only [isGroup, group?] at hc hd
    split at hc
    · split at hd
      · next h h' => simpa [Char.toString, String.singleton_inj] using h.symm.trans h'
      · cases hd
    · cases hc

theorem isGroup_false {c d : Char} (hc : p.isGroup c = true) (h : c ≠ d) :
    p.isGroup d = false := by
  cases hd : p.isGroup d with
  | false => rfl
  | true => exact absurd (isGroup_unique hc hd) h

theorem isWord_false {w : String} (h : p.word? = none) : p.isWord w = false := by
  simp [isWord, h]

theorem isWord_unique {w v : String} (h : p.isWord w = true) (hne : w ≠ v) :
    p.isWord v = false := by
  simp only [isWord, decide_eq_true_eq] at h
  simpa [isWord, h] using hne

theorem word_of_isWord {w : String} (h : p.isWord w = true) : p.word?.isSome = true := by
  simp only [isWord, decide_eq_true_eq] at h
  simp [h]

end

theorem isStraight_of_isArgument {p : Piece} (h : isArgument p = true) : isStraight p = true := by
  rw [isArgument, Bool.and_eq_true] at h
  exact h.1

theorem skipAngles_zero {ps : List Piece} (h : ps.head?.any (·.isSymbol '<') = false) :
    skipAngles 0 ps = ps := by
  cases ps with
  | nil => rfl
  | cons p ps => exact if_neg (by simpa using h)

theorem skipAngles_succ (depth : Nat) (p : Piece) (ps : List Piece) :
    skipAngles (depth + 1) (p :: ps) =
      if p.isSymbol '<' then skipAngles (depth + 2) ps
      else if p.isSymbol '>' then if depth = 0 then ps else skipAngles depth ps
      else skipAngles (depth + 1) ps := by
  cases depth <;> rfl

namespace Angled

variable {plain : Piece → Bool} {ps qs rest : List Piece} {a b : Piece}

theorem append (hp : Angled plain ps) (hq : Angled plain qs) : Angled plain (ps ++ qs) := by
  induction hp with
  | nil => exact hq
  | cons h _ ih => exact .cons h (ih hq)
  | block ha hi hb _ _ ih => simpa using Angled.block ha hi hb (ih hq)

/-- What stands in front is a piece of its own or opens a list. -/
theorem tail (h : Angled plain (a :: ps)) (ha : a.isSymbol '<' = false) : Angled plain ps := by
  cases h with
  | cons _ h => exact h
  | block ha' => rw [ha'] at ha; cases ha

theorem mono {wide : Piece → Bool} (h : ∀ p, plain p = true → wide p = true)
    (hp : Angled plain ps) : Angled wide ps := by
  induction hp with
  | nil => exact .nil
  | cons hp _ ih => exact .cons (h _ hp) (ih h)
  | block ha hi hb _ _ ih => exact .block ha hi hb (ih h)

-- A list of type arguments is read past at the depth at which it is met.

theorem typeArgumentsFollow_append (hp : Angled plain ps)
    (h : ∀ p, plain p = true → isArgument p = true) (depth : Nat) :
    typeArgumentsFollow (depth + 1) (ps ++ rest) = typeArgumentsFollow (depth + 1) rest := by
  induction hp generalizing depth rest with
  | nil => rfl
  | @cons plain p ps hp _ ih =>
    have harg := h p hp
    simp only [isArgument, Bool.and_eq_true, Bool.not_eq_true'] at harg
    rw [List.cons_append, typeArgumentsFollow, if_neg (by simp [harg.1.1]),
      if_neg (by simp [harg.1.2]), if_pos harg.2, ih h]
  | @block plain a inner b ps ha _ hb _ ihi ih =>
    have hlt : b.isSymbol '<' = false := isSymbol_false hb (by decide)
    simp only [List.cons_append, List.append_assoc]
    rw [typeArgumentsFollow, if_pos ha, ihi fun _ => id, typeArgumentsFollow,
      if_neg (by simp [hlt]), if_pos hb, if_neg (by omega), Nat.add_sub_cancel, ih h]

theorem skipAngles_append (hp : Angled plain ps)
    (h : ∀ p, plain p = true → isStraight p = true) (depth : Nat) :
    skipAngles (depth + 1) (ps ++ rest) = skipAngles (depth + 1) rest := by
  induction hp generalizing depth rest with
  | nil => rfl
  | @cons plain p ps hp _ ih =>
    have hstraight := h p hp
    simp only [isStraight, Bool.and_eq_true, Bool.not_eq_true'] at hstraight
    rw [List.cons_append, skipAngles_succ, if_neg (by simp [hstraight.1]),
      if_neg (by simp [hstraight.2]), ih h]
  | @block plain a inner b ps ha _ hb _ ihi ih =>
    have hlt : b.isSymbol '<' = false := isSymbol_false hb (by decide)
    simp only [List.cons_append, List.append_assoc]
    rw [skipAngles_succ, if_pos ha, ihi fun _ => isStraight_of_isArgument, skipAngles_succ,
      if_neg (by simp [hlt]), if_pos hb, if_neg (by omega), ih h]

/-- A whole list of type parameters or arguments is skipped. -/
theorem skipAngles_block (hp : Angled isStraight ps) (ha : a.isSymbol '<' = true)
    (hb : b.isSymbol '>' = true) : skipAngles 0 (a :: ps ++ b :: rest) = rest := by
  have hlt : b.isSymbol '<' = false := isSymbol_false hb (by decide)
  rw [List.cons_append, skipAngles, if_pos ha, hp.skipAngles_append fun _ => id, skipAngles_succ,
    if_neg (by simp [hlt]), if_pos hb, if_pos rfl]

end Angled

-- ---------------------------------------------------------------------------
-- Cuts at commas
-- ---------------------------------------------------------------------------

/-- Puts pieces in front of the first part. -/
def attach (ps : List Piece) : List (List Piece) → List (List Piece)
  | [] => [ps]
  | part :: parts => (ps ++ part) :: parts

theorem attach_append (ps qs : List Piece) (parts : List (List Piece)) :
    attach (ps ++ qs) parts = attach ps (attach qs parts) := by
  cases parts <;> simp [attach]

theorem attach_nil {parts : List (List Piece)} (h : ¬parts = []) : attach [] parts = parts := by
  cases parts with
  | nil => exact absurd rfl h
  | cons => rfl

theorem splitCommas_ne_nil (depth : Nat) (ps : List Piece) : ¬splitCommas depth ps = [] := by
  cases ps with
  | nil => simp [splitCommas]
  | cons p ps =>
    rw [splitCommas]
    split
    · simp
    · split <;> simp

/-- How many angles are open behind a piece that is no comma at depth zero. -/
def deepen (depth : Nat) (p : Piece) (ps : List Piece) : Nat :=
  if p.isSymbol '<' && (depth != 0 || typeArgumentsFollow 1 ps) then depth + 1
  else if p.isSymbol '>' then depth - 1
  else depth

theorem splitCommas_cons {depth : Nat} {p : Piece} (ps : List Piece)
    (h : p.isSymbol ',' = false ∨ depth ≠ 0) :
    splitCommas depth (p :: ps) = attach [p] (splitCommas (deepen depth p ps) ps) := by
  have hcomma : (p.isSymbol ',' && depth == 0) = false := by
    rcases h with h | h <;> simp [h]
  rw [splitCommas, hcomma, if_neg (by decide)]
  change (match splitCommas (deepen depth p ps) ps with
    | [] => [[p]]
    | part :: parts => (p :: part) :: parts) = _
  cases splitCommas (deepen depth p ps) ps <;> rfl

theorem splitCommas_comma {p : Piece} (ps : List Piece) (h : p.isSymbol ',' = true) :
    splitCommas 0 (p :: ps) = [] :: splitCommas 0 ps := by
  rw [splitCommas, h]
  rfl

/-- Where angles are open, types follow up to those that close them. -/
def Open (depth : Nat) (ps : List Piece) : Prop :=
  depth = 0 ∨ typeArgumentsFollow depth ps = true

theorem Open.deepen {depth : Nat} {p : Piece} {ps : List Piece} (h : Open depth (p :: ps)) :
    Open (deepen depth p ps) ps := by
  unfold Piece.deepen
  by_cases hlt : p.isSymbol '<' = true
  · by_cases hd : depth = 0
    · subst hd
      by_cases hf : typeArgumentsFollow 1 ps = true
      · simp [hlt, hf, Open]
      · have hgt : p.isSymbol '>' = false := isSymbol_false hlt (by decide)
        simp [hlt, hf, hgt, Open]
    · have := h.resolve_left hd
      rw [typeArgumentsFollow, if_pos hlt] at this
      simp [hlt, hd, Open, this]
  · simp only [hlt, Bool.false_and, Bool.false_eq_true, if_false]
    rcases h with rfl | h
    · left
      split <;> rfl
    · rw [typeArgumentsFollow, if_neg hlt] at h
      split
      · rename_i hgt
        rw [if_pos hgt] at h
        split at h
        · left
          omega
        · exact .inr h
      · rename_i hgt
        rw [if_neg hgt] at h
        split at h
        · exact .inr h
        · cases h

/-- No list of type arguments that has been opened before reaches over these pieces. -/
def Blocks (ps : List Piece) : Prop :=
  ∀ depth, typeArgumentsFollow (depth + 1) ps = false

theorem Open.eq_zero {depth : Nat} {ps : List Piece} (h : Open depth ps) (hb : Blocks ps) :
    depth = 0 := by
  cases depth with
  | zero => rfl
  | succ depth =>
    rcases h with h | h
    · cases h
    · rw [hb depth] at h
      cases h

namespace Angled

variable {plain : Piece → Bool} {ps rest : List Piece} {depth : Nat}

theorem deepen_block {a b : Piece} (hp : Angled isArgument ps) (ha : a.isSymbol '<' = true)
    (hb : b.isSymbol '>' = true) : deepen depth a (ps ++ b :: rest) = depth + 1 := by
  cases depth with
  | zero =>
    have hlt : b.isSymbol '<' = false := isSymbol_false hb (by decide)
    have : typeArgumentsFollow 1 (ps ++ b :: rest) = true := by
      rw [hp.typeArgumentsFollow_append (fun _ => id), typeArgumentsFollow,
        if_neg (by simp [hlt]), if_pos hb]
      rfl
    simp [deepen, ha, this]
  | succ depth => simp [deepen, ha]

theorem splitCommas_inside (hp : Angled plain ps)
    (h : ∀ p, plain p = true → isArgument p = true) :
    splitCommas (depth + 1) (ps ++ rest) = attach ps (splitCommas (depth + 1) rest) := by
  induction hp generalizing depth rest with
  | nil => exact (attach_nil (splitCommas_ne_nil _ _)).symm
  | @cons plain p ps hp _ ih =>
    have harg := h p hp
    simp only [isArgument, Bool.and_eq_true, Bool.not_eq_true'] at harg
    have hsame : deepen (depth + 1) p (ps ++ rest) = depth + 1 := by
      simp [deepen, harg.1.1, harg.1.2]
    rw [List.cons_append, splitCommas_cons _ (.inr (by omega)), hsame, ih h, ← attach_append]
    rfl
  | @block plain a inner b ps ha _ hb _ ihi ih =>
    have hopen (qs : List Piece) : deepen (depth + 1) a qs = depth + 2 := by simp [deepen, ha]
    have hclose (qs : List Piece) : deepen (depth + 2) b qs = depth + 1 := by
      simp [deepen, isSymbol_false hb (d := '<') (by decide), hb]
    simp only [List.cons_append, List.append_assoc]
    rw [splitCommas_cons _ (.inr (by omega)), hopen, ihi fun _ => id,
      splitCommas_cons _ (.inr (by omega)), hclose, ih h]
    simp only [← attach_append, List.cons_append, List.nil_append]

/-- Operators may have opened angles behind the pieces, but only such as types follow. -/
theorem splitCommas_loose (hp : Angled plain ps) (h : ∀ p, plain p = true → isLoose p = true)
    (ho : Open depth (ps ++ rest)) :
    ∃ depth', Open depth' rest ∧
      splitCommas depth (ps ++ rest) = attach ps (splitCommas depth' rest) := by
  induction hp generalizing depth rest with
  | nil => exact ⟨depth, ho, (attach_nil (splitCommas_ne_nil _ _)).symm⟩
  | @cons plain p ps hp _ ih =>
    have hcomma : p.isSymbol ',' = false := by simpa [isLoose] using h p hp
    obtain ⟨depth', ho', he⟩ := ih h ho.deepen
    refine ⟨depth', ho', ?_⟩
    rw [List.cons_append, splitCommas_cons _ (.inl hcomma)]
    exact (congrArg (attach [p]) he).trans (attach_append [p] ps _).symm
  | @block plain a inner b ps ha hi hb _ _ ih =>
    have hlt : b.isSymbol '<' = false := isSymbol_false hb (by decide)
    simp only [List.cons_append, List.append_assoc] at ho ⊢
    have hopen : deepen depth a (inner ++ b :: (ps ++ rest)) = depth + 1 := hi.deepen_block ha hb
    have hclose : deepen (depth + 1) b (ps ++ rest) = depth := by simp [deepen, hlt, hb]
    have hrest : Open depth (ps ++ rest) := by
      have hb' := ho.deepen
      rw [hopen] at hb'
      rcases hb' with hb' | hb'
      · cases hb'
      · rw [hi.typeArgumentsFollow_append (fun _ => id)] at hb'
        rw [← hclose]
        exact Open.deepen (.inr hb')
    obtain ⟨depth', ho', he⟩ := ih h hrest
    refine ⟨depth', ho', ?_⟩
    rw [splitCommas_cons _ (.inl (isSymbol_false ha (by decide))), hopen,
      hi.splitCommas_inside (fun _ => id), splitCommas_cons _ (.inr (by omega)), hclose, he]
    simp only [← attach_append, List.cons_append, List.nil_append]

end Angled

/-- Pieces over which no list of type arguments reaches unless it reaches over what follows. -/
def Closing (ps : List Piece) : Prop :=
  ∀ rest, Blocks rest → Blocks (ps ++ rest)

namespace Closing

variable {p : Piece} {ps qs : List Piece}

theorem nil : Closing [] := fun _ h => h

theorem append (hp : Closing ps) (hq : Closing qs) : Closing (ps ++ qs) := by
  intro rest h
  rw [List.append_assoc]
  exact hp _ (hq _ h)

theorem arguments (hp : Angled isArgument ps) : Closing ps := by
  intro rest h depth
  rw [hp.typeArgumentsFollow_append fun _ => id]
  exact h depth

theorem piece (hlt : p.isSymbol '<' = false) (hgt : p.isSymbol '>' = false) : Closing [p] := by
  intro rest h depth
  rw [List.cons_append, typeArgumentsFollow, if_neg (by simp [hlt]), if_neg (by simp [hgt])]
  split
  · exact h depth
  · rfl

theorem angled (hp : Angled isStraight ps) : Closing ps := by
  generalize hplain : isStraight = plain at hp
  induction hp with
  | nil => exact .nil
  | @cons plain p ps hp _ ih =>
    subst hplain
    simp only [isStraight, Bool.and_eq_true, Bool.not_eq_true'] at hp
    exact (Closing.piece hp.1 hp.2).append (ih rfl)
  | @block plain a inner b ps ha hi hb _ _ ih =>
    have hblock : Closing (a :: inner ++ [b]) := .arguments (.block ha hi hb .nil)
    simpa using hblock.append (ih hplain)

/-- Nothing reaches over a piece that belongs to no type. -/
theorem stop (hlt : p.isSymbol '<' = false) (hgt : p.isSymbol '>' = false)
    (hp : isArgument p = false) : Closing (p :: ps) := by
  intro rest _ depth
  simp only [isArgument, hlt, hgt, Bool.not_false, Bool.true_and] at hp
  rw [List.cons_append, typeArgumentsFollow, if_neg (by simp [hlt]), if_neg (by simp [hgt]), hp]
  rfl

end Closing

/-- The parts that commas separate are told apart. -/
theorem splitCommas_joined {ps : List Piece} {ws : List (Piece × List Piece)} {depth : Nat}
    (hp : Angled isLoose ps) (hws : ∀ w ∈ ws, w.1.isSymbol ',' = true ∧ Angled isLoose w.2 ∧
      Closing w.2)
    (ho : Open depth (ps ++ ws.flatMap fun w => w.1 :: w.2)) :
    splitCommas depth (ps ++ ws.flatMap fun w => w.1 :: w.2) = ps :: ws.map Prod.snd := by
  have hblocks {ws : List (Piece × List Piece)} (hws : ∀ w ∈ ws, w.1.isSymbol ',' = true ∧
      Angled isLoose w.2 ∧ Closing w.2) : Blocks (ws.flatMap fun w => w.1 :: w.2) := by
    induction ws with
    | nil => exact fun _ => rfl
    | cons w ws ih =>
      obtain ⟨hcomma, -, hclosing⟩ := hws w List.mem_cons_self
      have hpiece : Closing [w.1] :=
        .piece (isSymbol_false hcomma (by decide)) (isSymbol_false hcomma (by decide))
      simpa using hpiece.append hclosing _ (ih fun v hv => hws v (List.mem_cons_of_mem _ hv))
  obtain ⟨depth', ho', he⟩ := hp.splitCommas_loose (fun _ => id) ho
  rw [he]
  induction ws generalizing ps depth depth' with
  | nil => simp [splitCommas, attach]
  | cons w ws ih =>
    obtain rfl := ho'.eq_zero (hblocks hws)
    have hrest := fun v hv => hws v (List.mem_cons_of_mem w hv)
    obtain ⟨hcomma, hloose, -⟩ := hws w List.mem_cons_self
    have hopen : Open 0 (w.2 ++ ws.flatMap fun w => w.1 :: w.2) := .inl rfl
    obtain ⟨depth'', ho'', he'⟩ := hloose.splitCommas_loose (fun _ => id) hopen
    rw [List.flatMap_cons, List.cons_append, splitCommas_comma _ hcomma, he',
      ih hloose hrest (.inl rfl) depth'' ho'' he']
    simp [attach]

end Scaffold.Source.Piece
