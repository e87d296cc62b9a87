import Scaffold.Source.Java.Reader

/-!
# The search for a declaration

The declaration that an outline answers with is found without building the
outline: piece by piece, the pieces between brackets before those behind them.
-/

namespace Scaffold.Source

open Rose

theorem Rose.findFirst_append {α : Type} (p : α → Bool) (ts us : List (Rose α)) :
    findFirst p (ts ++ us) = (findFirst p ts).or (findFirst p us) := by
  fun_induction findFirst p ts with
  | case1 => simp
  | case2 a ts stack h => rw [List.cons_append, findFirst, if_pos h, Option.some_or]
  | case3 a ts stack h ih =>
    rw [List.cons_append, findFirst, if_neg h, ← ih, List.append_assoc]

namespace Outline

theorem firstDeclaration_append (ts us : List Outline) :
    firstDeclaration? (ts ++ us) = (firstDeclaration? ts).or (firstDeclaration? us) := by
  rw [firstDeclaration?, findFirst_append]
  cases h : findFirst (·.declaration?.isSome) ts with
  | none => simp [firstDeclaration?, h]
  | some o =>
    have : (o.label.declaration?).isSome := by
      fun_induction findFirst (·.declaration?.isSome) ts with
      | case1 => cases h
      | case2 a us stack ha =>
        cases h
        exact ha
      | case3 _ _ _ _ ih => exact ih h
    obtain ⟨d, hd⟩ := Option.isSome_iff_exists.mp this
    simp [firstDeclaration?, h, hd]

theorem firstDeclaration_region (ts us : List Outline) :
    firstDeclaration? (.node .region ts :: us) =
      (firstDeclaration? ts).or (firstDeclaration? us) := by
  rw [← firstDeclaration_append, firstDeclaration?, firstDeclaration?, findFirst, if_neg]
  simp [Label.declaration?]

theorem firstDeclaration_declaration (d : Declaration) (ts us : List Outline) :
    firstDeclaration? (.node (.declaration d) ts :: us) = some d := by
  rw [firstDeclaration?, findFirst, if_pos (by rfl), Option.bind_some]
  rfl

variable {recognise : Recogniser} {members : Bool} {previous : Option Piece} {ps : List Piece}

/-- A lexeme at which nothing is recognised is passed over. -/
theorem firstDeclaration_lexeme {l : Lexeme}
    (h : recognise members previous (.lexeme l :: ps) = none) :
    firstDeclaration? (scan recognise members false 0 previous (.lexeme l :: ps)).2 =
      firstDeclaration? (scan recognise members false 0 (some (.lexeme l)) ps).2 := by
  rw [scan, h]
  dsimp only
  rw [firstDeclaration_region, within]
  simp [firstDeclaration?, findFirst]

theorem firstDeclaration_head {p : Piece} {head : Head} {d : Declaration}
    (h : recognise members previous (p :: ps) = some head) (hd : head.label = .declaration d) :
    firstDeclaration? (scan recognise members false 0 previous (p :: ps)).2 = some d := by
  rw [scan, h]
  dsimp only
  rw [hd, firstDeclaration_declaration]

/-- Where no head has been recognised no pieces belong to one. -/
theorem scan_fst (members pendingMembers : Bool) (previous : Option Piece) (ps : List Piece) :
    (scan recognise members pendingMembers 0 previous ps).1 = [] := by
  cases ps with
  | nil => simp [scan]
  | cons p ps => rw [scan]; dsimp only; split <;> rfl

mutual

/-- The first declaration between the brackets of a piece, with the pieces from its first one on. -/
def seenWithin (recognise : Recogniser) (members : Bool) : Piece → Option (Declaration × List Piece)
  | .lexeme _ => none
  | .group _ inner _ => seen recognise members false 0 none inner

/-- The first declaration in some pieces, with the pieces from its first one on. -/
def seen (recognise : Recogniser) (members pendingMembers : Bool) (pending : Nat)
    (previous : Option Piece) : List Piece → Option (Declaration × List Piece)
  | [] => none
  | p :: ps =>
    match pending with
    | pending + 1 =>
      (seenWithin recognise pendingMembers p).or
        (seen recognise members pendingMembers pending (some p) ps)
    | 0 =>
      match recognise members previous (p :: ps) with
      | some ⟨.declaration d, _, _⟩ => some (d, p :: ps)
      | some ⟨.region, length, inMembers⟩ =>
        (seenWithin recognise inMembers p).or
          (seen recognise members inMembers (length - 1) (some p) ps)
      | none =>
        (seenWithin recognise false p).or (seen recognise members false 0 (some p) ps)

end

mutual

theorem map_seenWithin (members : Bool) (p : Piece) :
    (seenWithin recognise members p).map Prod.fst =
      firstDeclaration? (within recognise members p) := by
  match p with
  | .lexeme l => simp [seenWithin, within, firstDeclaration?, findFirst]
  | .group o inner e =>
    have hinner := map_seen members false 0 none inner
    rw [scan_fst, List.nil_append] at hinner
    rw [seenWithin, within, hinner]

/-- What is seen first is the declaration that the outlines answer with. -/
theorem map_seen (members pendingMembers : Bool) (pending : Nat) (previous : Option Piece)
    (ps : List Piece) :
    (seen recognise members pendingMembers pending previous ps).map Prod.fst =
      firstDeclaration? ((scan recognise members pendingMembers pending previous ps).1 ++
        (scan recognise members pendingMembers pending previous ps).2) := by
  match ps with
  | [] => simp [seen, scan, firstDeclaration?, findFirst]
  | p :: ps =>
    have hinner (inMembers : Bool) := map_seenWithin inMembers p
    have hrest (inMembers : Bool) (pending : Nat) := map_seen members inMembers pending (some p) ps
    cases pending with
    | succ pending =>
      simp [seen, scan, Option.map_or, hinner, hrest, firstDeclaration_append]
    | zero =>
      rw [seen, scan]
      cases recognise members previous (p :: ps) with
      | none =>
        simp [Option.map_or, hinner, hrest, firstDeclaration_region, scan_fst]
      | some head =>
        obtain ⟨_ | d, length, inMembers⟩ := head
        · simp [Option.map_or, hinner, hrest, firstDeclaration_append, firstDeclaration_region,
            Option.or_assoc]
        · simp [firstDeclaration_declaration]

end

/-- The declaration is recognised at the head of the pieces. -/
def Sees (recognise : Recogniser) (x : Declaration × List Piece) : Prop :=
  ∃ members previous head, recognise members previous x.2 = some head ∧
    head.label = .declaration x.1

mutual

theorem sees_seenWithin (members : Bool) (p : Piece) :
    ∀ x ∈ seenWithin recognise members p, Sees recognise x := by
  match p with
  | .lexeme l => simp [seenWithin]
  | .group o inner e =>
    rw [seenWithin]
    exact sees_seen members false 0 none inner

/-- What is seen is recognised where it stands. -/
theorem sees_seen (members pendingMembers : Bool) (pending : Nat) (previous : Option Piece)
    (ps : List Piece) :
    ∀ x ∈ seen recognise members pendingMembers pending previous ps, Sees recognise x := by
  match ps with
  | [] => simp [seen]
  | p :: ps =>
    have hor (inMembers inMembers' : Bool) (pending : Nat) :
        ∀ x ∈ (seenWithin recognise inMembers p).or
          (seen recognise members inMembers' pending (some p) ps), Sees recognise x := by
      intro x hx
      rcases Option.or_eq_some_iff.mp hx with h | ⟨-, h⟩
      · exact sees_seenWithin inMembers p x h
      · exact sees_seen members inMembers' pending (some p) ps x h
    cases pending with
    | succ pending =>
      rw [seen]
      exact hor _ _ _
    | zero =>
      rw [seen]
      cases hr : recognise members previous (p :: ps) with
      | none => exact hor _ _ _
      | some head =>
        obtain ⟨_ | d, length, inMembers⟩ := head
        · exact hor _ _ _
        · intro x hx
          cases hx
          exact ⟨members, previous, _, hr, rfl⟩

end

end Outline

namespace Java

mutual

/-- The first declaration between the brackets of a piece. -/
def firstWithin : Piece → Option Declaration
  | .lexeme _ => none
  | .group _ inner _ => firstIn none inner

/-- The first declaration in some pieces, given the piece before them. -/
def firstIn (previous : Option Piece) : List Piece → Option Declaration
  | [] => none
  | p :: ps =>
    if previous.any (·.isSymbol '.') then (firstWithin p).or (firstIn (some p) ps)
    else
      match typeDeclaration? (p :: ps) with
      | some found => some found.1
      | none => (firstWithin p).or (firstIn (some p) ps)

end

/-- The piece before what follows the given pieces. -/
def lastPiece (previous : Option Piece) (ps : List Piece) : Option Piece :=
  ps.getLast?.or previous

mutual

theorem firstDeclaration_within (members : Bool) (p : Piece) :
    Outline.firstDeclaration? (Outline.within recognise members p) = firstWithin p := by
  cases p with
  | lexeme l => simp [Outline.within, firstWithin, Outline.firstDeclaration?, findFirst]
  | group o inner e =>
    rw [Outline.within, firstWithin]
    exact firstDeclaration_scan members none inner

theorem firstDeclaration_scan (members : Bool) (previous : Option Piece) (ps : List Piece) :
    Outline.firstDeclaration? (Outline.scan recognise members false 0 previous ps).2 =
      firstIn previous ps := by
  cases ps with
  | nil => simp [Outline.scan, firstIn, Outline.firstDeclaration?, findFirst]
  | cons p ps =>
    have hregion : Outline.firstDeclaration?
          (.node .region (Outline.within recognise false p) ::
            (Outline.scan recognise members false 0 (some p) ps).2) =
        (firstWithin p).or (firstIn (some p) ps) := by
      rw [Outline.firstDeclaration_region, firstDeclaration_within false p,
        firstDeclaration_scan members (some p) ps]
    rw [Outline.scan, firstIn, recognise]
    by_cases hdot : previous.any (·.isSymbol '.') = true
    · rw [if_pos hdot, if_pos hdot]
      exact hregion
    · rw [if_neg hdot, if_neg hdot]
      cases typeDeclaration? (p :: ps) with
      | none => exact hregion
      | some found => exact Outline.firstDeclaration_declaration ..

end

/-- The outline answers with the first declaration. -/
theorem firstDeclaration_outline (ps : List Piece) :
    Outline.firstDeclaration? (outline ps) = firstIn none ps :=
  firstDeclaration_scan false none ps

end Java

end Scaffold.Source
