import Scaffold.Proofs.Mentions

/-!
# The search in preorder

The search keeps the trees that are still to be looked at on a stack. It ends,
and what it ends with is the first match among the subtrees in preorder. The
preorder of an outline is the order of the source, so the declaration that is
found is the one with the fewest lexemes in front.
-/

namespace Scaffold

namespace Source

-- ---------------------------------------------------------------------------
-- Trees
-- ---------------------------------------------------------------------------

namespace Rose

variable {α : Type} {p : α → Bool} {stack : List (Rose α)} {k : Nat} {r : Option (Rose α)}

mutual

/-- The subtrees of a tree, each before those below it. -/
def subtrees : Rose α → List (Rose α)
  | node a ts => node a ts :: subtreesOf ts

def subtreesOf : List (Rose α) → List (Rose α)
  | [] => []
  | t :: ts => t.subtrees ++ subtreesOf ts

end

theorem subtreesOf_append (ts us : List (Rose α)) :
    subtreesOf (ts ++ us) = subtreesOf ts ++ subtreesOf us := by
  induction ts with
  | nil => rfl
  | cons t ts ih => simp [subtreesOf, ih]

theorem map_label_subtreesOf (ts : List (Rose α)) : (subtreesOf ts).map label = preorders ts := by
  match ts with
  | [] => rfl
  | node a us :: ts =>
    simp [subtreesOf, subtrees, preorders, preorder, label, map_label_subtreesOf us,
      map_label_subtreesOf ts]

/-- What is still to be searched is what the trees of the stack hold in preorder, one tree after
the other. -/
theorem findFirst_eq_find (p : α → Bool) (ts : List (Rose α)) :
    findFirst p ts = (subtreesOf ts).find? (p ·.label) := by
  fun_induction findFirst p ts with
  | case1 => rfl
  | case2 a ts stack h => simp [subtreesOf, subtrees, label, h]
  | case3 a ts stack h ih =>
    rw [ih, subtreesOf_append, subtreesOf, subtrees, List.cons_append,
      List.find?_cons_of_neg (by simpa [label] using h)]

/-- A loop over a stack whose top is its end. The top is taken off: if it matches it is the answer,
else its children are put on the stack, the first of them on top. The number counts the trees that
are taken off. -/
inductive Loop (p : α → Bool) : List (Rose α) → Nat → Option (Rose α) → Prop
  | done : Loop p [] 0 none
  | found {stack a ts} : p a = true → Loop p (stack ++ [node a ts]) 1 (some (node a ts))
  | descend {stack a ts k r} : p a = false → Loop p (stack ++ ts.reverse) k r →
      Loop p (stack ++ [node a ts]) (k + 1) r

/-- Whatever the loop ends with, the search answers. -/
theorem Loop.answer (h : Loop p stack k r) : r = findFirst p stack.reverse := by
  induction h with
  | done => simp [findFirst]
  | found ha => simp [findFirst, ha]
  | descend ha _ ih => simpa [findFirst, ha] using ih

/-- The loop takes off each subtree once at most. -/
theorem exists_loop (p : α → Bool) (ts : List (Rose α)) :
    ∃ k ≤ sizes ts, Loop p ts.reverse k (findFirst p ts) := by
  fun_induction findFirst p ts with
  | case1 => exact ⟨0, Nat.zero_le _, .done⟩
  | case2 a ts stack h =>
    refine ⟨1, ?_, ?_⟩
    · simp only [sizes, size]
      omega
    · rw [List.reverse_cons]
      exact .found h
  | case3 a ts stack h ih =>
    obtain ⟨k, hk, hloop⟩ := ih
    refine ⟨k + 1, ?_, ?_⟩
    · rw [sizes_append] at hk
      simp only [sizes, size]
      omega
    · rw [List.reverse_append] at hloop
      rw [List.reverse_cons]
      exact .descend (by simpa using h) hloop

end Rose

-- ---------------------------------------------------------------------------
-- Places of labels
-- ---------------------------------------------------------------------------

open Piece Rose

namespace Outline

mutual

/-- The labels inside a piece in preorder, each with the number of lexemes in front of it, given
the number of those in front of the piece. -/
def labelsWithin (recognise : Recogniser) (members : Bool) (front : Nat) :
    Piece → List (Nat × Label)
  | .lexeme _ => []
  | .group _ inner _ => labels recognise members false 0 none (front + 1) inner

/-- The labels in the outlines of some pieces. -/
def labels (recognise : Recogniser) (members pendingMembers : Bool) (pending : Nat)
    (previous : Option Piece) (front : Nat) : List Piece → List (Nat × Label)
  | [] => []
  | p :: ps =>
    let behind := front + p.lexemes.length
    match pending with
    | pending + 1 =>
      labelsWithin recognise pendingMembers front p ++
        labels recognise members pendingMembers pending (some p) behind ps
    | 0 =>
      match recognise members previous (p :: ps) with
      | some head =>
        (front, head.label) :: (labelsWithin recognise head.members front p ++
          labels recognise members head.members (head.length - 1) (some p) behind ps)
      | none =>
        (front, .region) :: (labelsWithin recognise false front p ++
          labels recognise members false 0 (some p) behind ps)

end

variable {recognise : Recogniser}

mutual

theorem map_labelsWithin (members : Bool) (front : Nat) (p : Piece) :
    (labelsWithin recognise members front p).map Prod.snd =
      preorders (within recognise members p) := by
  match p with
  | .lexeme l => simp [labelsWithin, within, preorders]
  | .group o inner e =>
    rw [labelsWithin, within, map_labels members false 0 none (front + 1) inner, scan_fst]
    rfl

/-- The labels are those of the outlines in preorder. -/
theorem map_labels (members pendingMembers : Bool) (pending : Nat) (previous : Option Piece)
    (front : Nat) (ps : List Piece) :
    (labels recognise members pendingMembers pending previous front ps).map Prod.snd =
      preorders (scan recognise members pendingMembers pending previous ps).1 ++
        preorders (scan recognise members pendingMembers pending previous ps).2 := by
  match ps with
  | [] => simp [labels, scan, preorders]
  | p :: ps =>
    have hinner (inMembers : Bool) := map_labelsWithin inMembers front p
    have hrest (inMembers : Bool) (pending : Nat) :=
      map_labels members inMembers pending (some p) (front + p.lexemes.length) ps
    cases pending with
    | succ pending => simp [labels, scan, preorders_append, hinner, hrest]
    | zero =>
      rw [labels, scan]
      cases recognise members previous (p :: ps) with
      | some head => simp [preorders, preorder, preorders_append, hinner, hrest]
      | none => simp [preorders, preorder, hinner, hrest, scan_fst]

end

/-- The labels stand in order among the lexemes, behind those in front, and where one is a
declaration the recogniser sees it. -/
structure Located (recognise : Recogniser) (front : Nat) (ls : List Lexeme)
    (labels : List (Nat × Label)) : Prop where
  ascending : labels.Pairwise (·.1 < ·.1)
  inside : ∀ x ∈ labels, front ≤ x.1 ∧ x.1 < front + ls.length
  recognised : ∀ k d, (k, .declaration d) ∈ labels → ∃ members previous qs head,
    lexemesOf qs <+: ls.drop (k - front) ∧ recognise members previous qs = some head ∧
      head.label = .declaration d

namespace Located

variable {front : Nat} {ls ms : List Lexeme} {xs ys : List (Nat × Label)}

theorem nil : Located recognise front ls [] := ⟨.nil, nofun, nofun⟩

theorem append (hx : Located recognise front ls xs)
    (hy : Located recognise (front + ls.length) ms ys) :
    Located recognise front (ls ++ ms) (xs ++ ys) where
  ascending := by
    refine List.pairwise_append.mpr ⟨hx.ascending, hy.ascending, fun x hxs y hys => ?_⟩
    have := (hx.inside x hxs).2
    have := (hy.inside y hys).1
    omega
  inside x hmem := by
    rw [List.length_append]
    rcases List.mem_append.mp hmem with h | h
    · have := hx.inside x h
      omega
    · have := hy.inside x h
      omega
  recognised k d hmem := by
    rcases List.mem_append.mp hmem with h | h
    · obtain ⟨members, previous, qs, head, hqs, hr⟩ := hx.recognised k d h
      refine ⟨members, previous, qs, head, hqs.trans ?_, hr⟩
      rw [List.drop_append]
      exact List.prefix_append ..
    · obtain ⟨members, previous, qs, head, hqs, hr⟩ := hy.recognised k d h
      have hk := (hy.inside _ h).1
      refine ⟨members, previous, qs, head, ?_, hr⟩
      have hdrop : (ls ++ ms).drop (k - front) = ms.drop (k - (front + ls.length)) := by
        rw [List.drop_append, List.drop_eq_nil_of_le (by omega), List.nil_append]
        congr 1
        omega
      rwa [hdrop]

/-- Behind one more lexeme. -/
theorem behind (l : Lexeme) (h : Located recognise (front + 1) ls xs) :
    Located recognise front (l :: ls) xs :=
  (nil : Located recognise front [l] []).append h

theorem before (ms : List Lexeme) (h : Located recognise front ls xs) :
    Located recognise front (ls ++ ms) xs := by
  simpa using h.append (nil : Located recognise (front + ls.length) ms [])

/-- A label in front of the first lexeme. -/
theorem cons {l : Lexeme} {label : Label} (h : Located recognise (front + 1) ls xs)
    (hl : ∀ d, label = .declaration d → ∃ members previous qs head,
      lexemesOf qs <+: l :: ls ∧ recognise members previous qs = some head ∧
        head.label = .declaration d) :
    Located recognise front (l :: ls) ((front, label) :: xs) where
  ascending := List.pairwise_cons.mpr ⟨fun x hx => (h.inside x hx).1, h.ascending⟩
  inside x hx := by
    rcases List.mem_cons.mp hx with rfl | hx
    · simp
    · have := h.inside x hx
      rw [List.length_cons]
      omega
  recognised k d hmem := by
    rcases List.mem_cons.mp hmem with he | hmem
    · cases he
      simpa using hl d rfl
    · exact (h.behind l).recognised k d hmem

end Located

theorem lexemes_first (p : Piece) : p.lexemes = p.first :: p.lexemes.tail := by
  cases p <;> rfl

mutual

theorem located_within (members : Bool) (front : Nat) (p : Piece) :
    Located recognise (front + 1) p.lexemes.tail (labelsWithin recognise members front p) := by
  match p with
  | .lexeme l => rw [labelsWithin]; exact .nil
  | .group o inner e =>
    rw [labelsWithin]
    exact (located_labels members false 0 none (front + 1) inner).before _

/-- The labels of pieces stand in the order of their lexemes. -/
theorem located_labels (members pendingMembers : Bool) (pending : Nat) (previous : Option Piece)
    (front : Nat) (ps : List Piece) : Located recognise front (lexemesOf ps)
      (labels recognise members pendingMembers pending previous front ps) := by
  match ps with
  | [] => rw [labels]; exact .nil
  | p :: ps =>
    have hp := lexemes_first p
    have hlength : front + p.lexemes.length = front + 1 + p.lexemes.tail.length := by
      rw [hp, List.length_cons, List.tail_cons]
      omega
    have hbody (inMembers : Bool) (pending : Nat) : Located recognise (front + 1)
        (p.lexemes.tail ++ lexemesOf ps) (labelsWithin recognise inMembers front p ++
          labels recognise members inMembers pending (some p) (front + p.lexemes.length) ps) :=
      (located_within inMembers front p).append
        (hlength ▸ located_labels members inMembers pending (some p) _ ps)
    have hlexemes : lexemesOf (p :: ps) = p.first :: (p.lexemes.tail ++ lexemesOf ps) := by
      rw [lexemesOf, hp]
      rfl
    rw [hlexemes]
    cases pending with
    | succ pending => rw [labels]; exact (hbody pendingMembers pending).behind _
    | zero =>
      rw [labels]
      cases hr : recognise members previous (p :: ps) with
      | some head =>
        have hqs : lexemesOf (p :: ps) <+: p.first :: (p.lexemes.tail ++ lexemesOf ps) :=
          hlexemes ▸ List.prefix_rfl
        exact (hbody head.members _).cons fun d hd => ⟨members, previous, p :: ps, head, hqs, hr, hd⟩
      | none => exact (hbody false 0).cons nofun

end

end Outline

end Source

namespace SourceFile

open Source Piece

def recogniser (s : SourceFile) : Recogniser :=
  match s.language with
  | .java => Java.recognise
  | .kotlin => Kotlin.recognise

/-- The pieces that are searched for declarations: in Kotlin those behind the annotations of the
file. -/
def searched (s : SourceFile) : List Piece :=
  match s.language with
  | .java => s.pieces
  | .kotlin => Kotlin.dropFileAnnotations s.pieces

theorem outline_eq (s : SourceFile) : s.outline = Outline.ofPieces s.recogniser s.searched := by
  unfold outline recogniser searched
  cases s.language <;> rfl

theorem searched_suffix (s : SourceFile) : lexemesOf s.searched <:+ s.lexemes := by
  have hpieces : lexemesOf s.pieces = s.lexemes := lexemesOf_ofLexemes _
  rw [← hpieces]
  refine lexemesOf_suffix ?_
  unfold searched
  cases s.language with
  | java => exact List.suffix_rfl
  | kotlin => exact Kotlin.dropMarks_suffix ..

/-- The class-like declarations of a source in preorder, each with the number of lexemes in front
of it. -/
def declarations (s : SourceFile) : List (Nat × Declaration) :=
  (Outline.labels s.recogniser false false 0 none
      (s.lexemes.length - (lexemesOf s.searched).length) s.searched).filterMap
    fun x => x.2.declaration?.map (x.1, ·)

theorem map_declarations (s : SourceFile) :
    s.declarations.map Prod.snd = (Rose.preorders s.outline).filterMap Label.declaration? := by
  have hlabels := @Outline.map_labels s.recogniser false false 0 none
    (s.lexemes.length - (lexemesOf s.searched).length) s.searched
  rw [Outline.scan_fst] at hlabels
  rw [outline_eq, Outline.ofPieces, declarations, List.map_filterMap]
  simpa [Rose.preorders, List.filterMap_map, Function.comp_def] using
    congrArg (List.filterMap Label.declaration?) hlabels

/-- The declarations stand in order, each where the recogniser sees it. -/
theorem located_declarations (s : SourceFile) : s.declarations.Pairwise (·.1 < ·.1) ∧
    ∀ k d, (k, d) ∈ s.declarations → ∃ members previous qs head,
      lexemesOf qs <+: s.lexemes.drop k ∧ s.recogniser members previous qs = some head ∧
        head.label = .declaration d := by
  obtain ⟨front, hfront⟩ := s.searched_suffix
  have hlength : s.lexemes.length - (lexemesOf s.searched).length = front.length := by
    simp [← hfront]
  have hlocated := @Outline.located_labels s.recogniser false false 0 none
    front.length s.searched
  rw [declarations, hlength]
  constructor
  · rw [List.pairwise_filterMap]
    refine hlocated.ascending.imp fun hlt x hx y hy => ?_
    obtain ⟨_, -, rfl⟩ := Option.map_eq_some_iff.mp hx
    obtain ⟨_, -, rfl⟩ := Option.map_eq_some_iff.mp hy
    exact hlt
  · intro k d hmem
    obtain ⟨⟨i, label⟩, hx, he⟩ := List.mem_filterMap.mp hmem
    obtain ⟨d', hd, he⟩ := Option.map_eq_some_iff.mp he
    obtain ⟨rfl, rfl⟩ : i = k ∧ d' = d := by simpa using he
    cases label with
    | region => cases hd
    | declaration =>
      cases hd
      obtain ⟨members, previous, qs, head, hqs, hr⟩ := hlocated.recognised _ _ hx
      refine ⟨members, previous, qs, head, ?_, hr⟩
      rw [← hfront, List.drop_append, List.drop_eq_nil_of_le (hlocated.inside _ hx).1]
      exact hqs

theorem declaration_eq_head (s : SourceFile) :
    s.declaration? = s.declarations.head?.map Prod.snd := by
  have hfind (ts : List Outline) : (ts.find? (·.label.declaration?.isSome)).bind
      (·.label.declaration?) = ((ts.map Rose.label).filterMap Label.declaration?).head? := by
    induction ts with
    | nil => rfl
    | cons t ts ih => cases h : t.label.declaration? <;> simp [h, ih]
  rw [← List.head?_map, map_declarations, ← Rose.map_label_subtreesOf, ← hfind, declaration?,
    Outline.firstDeclaration?, Rose.findFirst_eq_find]

/-- The search of a tree ends, whatever is searched for, and answers with the first match in
preorder, or with nothing when nothing matches. In a source it finds, below a root that is no
declaration itself, the declaration that begins behind the fewest lexemes. -/
theorem search_finds_earliest :
    (∀ {α : Type} (p : α → Bool) (t : Rose α),
      (∃ k ≤ t.size, Rose.Loop p [t] k (Rose.findFirst p [t])) ∧
      (∀ k r, Rose.Loop p [t] k r → r = Rose.findFirst p [t]) ∧
      Rose.findFirst p [t] = t.subtrees.find? (p ·.label) ∧
      (Rose.findFirst p [t] = none ↔ ∀ u ∈ t.subtrees, p u.label = false)) ∧
    ∀ s : SourceFile,
      s.declaration? = (Rose.findFirst (·.declaration?.isSome) [.node .region s.outline]).bind
        (·.label.declaration?) ∧
      s.declarations.map Prod.snd = (Rose.preorders s.outline).filterMap Label.declaration? ∧
      (∀ k d, (k, d) ∈ s.declarations → ∃ members previous qs head,
        lexemesOf qs <+: s.lexemes.drop k ∧ s.recogniser members previous qs = some head ∧
          head.label = .declaration d) ∧
      (s.declaration? = none ↔ s.declarations = []) ∧
      ∀ d, s.declaration? = some d ↔
        ∃ k, (k, d) ∈ s.declarations ∧ ∀ x ∈ s.declarations, x = (k, d) ∨ k < x.1 := by
  constructor
  · intro α p t
    have hfind : Rose.findFirst p [t] = t.subtrees.find? (p ·.label) := by
      simp [Rose.findFirst_eq_find, Rose.subtreesOf]
    refine ⟨?_, fun k r h => by simpa using h.answer, hfind, by simp [hfind]⟩
    simpa [Rose.sizes] using Rose.exists_loop p [t]
  · intro s
    obtain ⟨hascending, hseen⟩ := s.located_declarations
    have hroot : Rose.findFirst (·.declaration?.isSome) [.node .region s.outline] =
        Rose.findFirst (·.declaration?.isSome) s.outline := by
      simp [Rose.findFirst, Label.declaration?]
    refine ⟨by rw [hroot]; rfl, s.map_declarations, hseen, ?_, fun d => ?_⟩
    · rw [declaration_eq_head]
      simp
    rw [declaration_eq_head]
    cases hs : s.declarations with
    | nil => simp
    | cons first rest =>
      rw [hs, List.pairwise_cons] at hascending
      constructor
      · rintro he
        obtain rfl : first.2 = d := by simpa using he
        exact ⟨first.1, List.mem_cons_self, fun x hx =>
          (List.mem_cons.mp hx).imp_right (hascending.1 x)⟩
      · rintro ⟨k, hmem, hleast⟩
        have hfirst : first = (k, d) := by
          refine (hleast first List.mem_cons_self).resolve_right fun hlt => ?_
          rcases List.mem_cons.mp hmem with rfl | hmem
          · exact absurd hlt (Nat.lt_irrefl _)
          · exact absurd hlt (Nat.lt_asymm (hascending.1 _ hmem))
        simp [hfirst]

/-- A match below the first child comes before one among the later children. -/
theorem search_finds_earliest_of_nested :
    Rose.Loop (2 < ·) [.node 1 [.node 2 [.node 4 []], .node 3 []]] 3 (some (.node 4 [])) ∧
      Rose.findFirst (2 < ·) [.node 1 [.node 2 [.node 4 []], .node 3 []]] = some (.node 4 []) := by
  have hfound : Rose.Loop (2 < ·) ([.node 3 []] ++ [.node 4 []]) 1 (some (.node 4 [])) :=
    .found rfl
  have hbelow : Rose.Loop (2 < ·) ([.node 3 []] ++ [.node 2 [.node 4 []]]) 2
      (some (.node 4 [])) := .descend rfl hfound
  have hloop : Rose.Loop (2 < ·) ([] ++ [.node 1 [.node 2 [.node 4 []], .node 3 []]]) 3
      (some (.node 4 [])) := .descend rfl hbelow
  exact ⟨hloop, ((search_finds_earliest.1 _ _).2.1 _ _ hloop).symm⟩

end SourceFile

end Scaffold
