import Scaffold.Proofs.Angles
import Scaffold.Proofs.Nestings
import Scaffold.Proofs.Java.Syntax

/-!
# Annotations, dimensions and types

Each is read whole, whatever follows it, and what may follow it in a
declaration is left alone.
-/

namespace Scaffold.Source

namespace Piece

theorem isGroup_encloses {c : Char} {o e : Lexeme} (h : Encloses c o e) (ps : List Piece) :
    (group o ps (some e)).isGroup c = true := by
  simp [isGroup, group?, h.bracket]

end Piece

namespace Java

open Piece

def isName (p : Piece) : Bool := (name? p).isSome

/-- Names with dots between them. -/
inductive Dotted : List Piece → Prop
  | last {p} : isName p = true → Dotted [p]
  | dot {p q ps} : isName p = true → q.isSymbol '.' = true → Dotted ps → Dotted (p :: q :: ps)

/-- An annotation: its name and perhaps its arguments. -/
inductive Annotation : List Piece → Prop
  | marker {a ps} : a.isSymbol '@' = true → Dotted ps → Annotation (a :: ps)
  | arguments {a ps g} : a.isSymbol '@' = true → Dotted ps → g.isGroup '(' = true →
      Annotation (a :: ps ++ [g])

/-- Any number of annotations. -/
def Annotations (ps : List Piece) : Prop :=
  ∃ pss : List (List Piece), (∀ qs ∈ pss, Annotation qs) ∧ ps = pss.flatten

variable {p q : Piece} {ps qs rest : List Piece} {l : Lexeme} {w : String} {c : Char}

-- ---------------------------------------------------------------------------
-- Names and reserved words
-- ---------------------------------------------------------------------------

theorem isName_iff : isName p = true ↔ ∃ w, p.word? = some w ∧ w ∉ reserved ∧
    w.toList.head?.map Char.isDigit = some false := by
  rw [isName, name?, Option.isSome_filter, Option.any_eq_true]
  simp

theorem word_of_isName (h : isName p = true) : p.word?.isSome = true := by
  obtain ⟨v, hv, -⟩ := isName_iff.mp h
  simp [hv]

theorem isWord_of_isName (h : isName p = true) (hw : w ∈ reserved) : p.isWord w = false := by
  obtain ⟨v, hv, hr, -⟩ := isName_iff.mp h
  simp only [isWord, hv, Option.some.injEq, decide_eq_false_iff_not]
  rintro rfl
  exact hr hw

theorem isName_of_isWord (h : p.isWord w = true) (hw : w ∈ reserved) : isName p = false := by
  cases hn : isName p with
  | false => rfl
  | true => rw [isWord_of_isName hn hw] at h; cases h

theorem isName_of_word (h : p.word? = none) : isName p = false := by
  simp [isName, name?, h]

theorem isTypeWord_of_isName (h : isName p = true) : isTypeWord p = true := by
  rw [isTypeWord, ← isName, h, Bool.true_or]

theorem isTypeWord_of_primitive (h : p.isWord w = true) (hw : w ∈ primitive) :
    isTypeWord p = true := by
  rw [isTypeWord, Bool.or_eq_true, List.any_eq_true]
  exact .inr ⟨w, hw, h⟩

theorem isTypeWord_iff : isTypeWord p = true ↔
    isName p = true ∨ ∃ w ∈ primitive, p.isWord w = true := by
  rw [isTypeWord, ← isName, Bool.or_eq_true, List.any_eq_true]

theorem word_of_isTypeWord (h : isTypeWord p = true) : p.word?.isSome = true := by
  rcases isTypeWord_iff.mp h with h | ⟨w, -, h⟩
  · exact word_of_isName h
  · exact word_of_isWord h

theorem isTypeWord_of_word (h : p.word? = none) : isTypeWord p = false := by
  cases ht : isTypeWord p with
  | false => rfl
  | true => simpa [h] using word_of_isTypeWord ht

-- ---------------------------------------------------------------------------
-- What the terminals admit
-- ---------------------------------------------------------------------------

theorem grammar_unbracketed : grammar.Unbracketed := by
  intro t l h
  have hflat := Bool.and_eq_true_iff.mp (Bool.and_eq_true_iff.mp h).1
  exact hflat.imp (Bool.not_eq_true' _).mp (Bool.not_eq_true' _).mp

theorem admits_word (h : grammar.admits (.word w) l = true) : (lexeme l).isWord w = true :=
  (Bool.and_eq_true_iff.mp h).2

theorem admits_symbol (h : grammar.admits (.symbol c) l = true) :
    (lexeme l).isSymbol c = true :=
  (Bool.and_eq_true_iff.mp h).2

theorem admits_identifier (h : grammar.admits .identifier l = true) :
    isName (lexeme l) = true :=
  (Bool.and_eq_true_iff.mp h).2

theorem admits_typeIdentifier (h : grammar.admits .typeIdentifier l = true) :
    isName (lexeme l) = true ∧ (lexeme l).isWord "record" = false ∧
      (lexeme l).isWord "sealed" = false := by
  obtain ⟨w, hw, hne⟩ := (Option.any_eq_true _ _).mp (Bool.and_eq_true_iff.mp h).2
  have hword : (lexeme l).word? = some w := by
    rw [name?, Option.filter_eq_some_iff] at hw
    exact hw.1
  simp only [List.mem_cons, List.not_mem_nil, or_false, not_or, decide_eq_true_eq] at hne
  exact ⟨by simp [isName, hw], by simpa [isWord, hword] using hne.1,
    by simpa [isWord, hword] using hne.2⟩

-- ---------------------------------------------------------------------------
-- Modifiers
-- ---------------------------------------------------------------------------

/-- The states between annotations. -/
def AnnotationState.Between : AnnotationState → Prop
  | outside | name => True
  | sign | dot => False

theorem dropModifiers_cons {s : AnnotationState} (hs : s.Between) (p : Piece) (ps : List Piece) :
    dropModifiers s (p :: ps) =
      if s = .name ∧ p.isSymbol '.' then dropModifiers .dot ps
      else if s = .name ∧ p.isGroup '(' then dropModifiers .outside ps
      else if p.isSymbol '@' then
        match ps with
        | q :: _ => if q.isWord "interface" then p :: ps else dropModifiers .sign ps
        | [] => []
      else if modifierWords.any p.isWord then dropModifiers .outside ps
      else
        match ps with
        | q :: r :: rest =>
          if p.isWord "non" && q.isSymbol '-' && r.isWord "sealed" then
            dropModifiers .outside rest
          else p :: ps
        | _ => p :: ps := by
  cases s with
  | outside | name => exact (dropModifiers.eq_def ..).trans rfl
  | sign | dot => cases hs

theorem dropModifiers_open {s : AnnotationState} (hs : s = .sign ∨ s = .dot)
    (hp : isName p = true) : dropModifiers s (p :: ps) = dropModifiers .name ps := by
  rcases hs with rfl | rfl <;> exact if_pos hp

theorem dropModifiers_dotted (h : Dotted ps) {s : AnnotationState} (hs : s = .sign ∨ s = .dot) :
    dropModifiers s (ps ++ rest) = dropModifiers .name rest := by
  induction h generalizing s with
  | last hp => exact dropModifiers_open hs hp
  | @dot p q ps hp hq _ ih =>
    have hstep : dropModifiers .name (q :: (ps ++ rest)) = dropModifiers .dot (ps ++ rest) := by
      rw [dropModifiers_cons (s := .name) trivial, if_pos ⟨rfl, hq⟩]
    rw [List.cons_append, List.cons_append, dropModifiers_open hs hp, hstep, ih (.inr rfl)]

theorem dropModifiers_sign {a : Piece} {s : AnnotationState} (hs : s.Between)
    (ha : a.isSymbol '@' = true) (hp : Dotted ps) :
    dropModifiers s (a :: ps ++ rest) = dropModifiers .name rest := by
  have hdot : a.isSymbol '.' = false := isSymbol_false ha (by decide)
  have hgroup : a.isGroup '(' = false := isGroup_symbol ha _
  rw [← dropModifiers_dotted hp (.inl rfl), List.cons_append, dropModifiers_cons hs,
    if_neg (by simp [hdot]), if_neg (by simp [hgroup]), if_pos ha]
  obtain ⟨p, ps, rfl, hname⟩ : ∃ p qs, ps = p :: qs ∧ isName p = true := by
    cases hp with
    | last h => exact ⟨_, _, rfl, h⟩
    | dot h => exact ⟨_, _, rfl, h⟩
  have hinterface : p.isWord "interface" = false := isWord_of_isName hname (by decide)
  rw [List.cons_append]
  exact if_neg (by simp [hinterface])

/-- What is dropped in front of `X`, when that is left whether a name or nothing came before. -/
def Dropped (ps : List Piece) : Prop :=
  ∀ rest X, (∀ s : AnnotationState, s.Between → dropModifiers s rest = X) →
    ∀ s : AnnotationState, s.Between → dropModifiers s (ps ++ rest) = X

namespace Dropped

theorem nil : Dropped [] := fun _ _ h => h

theorem append (hp : Dropped ps) (hq : Dropped qs) : Dropped (ps ++ qs) := by
  intro rest X h s hs
  rw [List.append_assoc]
  exact hp _ _ (hq _ _ h) s hs

theorem flatten {pss : List (List Piece)} (h : ∀ ps ∈ pss, Dropped ps) : Dropped pss.flatten := by
  induction pss with
  | nil => exact .nil
  | cons ps pss ih =>
    exact (h ps List.mem_cons_self).append (ih fun qs hq => h qs (List.mem_cons_of_mem _ hq))

theorem annotated (h : Annotation ps) : Dropped ps := by
  intro rest X hX s hs
  cases h with
  | marker ha hp =>
    rw [dropModifiers_sign hs ha hp]
    exact hX .name trivial
  | @arguments a ps g ha hp hg =>
    rw [List.append_assoc, dropModifiers_sign hs ha hp]
    have hdot : g.isSymbol '.' = false := isSymbol_group hg _
    rw [List.cons_append, dropModifiers_cons (s := .name) trivial, if_neg (by simp [hdot]),
      if_pos ⟨rfl, hg⟩]
    exact hX .outside trivial

theorem word (h : modifierWords.any p.isWord = true) : Dropped [p] := by
  intro rest X hX s hs
  have hword : p.word?.isSome = true := by
    obtain ⟨w, -, hw⟩ := List.any_eq_true.mp h
    exact word_of_isWord hw
  rw [List.cons_append, dropModifiers_cons hs, if_neg (by simp [isSymbol_word hword]),
    if_neg (by simp [isGroup_word hword]), if_neg (by simp [isSymbol_word hword]), if_pos h]
  exact hX .outside trivial

theorem nonSealed {p q r : Piece} (hp : p.isWord "non" = true) (hq : q.isSymbol '-' = true)
    (hr : r.isWord "sealed" = true) : Dropped [p, q, r] := by
  intro rest X hX s hs
  have hword := word_of_isWord hp
  have hmodifier : modifierWords.any p.isWord = false := by
    simp only [isWord, decide_eq_true_eq] at hp
    simp [modifierWords, isWord, hp]
  rw [List.cons_append, dropModifiers_cons hs, if_neg (by simp [isSymbol_word hword]),
    if_neg (by simp [isGroup_word hword]), if_neg (by simp [isSymbol_word hword]),
    if_neg (by simp [hmodifier])]
  exact (if_pos (by simp [hp, hq, hr])).trans (hX .outside trivial)

theorem annotations (h : Annotations ps) : Dropped ps := by
  obtain ⟨pss, hpss, rfl⟩ := h
  exact .flatten fun qs hq => .annotated (hpss qs hq)

end Dropped

/-- No modifier stands in front. -/
def Settled (ps : List Piece) : Prop :=
  ∀ s : AnnotationState, s.Between → dropModifiers s ps = ps

theorem Settled.cons (hat : p.isSymbol '@' = false ∨ ps.head?.any (·.isWord "interface") = true)
    (hdot : p.isSymbol '.' = false)
    (hparens : p.isGroup '(' = false) (hword : modifierWords.any p.isWord = false)
    (hnon : p.isWord "non" = false ∨ ps.head?.any (·.isSymbol '-') = false) :
    Settled (p :: ps) := by
  intro s hs
  have hlast : ∀ qs : List Piece, qs = ps →
      (match qs with
        | q :: r :: tail =>
          if p.isWord "non" && q.isSymbol '-' && r.isWord "sealed" then
            dropModifiers .outside tail
          else p :: ps
        | _ => p :: ps) = p :: ps := by
    intro qs hqs
    split
    · next q r tail =>
      rw [if_neg]
      rcases hnon with hnon | hnon
      · simp [hnon]
      · subst hqs
        have : q.isSymbol '-' = false := by simpa using hnon
        simp [this]
    · rfl
  rw [dropModifiers_cons hs, if_neg (by simp [hdot]), if_neg (by simp [hparens])]
  split
  · next hp =>
    obtain ⟨q, tail, rfl⟩ : ∃ q tail, ps = q :: tail := by
      cases ps with
      | nil => simp [hp] at hat
      | cons q tail => exact ⟨q, tail, rfl⟩
    have hq : q.isWord "interface" = true := by simpa [hp] using hat
    exact if_pos hq
  · rw [if_neg (by simp [hword])]
    exact hlast ps rfl

-- ---------------------------------------------------------------------------
-- Dimensions
-- ---------------------------------------------------------------------------

/-- Pairs of brackets, each with its annotations in front. -/
def Dimensions (ps : List Piece) : Prop :=
  ∃ pairs : List (List Piece × Piece), (∀ pair ∈ pairs, Annotations pair.1 ∧
    pair.2.isGroup '[' = true) ∧ ps = (pairs.map fun pair => pair.1 ++ [pair.2]).flatten

theorem splitDimensions_open {s : AnnotationState} (hs : s = .sign ∨ s = .dot)
    (hp : isName p = true) (taken pending : List Piece) :
    splitDimensions s taken pending (p :: ps) =
      splitDimensions .name taken (p :: pending) ps := by
  rcases hs with rfl | rfl <;> exact if_pos hp

theorem splitDimensions_between {s : AnnotationState} (hs : s.Between)
    (taken pending : List Piece) (p : Piece) (ps : List Piece) :
    splitDimensions s taken pending (p :: ps) =
      if p.isGroup '[' then splitDimensions .outside (p :: pending ++ taken) [] ps
      else if p.isSymbol '@' then splitDimensions .sign taken (p :: pending) ps
      else if s = .name ∧ p.isSymbol '.' then splitDimensions .dot taken (p :: pending) ps
      else if s = .name ∧ p.isGroup '(' then splitDimensions .outside taken (p :: pending) ps
      else (taken.reverse, pending.reverse ++ p :: ps) := by
  cases s with
  | outside | name => rfl
  | sign | dot => cases hs

theorem splitDimensions_dotted (h : Dotted ps) {s : AnnotationState} (hs : s = .sign ∨ s = .dot)
    (taken pending : List Piece) :
    splitDimensions s taken pending (ps ++ rest) =
      splitDimensions .name taken (ps.reverse ++ pending) rest := by
  induction h generalizing s pending with
  | last hp => exact splitDimensions_open hs hp taken pending
  | @dot p q ps hp hq _ ih =>
    have hname : AnnotationState.name.Between := trivial
    have hgroup : q.isGroup '[' = false := isGroup_symbol hq _
    have hat : q.isSymbol '@' = false := isSymbol_false hq (by decide)
    rw [List.cons_append, List.cons_append, splitDimensions_open hs hp,
      splitDimensions_between hname, if_neg (by simp [hgroup]), if_neg (by simp [hat]),
      if_pos ⟨rfl, hq⟩, ih (.inr rfl)]
    simp

theorem splitDimensions_annotation (h : Annotation ps) {s : AnnotationState} (hs : s.Between)
    (taken pending rest : List Piece) : ∃ s' : AnnotationState, s'.Between ∧
      splitDimensions s taken pending (ps ++ rest) =
        splitDimensions s' taken (ps.reverse ++ pending) rest := by
  have hsign {a : Piece} (ha : a.isSymbol '@' = true) (tail : List Piece) :
      splitDimensions s taken pending (a :: tail) =
        splitDimensions .sign taken (a :: pending) tail := by
    rw [splitDimensions_between hs, if_neg (by simp [isGroup_symbol ha]), if_pos ha]
  cases h with
  | @marker a ps ha hp =>
    refine ⟨.name, trivial, ?_⟩
    rw [List.cons_append, hsign ha, splitDimensions_dotted hp (.inl rfl)]
    simp
  | @arguments a ps g ha hp hg =>
    refine ⟨.outside, trivial, ?_⟩
    have hbracket : g.isGroup '[' = false := isGroup_false hg (by decide)
    rw [List.cons_append, List.cons_append, hsign ha, List.append_assoc,
      splitDimensions_dotted hp (.inl rfl)]
    have hname : AnnotationState.name.Between := trivial
    rw [List.singleton_append, splitDimensions_between hname, if_neg (by simp [hbracket]),
      if_neg (by simp [isSymbol_group hg]), if_neg (by simp [isSymbol_group hg]), if_pos ⟨rfl, hg⟩]
    simp

theorem splitDimensions_annotations (h : Annotations ps) {s : AnnotationState} (hs : s.Between)
    (taken pending rest : List Piece) : ∃ s' : AnnotationState, s'.Between ∧
      splitDimensions s taken pending (ps ++ rest) =
        splitDimensions s' taken (ps.reverse ++ pending) rest := by
  obtain ⟨pss, hpss, rfl⟩ := h
  induction pss generalizing s pending with
  | nil => exact ⟨s, hs, rfl⟩
  | cons qs pss ih =>
    rw [List.flatten_cons, List.append_assoc, List.reverse_append, List.append_assoc]
    obtain ⟨s', hs', he⟩ := splitDimensions_annotation (hpss qs List.mem_cons_self) hs taken pending
      (pss.flatten ++ rest)
    obtain ⟨s'', hs'', he'⟩ := ih hs' (qs.reverse ++ pending)
      fun rs hr => hpss rs (List.mem_cons_of_mem _ hr)
    exact ⟨s'', hs'', he.trans he'⟩

theorem Dimensions.splitDimensions_append (h : Dimensions ps) (taken : List Piece) :
    splitDimensions .outside taken [] (ps ++ rest) =
      splitDimensions .outside (ps.reverse ++ taken) [] rest := by
  obtain ⟨pairs, hpairs, rfl⟩ := h
  induction pairs generalizing taken with
  | nil => rfl
  | cons pair pairs ih =>
    obtain ⟨hannotations, hg⟩ := hpairs pair List.mem_cons_self
    obtain ⟨s, hs, he⟩ := splitDimensions_annotations hannotations (s := .outside) trivial taken []
      (pair.2 :: ((pairs.map fun pair => pair.1 ++ [pair.2]).flatten ++ rest))
    have hstep (pending tail : List Piece) :
        splitDimensions s taken pending (pair.2 :: tail) =
          splitDimensions .outside (pair.2 :: pending ++ taken) [] tail := by
      rw [splitDimensions_between hs, if_pos hg]
    rw [List.map_cons, List.flatten_cons, List.append_assoc, List.append_assoc,
      List.singleton_append, he, hstep,
      ih _ (fun rs hr => hpairs rs (List.mem_cons_of_mem _ hr))]
    simp

/-- No more dimensions follow. -/
def Undimensioned (ps : List Piece) : Prop :=
  ∀ taken, splitDimensions .outside taken [] ps = (taken.reverse, ps)

theorem Undimensioned.nil : Undimensioned [] := fun _ => rfl

theorem Undimensioned.cons (hg : p.isGroup '[' = false) (ha : p.isSymbol '@' = false) :
    Undimensioned (p :: ps) := by
  intro taken
  have houtside : AnnotationState.outside.Between := trivial
  simp [splitDimensions_between houtside, hg, ha]

theorem Dimensions.splitDimensions_eq (h : Dimensions ps) (hr : Undimensioned rest) :
    splitDimensions .outside [] [] (ps ++ rest) = (ps, rest) := by
  rw [h.splitDimensions_append, hr]
  simp

theorem Dimensions.append (hp : Dimensions ps) (hq : Dimensions qs) : Dimensions (ps ++ qs) := by
  obtain ⟨pairs, hpairs, rfl⟩ := hp
  obtain ⟨pairs', hpairs', rfl⟩ := hq
  refine ⟨pairs ++ pairs', fun pair h => ?_, by simp⟩
  rcases List.mem_append.mp h with h | h
  · exact hpairs pair h
  · exact hpairs' pair h

/-- A pair of brackets or an annotation stands in front, if anything. -/
theorem Dimensions.head (h : Dimensions ps) :
    ps = [] ∨ ∃ p qs, ps = p :: qs ∧ (p.isGroup '[' = true ∨ p.isSymbol '@' = true) := by
  obtain ⟨_ | ⟨pair, pairs⟩, hpairs, rfl⟩ := h
  · exact .inl rfl
  · right
    obtain ⟨⟨pss, hpss, he⟩, hg⟩ := hpairs pair List.mem_cons_self
    rw [List.map_cons, List.flatten_cons, he]
    cases pss with
    | nil => exact ⟨_, _, rfl, .inl hg⟩
    | cons as pss =>
      cases hpss as List.mem_cons_self with
      | marker ha _ => exact ⟨_, _, rfl, .inr ha⟩
      | arguments ha _ _ => exact ⟨_, _, rfl, .inr ha⟩

-- ---------------------------------------------------------------------------
-- Types
-- ---------------------------------------------------------------------------

/-- The states in which a name has to follow, be it behind an annotation. -/
def TypeState.Awaits : TypeState → Prop
  | expected | annotated .name => True
  | _ => False

theorem splitType_open {s : AnnotationState} (hs : s = .sign ∨ s = .dot)
    (hp : isName p = true) (taken : List Piece) :
    splitType (.annotated s) taken (p :: ps) = splitType (.annotated .name) (p :: taken) ps := by
  rcases hs with rfl | rfl <;> exact if_pos hp

theorem splitType_expected (taken : List Piece) (p : Piece) (ps : List Piece) :
    splitType .expected taken (p :: ps) =
      if isTypeWord p then splitType .named (p :: taken) ps
      else if p.isSymbol '@' then splitType (.annotated .sign) (p :: taken) ps
      else (taken.reverse, p :: ps) :=
  rfl

theorem splitType_annotated (taken : List Piece) (p : Piece) (ps : List Piece) :
    splitType (.annotated .name) taken (p :: ps) =
      if p.isSymbol '.' then splitType (.annotated .dot) (p :: taken) ps
      else if p.isGroup '(' then splitType .expected (p :: taken) ps
      else if p.isSymbol '@' then splitType (.annotated .sign) (p :: taken) ps
      else if isTypeWord p then splitType .named (p :: taken) ps
      else (taken.reverse, p :: ps) :=
  rfl

theorem splitType_dotted (h : Dotted ps) {s : AnnotationState} (hs : s = .sign ∨ s = .dot)
    (taken : List Piece) :
    splitType (.annotated s) taken (ps ++ rest) =
      splitType (.annotated .name) (ps.reverse ++ taken) rest := by
  induction h generalizing s taken with
  | last hp => exact splitType_open hs hp taken
  | @dot p q ps hp hq _ ih =>
    rw [List.cons_append, List.cons_append, splitType_open hs hp, splitType_annotated, if_pos hq,
      ih (.inr rfl)]
    simp

theorem splitType_annotation (h : Annotation ps) {s : TypeState} (hs : s.Awaits)
    (taken rest : List Piece) : ∃ s' : TypeState, s'.Awaits ∧
      splitType s taken (ps ++ rest) = splitType s' (ps.reverse ++ taken) rest := by
  have hsign {a : Piece} (ha : a.isSymbol '@' = true) (tail : List Piece) :
      splitType s taken (a :: tail) = splitType (.annotated .sign) (a :: taken) tail := by
    have hword : isTypeWord a = false := isTypeWord_of_word (word_symbol ha)
    have hdot : a.isSymbol '.' = false := isSymbol_false ha (by decide)
    have hgroup : a.isGroup '(' = false := isGroup_symbol ha _
    match s, hs with
    | .expected, _ => simp [splitType_expected, hword, ha]
    | .annotated .name, _ => simp [splitType_annotated, hdot, hgroup, ha]
  cases h with
  | @marker a ps ha hp =>
    refine ⟨.annotated .name, trivial, ?_⟩
    rw [List.cons_append, hsign ha, splitType_dotted hp (.inl rfl)]
    simp
  | @arguments a ps g ha hp hg =>
    refine ⟨.expected, trivial, ?_⟩
    rw [List.cons_append, List.cons_append, hsign ha, List.append_assoc,
      splitType_dotted hp (.inl rfl)]
    simp [splitType_annotated, isSymbol_group hg, hg]

theorem splitType_annotations (h : Annotations ps) {s : TypeState} (hs : s.Awaits)
    (taken rest : List Piece) : ∃ s' : TypeState, s'.Awaits ∧
      splitType s taken (ps ++ rest) = splitType s' (ps.reverse ++ taken) rest := by
  obtain ⟨pss, hpss, rfl⟩ := h
  induction pss generalizing s taken with
  | nil => exact ⟨s, hs, rfl⟩
  | cons qs pss ih =>
    rw [List.flatten_cons, List.append_assoc, List.reverse_append, List.append_assoc]
    obtain ⟨s', hs', he⟩ := splitType_annotation (hpss qs List.mem_cons_self) hs taken
      (pss.flatten ++ rest)
    obtain ⟨s'', hs'', he'⟩ := ih hs' (qs.reverse ++ taken)
      fun rs hr => hpss rs (List.mem_cons_of_mem _ hr)
    exact ⟨s'', hs'', he.trans he'⟩

theorem splitType_word (hp : isTypeWord p = true) {s : TypeState} (hs : s.Awaits)
    (taken : List Piece) : splitType s taken (p :: ps) = splitType .named (p :: taken) ps := by
  have hword := word_of_isTypeWord hp
  match s, hs with
  | .expected, _ => simp [splitType_expected, hp]
  | .annotated .name, _ =>
    simp [splitType_annotated, isSymbol_word hword, isGroup_word hword, hp]

theorem splitType_depth (depth : Nat) (taken : List Piece) (p : Piece) (ps : List Piece) :
    splitType (.arguments depth) taken (p :: ps) =
      if p.isSymbol '<' then splitType (.arguments (depth + 1)) (p :: taken) ps
      else if p.isSymbol '>' then
        splitType (if depth ≤ 1 then .named else .arguments (depth - 1)) (p :: taken) ps
      else splitType (.arguments depth) (p :: taken) ps :=
  rfl

theorem splitType_named (taken : List Piece) (p : Piece) (ps : List Piece) :
    splitType .named taken (p :: ps) =
      if p.isSymbol '<' then splitType (.arguments 1) (p :: taken) ps
      else if p.isSymbol '.' then
        match ps with
        | q :: _ =>
          if isTypeWord q || q.isSymbol '@' then splitType .expected (p :: taken) ps
          else (taken.reverse, p :: ps)
        | [] => (taken.reverse, p :: ps)
      else (taken.reverse, p :: ps) :=
  rfl

theorem splitType_arguments (hp : Angled isArgument ps) (depth : Nat) (taken : List Piece) :
    splitType (.arguments (depth + 1)) taken (ps ++ rest) =
      splitType (.arguments (depth + 1)) (ps.reverse ++ taken) rest := by
  generalize hplain : isArgument = plain at hp
  induction hp generalizing depth taken rest with
  | nil => rfl
  | @cons plain p ps hp _ ih =>
    subst hplain
    simp only [isArgument, Bool.and_eq_true, Bool.not_eq_true'] at hp
    simp [splitType_depth, hp.1.1, hp.1.2, ih]
  | @block plain a inner b ps ha _ hb _ ihi ih =>
    have hlt : b.isSymbol '<' = false := isSymbol_false hb (by decide)
    simp only [List.cons_append, List.append_assoc]
    rw [splitType_depth, if_pos ha, ihi _ _ rfl, splitType_depth, if_neg (by simp [hlt]),
      if_pos hb, if_neg (by omega), Nat.add_sub_cancel, ih _ _ hplain]
    simp

/-- Type parameters or arguments between their angles. -/
def Bracketed (ps : List Piece) : Prop :=
  ∃ a inner b, a.isSymbol '<' = true ∧ Angled isArgument inner ∧ b.isSymbol '>' = true ∧
    ps = a :: inner ++ [b]

/-- A class or primitive type, read whole. -/
structure Based (ps : List Piece) : Prop where
  ne_nil : ps ≠ []
  read {s : TypeState} (hs : s.Awaits) (taken rest : List Piece) :
    splitType s taken (ps ++ rest) = splitType .named (ps.reverse ++ taken) rest

/-- A class or primitive type with its dimensions. -/
def Typed (ps : List Piece) : Prop :=
  ∃ base dimensions, Based base ∧ Dimensions dimensions ∧ ps = base ++ dimensions

/-- A type does not go on, but for dimensions. -/
def Untyped (ps : List Piece) : Prop :=
  ∀ taken, splitType .named taken ps = (taken.reverse, ps)

theorem Untyped.cons (ha : p.isSymbol '<' = false)
    (hd : p.isSymbol '.' = false ∨ ∀ q ∈ ps.head?, isTypeWord q = false ∧ q.isSymbol '@' = false) :
    Untyped (p :: ps) := by
  intro taken
  rw [splitType_named, if_neg (by simp [ha])]
  split
  · next h =>
    have hq := hd.resolve_left (by simp [h])
    cases ps with
    | nil => rfl
    | cons q qs =>
      have := hq q rfl
      exact if_neg (by simp [this.1, this.2])
  · rfl

namespace Based

theorem word (h : isTypeWord p = true) : Based [p] where
  ne_nil := by simp
  read hs taken _ := splitType_word h hs taken

/-- Annotations may stand in front. -/
theorem annotated {as : List Piece} (has : Annotations as) (hb : Based ps) :
    Based (as ++ ps) where
  ne_nil := by simp [hb.ne_nil]
  read hs taken rest := by
    obtain ⟨s, hs', he⟩ := splitType_annotations has hs taken (ps ++ rest)
    rw [List.append_assoc, he, hb.read hs']
    simp

/-- A further name, be it annotated, behind a dot. -/
theorem dot {as : List Piece} (hb : Based ps) (hp : p.isSymbol '.' = true)
    (has : Annotations as) (hq : isTypeWord q = true) : Based (ps ++ p :: as ++ [q]) where
  ne_nil := by simp
  read hs taken rest := by
    have hlt : p.isSymbol '<' = false := isSymbol_false hp (by decide)
    have hstep : splitType .named (ps.reverse ++ taken) (p :: (as ++ q :: rest)) =
        splitType .expected (p :: (ps.reverse ++ taken)) (as ++ q :: rest) := by
      obtain ⟨_ | ⟨qs, pss⟩, hpss, rfl⟩ := has
      · simp [splitType_named, hlt, hp, hq]
      · have : ∃ a tail, qs = a :: tail ∧ a.isSymbol '@' = true := by
          cases hpss qs List.mem_cons_self with
          | marker ha _ => exact ⟨_, _, rfl, ha⟩
          | arguments ha _ _ => exact ⟨_, _, rfl, ha⟩
        obtain ⟨a, tail, rfl, ha⟩ := this
        simp [splitType_named, hlt, hp, ha]
    obtain ⟨s', hs', he⟩ := splitType_annotations has (s := .expected) trivial
      (p :: (ps.reverse ++ taken)) (q :: rest)
    simp only [List.append_assoc, List.cons_append, List.nil_append]
    rw [hb.read hs, hstep, he, splitType_word hq hs']
    simp

theorem arguments (hb : Based ps) (hq : Bracketed qs) : Based (ps ++ qs) where
  ne_nil := by simp [hb.ne_nil]
  read hs taken rest := by
    obtain ⟨a, inner, b, ha, hi, hb', rfl⟩ := hq
    have hlt : b.isSymbol '<' = false := isSymbol_false hb' (by decide)
    simp only [List.append_assoc, List.cons_append, List.nil_append]
    rw [hb.read hs, splitType_named, if_pos ha, splitType_arguments hi, splitType_depth,
      if_neg (by simp [hlt]), if_pos hb', if_pos (by omega)]
    simp

end Based

theorem Typed.annotated {as : List Piece} (has : Annotations as) (h : Typed ps) :
    Typed (as ++ ps) := by
  obtain ⟨base, dimensions, hb, hds, rfl⟩ := h
  exact ⟨as ++ base, dimensions, hb.annotated has, hds, by simp⟩

theorem Typed.word (h : isTypeWord p = true) : Typed [p] :=
  ⟨[p], [], .word h, ⟨[], by simp, rfl⟩, rfl⟩

/-- A type is read up to its end. -/
theorem Typed.readType_append (h : Typed ps) (ht : Untyped rest) (hd : Undimensioned rest) :
    readType (ps ++ rest) = (ps, rest) := by
  obtain ⟨base, dimensions, hb, hds, rfl⟩ := h
  have hends : Untyped (dimensions ++ rest) := by
    rcases hds.head with rfl | ⟨p, qs, rfl, hp | hp⟩
    · exact ht
    · exact .cons (isSymbol_group hp _) (.inl (isSymbol_group hp _))
    · exact .cons (isSymbol_false hp (by decide)) (.inl (isSymbol_false hp (by decide)))
  have hbase : splitType .expected [] (base ++ dimensions ++ rest) = (base, dimensions ++ rest) := by
    rw [List.append_assoc, hb.read (s := .expected) trivial, hends]
    simp
  rw [readType, hbase]
  simp [hb.ne_nil, hds.splitDimensions_eq hd]

end Java

end Scaffold.Source
