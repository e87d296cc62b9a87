import Scaffold.Proofs.Grammar
import Scaffold.Proofs.Searches
import Scaffold.Source

/-!
# Where names come from

Grouping the lexemes of a text by their brackets loses none of them, and an
outline declares nothing that its recogniser has not read off the pieces. So the
name of the declaration that a source file answers with is a word of its text.
-/

namespace Scaffold.Source

-- ---------------------------------------------------------------------------
-- Grouping
-- ---------------------------------------------------------------------------

namespace Piece

namespace Nesting

/-- The lexemes that have been added, in their order. -/
def added : List Frame → List Piece → List Lexeme
  | [], current => lexemesOf current.reverse
  | frame :: frames, current =>
    added frames frame.before ++ frame.opening :: lexemesOf current.reverse

theorem added_cons (frames : List Frame) (p : Piece) (current : List Piece) :
    added frames (p :: current) = added frames current ++ p.lexemes := by
  cases frames <;> simp [added, lexemesOf_append, lexemesOf]

theorem added_close {l : Lexeme} {frames : List Frame}
    (h : frames.any (closerOf ·.opening.text = l.text) = true) (current : List Piece) :
    added (close l frames current).frames (close l frames current).current =
      added frames current ++ [l] := by
  induction frames generalizing current with
  | nil => cases h
  | cons frame frames ih =>
    rw [close]
    split
    · simp [added, added_cons, lexemes]
    · next hne =>
      rw [List.any_cons, Bool.or_eq_true, decide_eq_true_iff] at h
      rw [ih (h.resolve_left hne), added_cons]
      simp [added, lexemes]

theorem added_add (n : Nesting) (l : Lexeme) :
    added (n.add l).frames (n.add l).current = added n.frames n.current ++ [l] := by
  rw [add]
  split
  · simp [added, lexemesOf]
  · split
    · next h =>
      rw [Bool.and_eq_true] at h
      exact added_close h.2 n.current
    · rw [added_cons, lexemes]

theorem lexemesOf_finish (frames : List Frame) (current : List Piece) :
    lexemesOf (finish frames current) = added frames current := by
  induction frames generalizing current with
  | nil => rfl
  | cons frame frames ih =>
    rw [finish, ih, added_cons]
    simp [added, lexemes]

end Nesting

/-- No lexeme is lost between brackets, whether they are closed or not. -/
theorem lexemesOf_ofLexemes (ls : List Lexeme) : lexemesOf (ofLexemes ls) = ls := by
  have hfold (ls : List Lexeme) (n : Nesting) :
      Nesting.added (ls.foldl Nesting.add n).frames (ls.foldl Nesting.add n).current =
        Nesting.added n.frames n.current ++ ls := by
    induction ls generalizing n with
    | nil => simp
    | cons l ls ih => rw [List.foldl_cons, ih, Nesting.added_add, List.append_assoc]; rfl
  rw [ofLexemes, Nesting.lexemesOf_finish, hfold]
  rfl

theorem lexemesOf_suffix {ps qs : List Piece} (h : ps <:+ qs) : lexemesOf ps <:+ lexemesOf qs := by
  obtain ⟨front, rfl⟩ := h
  rw [lexemesOf_append]
  exact List.suffix_append ..

theorem mem_lexemesOf {l : Lexeme} {ps : List Piece} (h : .lexeme l ∈ ps) : l ∈ lexemesOf ps := by
  obtain ⟨front, back, rfl⟩ := List.append_of_mem h
  simp [lexemesOf_append, lexemesOf, lexemes]

end Piece

open Piece

-- ---------------------------------------------------------------------------
-- Outlines
-- ---------------------------------------------------------------------------

namespace Rose

variable {α : Type}

theorem preorders_append (ts us : List (Rose α)) :
    preorders (ts ++ us) = preorders ts ++ preorders us := by
  induction ts with
  | nil => rfl
  | cons t ts ih => simp [preorders, ih]

theorem mem_preorders_of_findFirst {p : α → Bool} {ts : List (Rose α)} {t : Rose α}
    (h : findFirst p ts = some t) : t.label ∈ preorders ts := by
  fun_induction findFirst p ts with
  | case1 => cases h
  | case2 a us stack _ =>
    cases h
    simp [preorders, preorder, label]
  | case3 a us stack _ ih =>
    have hrest := ih h
    rw [preorders_append] at hrest
    exact List.mem_cons_of_mem a hrest

end Rose

namespace Outline

open Rose

theorem mem_preorders_of_firstDeclaration {os : List Outline} {d : Declaration}
    (h : firstDeclaration? os = some d) : .declaration d ∈ preorders os := by
  obtain ⟨o, ho, hd⟩ := Option.bind_eq_some_iff.mp h
  have hmem := mem_preorders_of_findFirst ho
  cases hl : o.label with
  | region => simp [hl, Label.declaration?] at hd
  | declaration d' =>
    rw [hl, Label.declaration?, Option.some.injEq] at hd
    rwa [hl, hd] at hmem

/-- Where a recogniser sees a declaration, some lexeme tells it. -/
def Tells (recognise : Recogniser) (tells : Declaration → Lexeme → Prop) : Prop :=
  ∀ members previous ps head d, recognise members previous ps = some head →
    head.label = .declaration d → ∃ l ∈ lexemesOf ps, tells d l

variable {recognise : Recogniser} {tells : Declaration → Lexeme → Prop} {d : Declaration}

mutual

theorem Tells.within (h : Tells recognise tells) (members : Bool) (p : Piece)
    (hd : .declaration d ∈ preorders (within recognise members p)) :
    ∃ l ∈ p.lexemes, tells d l := by
  match p with
  | .lexeme l => simp [Outline.within, preorders] at hd
  | .group o inner e =>
    rw [Outline.within] at hd
    obtain ⟨l, hl, ht⟩ := h.scan members false 0 none inner (List.mem_append_right _ hd)
    exact ⟨l, by simp [Piece.lexemes, hl], ht⟩

theorem Tells.scan (h : Tells recognise tells) (members pendingMembers : Bool) (pending : Nat)
    (previous : Option Piece) (ps : List Piece)
    (hd : .declaration d ∈
      preorders (scan recognise members pendingMembers pending previous ps).1 ++
        preorders (scan recognise members pendingMembers pending previous ps).2) :
    ∃ l ∈ lexemesOf ps, tells d l := by
  match ps with
  | [] => simp [Outline.scan, preorders] at hd
  | p :: ps =>
    have hinner {inMembers : Bool}
        (hd : .declaration d ∈ preorders (Outline.within recognise inMembers p)) :
        ∃ l ∈ lexemesOf (p :: ps), tells d l := by
      obtain ⟨l, hl, ht⟩ := h.within inMembers p hd
      exact ⟨l, List.mem_append_left _ hl, ht⟩
    have hrest {inMembers : Bool} {pending : Nat}
        (hd : .declaration d ∈
          preorders (Outline.scan recognise members inMembers pending (some p) ps).1 ++
            preorders (Outline.scan recognise members inMembers pending (some p) ps).2) :
        ∃ l ∈ lexemesOf (p :: ps), tells d l := by
      obtain ⟨l, hl, ht⟩ := h.scan members inMembers pending (some p) ps hd
      exact ⟨l, List.mem_append_right _ hl, ht⟩
    cases pending with
    -- What belongs to the head of a declaration is only looked into.
    | succ pending =>
      simp only [Outline.scan, preorders_append, List.append_assoc, List.mem_append] at hd
      rcases hd with hd | hd
      · exact hinner hd
      · exact hrest (List.mem_append.mpr hd)
    | zero =>
      rw [Outline.scan] at hd
      cases hr : recognise members previous (p :: ps) with
      | some head =>
        simp only [hr, preorders, preorder, preorders_append, List.nil_append, List.cons_append,
          List.append_assoc, List.mem_cons, List.mem_append] at hd
        rcases hd with hd | hd | hd
        · exact h members previous (p :: ps) head d hr hd.symm
        · exact hinner hd
        · exact hrest (List.mem_append.mpr hd)
      | none =>
        simp only [hr, preorders, preorder, List.nil_append, List.cons_append, List.mem_cons,
          List.mem_append] at hd
        rcases hd with hd | hd | hd
        · cases hd
        · exact hinner hd
        · exact hrest (List.mem_append_right _ hd)

end

theorem Tells.firstDeclaration (h : Tells recognise tells) {ps : List Piece}
    (hd : firstDeclaration? (ofPieces recognise ps) = some d) : ∃ l ∈ lexemesOf ps, tells d l :=
  h.scan false false 0 none ps (List.mem_append_right _ (mem_preorders_of_firstDeclaration hd))

end Outline

-- ---------------------------------------------------------------------------
-- Readers
-- ---------------------------------------------------------------------------

/-- The lexeme is a word that may be the name of the declaration. -/
structure Names (d : Declaration) (l : Lexeme) : Prop where
  shape : l.shape = .word
  text : l.text = d.name
  start : l.text.toList.head?.map Char.isDigit = some false

/-- Words that are no names are reserved or numbers. -/
theorem exists_names {reserved : List String} {p : Piece} {ps : List Piece} {d : Declaration}
    (hp : p ∈ ps) (h : (p.word?.filter fun w => w ∉ reserved &&
      (w.toList.head?.map Char.isDigit) = some false) = some d.name) :
    ∃ l ∈ lexemesOf ps, Names d l := by
  obtain ⟨hword, hname⟩ := Option.filter_eq_some_iff.mp h
  cases p with
  | group => cases hword
  | lexeme l =>
    simp only [word?] at hword
    split at hword
    · next hshape =>
      rw [Option.some.injEq] at hword
      rw [Bool.and_eq_true, decide_eq_true_iff, ← hword] at hname
      exact ⟨l, mem_lexemesOf hp, hshape, hword, by simpa using hname.2⟩
    · cases hword

namespace Java

variable {ps rest : List Piece} {d : Declaration}

theorem dropModifiers_suffix (state : AnnotationState) (ps : List Piece) :
    dropModifiers state ps <:+ ps := by
  fun_induction dropModifiers state ps with
  | case1 | case3 | case5 | case8 | case13 | case14 => exact List.suffix_rfl
  | case10 => exact List.nil_suffix
  | case12 _ p _ _ _ _ _ _ q r rest _ ih => exact ih.trans (List.suffix_append [p, q, r] rest)
  | case2 _ _ _ ih | case4 _ _ _ ih => exact ih.trans (List.suffix_cons ..)
  | case6 _ _ _ _ _ _ ih => exact ih.trans (List.suffix_cons ..)
  | case7 _ _ _ _ _ _ _ ih => exact ih.trans (List.suffix_cons ..)
  | case9 _ _ _ _ _ _ _ _ _ _ ih => exact ih.trans (List.suffix_cons ..)
  | case11 _ _ _ _ _ _ _ _ _ ih => exact ih.trans (List.suffix_cons ..)

theorem typeKeyword_suffix {kind : TypeKind} (h : typeKeyword? ps = some (kind, rest)) :
    rest <:+ ps := by
  unfold typeKeyword? at h
  split at h
  · next p ps =>
    have hnext {kind' : TypeKind} (h : some (kind', ps) = some (kind, rest)) :
        rest <:+ p :: ps := by
      cases h
      exact List.suffix_cons ..
    split at h
    · exact hnext h
    · split at h
      · exact hnext h
      · split at h
        · exact hnext h
        · split at h
          · next q more =>
            split at h
            · cases h
              exact List.suffix_append [p, q] _
            · cases h
          · cases h
  · cases h

theorem exists_names_of_introduced (h : introduced? ps = some (d, rest)) :
    ∃ l ∈ lexemesOf ps, Names d l := by
  unfold introduced? at h
  simp only [Option.bind_eq_bind, Option.bind_eq_some_iff, Option.map_eq_some_iff] at h
  obtain ⟨⟨kind, behind⟩, hkind, _, ⟨p, hp, rfl⟩, name, hname, h⟩ := h
  have hd {read : Option (List Piece × List Piece)}
      (h : (read.bind fun found => (findBody? found.2).bind fun body =>
        some (⟨name, fieldsOf kind found.1 body.1⟩, body.2)) = some (d, rest)) : name = d.name := by
    obtain ⟨_, -, h⟩ := Option.bind_eq_some_iff.mp h
    obtain ⟨_, -, h⟩ := Option.bind_eq_some_iff.mp h
    cases h
    rfl
  rw [show name = d.name by split at h <;> exact hd h] at hname
  exact exists_names ((typeKeyword_suffix hkind).subset (List.mem_of_head? hp)) hname

theorem tells_recognise : Outline.Tells recognise Names := by
  intro members previous ps head d h hd
  unfold recognise at h
  split at h
  · cases h
  · obtain ⟨⟨d', rest⟩, hfound, rfl⟩ := Option.map_eq_some_iff.mp h
    cases hd
    obtain ⟨l, hl, hnames⟩ := exists_names_of_introduced hfound
    exact ⟨l, (lexemesOf_suffix (dropModifiers_suffix ..)).subset hl, hnames⟩

end Java

namespace Kotlin

variable {ps rest : List Piece} {d : Declaration}

theorem dropMarks_suffix (words : List String) (accepts : Piece → Bool) (state : AnnotationState)
    (ps : List Piece) : dropMarks words accepts state ps <:+ ps := by
  induction ps generalizing state with
  | nil => exact List.suffix_rfl
  | cons p ps ih =>
    have hgo (state : AnnotationState) : dropMarks words accepts state ps <:+ p :: ps :=
      (ih state).trans (List.suffix_cons ..)
    unfold dropMarks
    cases state <;> grind

theorem classKeyword_suffix (h : classKeyword? ps = some rest) : rest <:+ ps := by
  unfold classKeyword? at h
  split at h
  · next p ps =>
    split at h
    · cases h
      exact List.suffix_cons ..
    · split at h
      · next q more =>
        split at h
        · cases h
          exact List.suffix_append [p, q] _
        · cases h
      · cases h
  · cases h

theorem exists_names_of_class (h : classDeclaration? ps = some (d, rest)) :
    ∃ l ∈ lexemesOf ps, Names d l := by
  unfold classDeclaration? at h
  simp only [Option.bind_eq_bind, Option.bind_eq_some_iff] at h
  obtain ⟨behind, hkeyword, name, ⟨p, hp, hname⟩, h⟩ := h
  have hd : name = d.name := by
    split at h
    · cases h
    · cases h
      rfl
  rw [hd] at hname
  have hsuffix := (classKeyword_suffix hkeyword).trans (dropMarks_suffix ..)
  exact exists_names (hsuffix.subset (List.mem_of_head? hp)) hname

theorem tells_recognise : Outline.Tells recognise Names := by
  intro members previous ps head d h hd
  simp only [recognise] at h
  split at h
  · cases h
  · split at h
    · cases h
      cases hd
    · split at h
      · next d' rest hfound =>
        cases h
        cases hd
        exact exists_names_of_class hfound
      · obtain ⟨rest, -, rfl⟩ := Option.map_eq_some_iff.mp h
        cases hd

end Kotlin

end Scaffold.Source

namespace Scaffold.SourceFile

open Source

/-- The lexemes of the text. -/
def lexemes (s : SourceFile) : List Lexeme :=
  match s.language with
  | .java => Java.lexemes s.text.toList
  | .kotlin => Kotlin.lexemes s.text.toList

/-- The name of the declaration is a word of the text. -/
theorem exists_names {s : SourceFile} {d : Declaration} (h : s.declaration? = some d) :
    ∃ l ∈ s.lexemes, Names d l := by
  have hpieces : Piece.lexemesOf s.pieces = s.lexemes := Piece.lexemesOf_ofLexemes _
  rw [← hpieces]
  unfold declaration? outline at h
  cases hl : s.language with
  | java =>
    rw [hl] at h
    exact Java.tells_recognise.firstDeclaration h
  | kotlin =>
    rw [hl] at h
    obtain ⟨l, hmem, hnames⟩ := Kotlin.tells_recognise.firstDeclaration h
    exact ⟨l, (Piece.lexemesOf_suffix (Kotlin.dropMarks_suffix ..)).subset hmem, hnames⟩

end Scaffold.SourceFile
