import Mathlib.Tactic.SplitIfs
import Scaffold.Proofs.Kotlin.Declarations

/-!
# The first class of a source

Where the keywords of a class stand behind modifiers and annotations, a class
begins. The first one is told by what stands in front of it: nothing there
begins a class, neither between brackets nor in the header of an object.
-/

namespace Scaffold

namespace Source.Kotlin

open Piece

/-- A name goes on behind the piece, as in `Name::class`. -/
def continuesName (previous : Option Piece) : Bool :=
  previous.any fun p => p.isSymbol '.' || p.isSymbol ':'

/-- The keywords of a class stand in front, behind modifiers and annotations. -/
def beginsClass (ps : List Piece) : Bool := (classKeyword? (dropModifiers ps)).isSome

mutual

/-- No class begins between the brackets of the piece. -/
def classlessWithin : Piece → Bool
  | .lexeme _ => true
  | .group _ inner _ => classless none inner

/-- No class begins among the pieces, given the piece before them. -/
def classless (previous : Option Piece) : List Piece → Bool
  | [] => true
  | p :: ps =>
    (continuesName previous || !beginsClass (p :: ps)) && classlessWithin p && classless (some p) ps

end

/-- A declaration may begin behind the piece, in front of the others. -/
def MayDeclare (previous : Option Piece) (ps : List Piece) : Prop :=
  ∀ p ∈ previous, p.isSymbol '.' = false ∧ p.isSymbol ':' = false ∧ runsOn p ps = false

/-- Where the first class in some pieces begins, given the piece before them. The first `pending`
pieces belong to an object. -/
inductive FirstClass : Nat → Option Piece → List Piece → List Piece → Prop
  | here {previous ps} : MayDeclare previous ps → infixReading? ps = none →
      FirstClass 0 previous ps ps
  | behind {previous p ps qs} :
      continuesName previous = true ∨
        beginsClass (p :: ps) = false ∧ objectDeclaration? (p :: ps) = none →
      classlessWithin p = true → FirstClass 0 (some p) ps qs → FirstClass 0 previous (p :: ps) qs
  | within {pending previous o inner e ps qs} : FirstClass 0 none inner qs →
      FirstClass pending previous (.group o inner e :: ps) qs
  | object {previous p ps rest qs} : MayDeclare previous (p :: ps) →
      objectDeclaration? (p :: ps) = some rest →
      FirstClass (ps.length - rest.length) (some p) ps qs → FirstClass 0 previous (p :: ps) qs
  | pending {pending previous p ps qs} : classlessWithin p = true →
      FirstClass pending (some p) ps qs → FirstClass (pending + 1) previous (p :: ps) qs

variable {ps qs rest : List Piece} {p : Piece} {previous : Option Piece} {d : Declaration}
  {members pendingMembers : Bool} {pending : Nat}

-- ---------------------------------------------------------------------------
-- What is recognised
-- ---------------------------------------------------------------------------

/-- Where annotations are dropped up to a name, modifiers are dropped from the name on. -/
theorem dropMarks_annotations {words : List String} {mark : AnnotationState}
    (h : dropMarks [] (fun _ => true) mark ps = p :: rest) (hp : isName p = true) :
    dropMarks words (fun _ => true) mark ps =
      dropMarks words (fun _ => true) .outside (p :: rest) := by
  have hword := word_of_isName hp
  have hat : p.isSymbol '@' = false := isSymbol_word hword _
  induction ps generalizing mark with
  | nil => cases h
  | cons q qs ih =>
    rw [dropMarks_cons] at h ⊢
    split at h
    · next hq =>
      obtain ⟨rfl, -⟩ := List.cons.inj h
      simp [hat] at hq
    · next hq =>
      rw [if_neg hq]
      cases hnext : mark.next? (!·.startsLine) q with
      | some next =>
        rw [hnext] at h
        exact ih h
      | none =>
        rw [hnext] at h
        obtain ⟨rfl, rfl⟩ : q = p ∧ qs = rest := by simpa using h
        have hnone : AnnotationState.next? (!·.startsLine) .outside q = none :=
          AnnotationState.next?_word rfl hword
        have hcomplete : mark.isComplete = true := by
          have hname : (name? q).isSome = true := hp
          cases mark with
          | outside | name => rfl
          | dot => simp [AnnotationState.next?, hname] at hnext
          | sign | arguments =>
            simp only [AnnotationState.next?, hname, if_true] at hnext
            split_ifs at hnext
        have houtside : AnnotationState.outside.isComplete = true := rfl
        simp only [dropMarks_cons (fun _ => true) .outside, hat, hnone, hcomplete, houtside,
          Bool.and_false, Bool.false_and, Bool.false_eq_true, if_false]

/-- What is read as an expression instead of a class has a soft modifier and the keyword of a class
behind its annotations. -/
theorem infixReading_some (h : infixReading? ps = some rest) : ∃ soft keyword behind,
    dropAnnotations ps = soft :: keyword :: behind ∧ softModifierWords.any soft.isWord = true ∧
      Keywords [keyword] := by
  unfold infixReading? at h
  simp only at h
  split at h
  · cases h
  · split at h
    · next soft keyword p behind hdrop =>
      obtain ⟨-, -, h⟩ := Option.bind_eq_some_iff.mp h
      split at h
      · cases h
      · next hkeywords =>
        rw [Bool.not_eq_true', Bool.not_eq_false, Bool.and_eq_true, Bool.or_eq_true] at hkeywords
        exact ⟨soft, keyword, p :: behind, hdrop, hkeywords.1, .single hkeywords.2⟩
    · cases h

theorem infixReading_none (h : beginsClass ps = false) : infixReading? ps = none := by
  cases hread : infixReading? ps with
  | none => rfl
  | some behind =>
    obtain ⟨soft, keyword, rest, hdrop, hsoft, hkeyword⟩ := infixReading_some hread
    obtain ⟨w, hw, hword⟩ := List.any_eq_true.mp hsoft
    obtain ⟨hmember, hfree, hletter⟩ : w ∈ modifierWords ∧ w ∉ reserved ∧
        (w.toList.head?.map Char.isDigit) = some false :=
      (by decide : ∀ w ∈ softModifierWords, w ∈ modifierWords ∧ w ∉ reserved ∧
        (w.toList.head?.map Char.isDigit) = some false) w hw
    have hname : isName soft = true := by
      simp_all [isName, name?, isWord]
    have hmodifier : modifierWords.any soft.isWord = true :=
      List.any_eq_true.mpr ⟨w, hmember, hword⟩
    obtain ⟨k, tail, hk, hkword, hkmodifier⟩ := hkeyword.cons
    obtain ⟨rfl, -⟩ := List.cons.inj hk
    have hmarks : dropModifiers ps = keyword :: rest := by
      rw [dropModifiers, dropMarks_annotations hdrop hname, dropMarks_cons,
        isSymbol_word (word_of_isWord hword), Bool.and_false, Bool.false_and, if_neg (by decide),
        AnnotationState.next?_word rfl (word_of_isWord hword)]
      simp only [AnnotationState.isComplete, hmodifier, Bool.and_self, if_true]
      exact dropMarks_word rfl hkword hkmodifier
    have hclass : classKeyword? (keyword :: rest) = some rest := hkeyword.classKeyword_append
    rw [beginsClass, hmarks, hclass] at h
    cases h

theorem beginsClass_of_declaration {found : Declaration × List Piece}
    (h : classDeclaration? ps = some found) : beginsClass ps = true := by
  obtain ⟨behind, hk, -⟩ := Option.bind_eq_some_iff.mp h
  rw [beginsClass, hk]
  rfl

theorem classDeclaration_none (h : beginsClass ps = false) : classDeclaration? ps = none := by
  cases hd : classDeclaration? ps with
  | none => rfl
  | some found => rw [beginsClass_of_declaration hd] at h; cases h

theorem MayDeclare.not_any (h : MayDeclare previous ps) :
    (previous.any fun p => p.isSymbol '.' || p.isSymbol ':' || runsOn p ps) = false := by
  cases previous with
  | none => rfl
  | some p =>
    obtain ⟨hdot, hcolon, hrun⟩ := h p rfl
    simp [hdot, hcolon, hrun]

/-- Brackets begin no declaration. -/
theorem recognise_group (members : Bool) (previous : Option Piece) (o : Lexeme)
    (inner : List Piece) (e : Option Lexeme) (ps : List Piece) :
    recognise members previous (.group o inner e :: ps) = none := by
  have hbegins : beginsClass (.group o inner e :: ps) = false := by
    have hdrop : dropModifiers (.group o inner e :: ps) = .group o inner e :: ps := rfl
    rw [beginsClass, hdrop]
    cases ps <;> rfl
  have hobject : objectDeclaration? (.group o inner e :: ps) = none := rfl
  simp only [recognise, infixReading_none hbegins, classDeclaration_none hbegins, hobject]
  cases members <;> simp

theorem recognise_behind
    (h : continuesName previous = true ∨ beginsClass ps = false ∧ objectDeclaration? ps = none) :
    recognise members previous ps = none := by
  unfold recognise
  rcases h with h | ⟨hclass, hobject⟩
  · cases previous with
    | none => cases h
    | some p =>
      have hp : (p.isSymbol '.' || p.isSymbol ':') = true := h
      exact if_pos (by simp [hp])
  · simp only [infixReading_none hclass, classDeclaration_none hclass, hobject]
    cases members <;> simp

theorem isWord_of_object (h : objectDeclaration? (p :: ps) = some rest) :
    p.isWord "object" = true := by
  cases hp : p.isWord "object" with
  | true => rfl
  | false =>
    rw [objectDeclaration?, hp] at h
    cases h

theorem recognise_object (h : MayDeclare previous (p :: ps))
    (ho : objectDeclaration? (p :: ps) = some rest) :
    recognise members previous (p :: ps) =
      some ⟨.region, (p :: ps).length - rest.length, true⟩ := by
  have hp := isWord_of_object ho
  have hbegins : beginsClass (p :: ps) = false := by
    have hmodifier : modifierWords.any p.isWord = false := by
      simp [modifierWords, isWord_unique hp]
    rw [beginsClass, dropModifiers, dropMarks_word rfl (word_of_isWord hp) hmodifier]
    cases ps <;> simp [classKeyword?, isWord_unique hp]
  simp only [recognise, h.not_any, infixReading_none hbegins, classDeclaration_none hbegins, ho]
  cases members <;> simp

theorem recognise_class (h : MayDeclare previous ps) (hi : infixReading? ps = none)
    (hd : classDeclaration? ps = some (d, rest)) :
    recognise members previous ps = some ⟨.declaration d, ps.length - rest.length, true⟩ := by
  simp only [recognise, h.not_any, hi, hd]
  cases members <;> simp

-- ---------------------------------------------------------------------------
-- What is seen
-- ---------------------------------------------------------------------------

theorem declaration_of_recognise {head : Head} (h : recognise members previous ps = some head)
    (hd : head.label = .declaration d) : ∃ rest, classDeclaration? ps = some (d, rest) := by
  simp only [recognise] at h
  split at h
  · cases h
  · split at h
    · cases h
      cases hd
    · split at h
      · next d' rest hfound =>
        cases h
        cases hd
        exact ⟨rest, hfound⟩
      · obtain ⟨rest, -, rfl⟩ := Option.map_eq_some_iff.mp h
        cases hd

/-- Where no class begins nothing that is recognised is one. -/
theorem declaration_ne {head : Head} (h : (continuesName previous || !beginsClass ps) = true)
    (hr : recognise members previous ps = some head) : head.label ≠ .declaration d := by
  intro hd
  obtain ⟨rest, hclass⟩ := declaration_of_recognise hr hd
  rw [beginsClass_of_declaration hclass, Bool.not_true, Bool.or_false] at h
  rw [recognise_behind (.inl h)] at hr
  cases hr

mutual

theorem seenWithin_classless (members : Bool) (p : Piece) (h : classlessWithin p = true) :
    Outline.seenWithin recognise members p = none := by
  match p with
  | .lexeme l => rfl
  | .group o inner e =>
    rw [Outline.seenWithin]
    exact seen_classless members false 0 none inner h

/-- Where no class begins no declaration is seen. -/
theorem seen_classless (members pendingMembers : Bool) (pending : Nat) (previous : Option Piece)
    (ps : List Piece) (h : classless previous ps = true) :
    Outline.seen recognise members pendingMembers pending previous ps = none := by
  match ps with
  | [] => rfl
  | p :: ps =>
    rw [classless, Bool.and_eq_true, Bool.and_eq_true] at h
    obtain ⟨⟨hp, hwithin⟩, hps⟩ := h
    have hinner (members : Bool) := seenWithin_classless members p hwithin
    have hrest (pendingMembers : Bool) (pending : Nat) :=
      seen_classless members pendingMembers pending (some p) ps hps
    cases pending with
    | succ pending => rw [Outline.seen, hinner, hrest]; rfl
    | zero =>
      rw [Outline.seen]
      cases hr : recognise members previous (p :: ps) with
      | none => simp only [hinner, hrest, Option.or_none]
      | some head =>
        obtain ⟨_ | d, length, inMembers⟩ := head
        · simp only [hinner, hrest, Option.or_none]
        · exact absurd rfl (declaration_ne (d := d) hp hr)

end

/-- What is seen first is the first class. -/
theorem FirstClass.seen_eq (h : FirstClass pending previous ps qs)
    (hd : classDeclaration? qs = some (d, rest)) (members pendingMembers : Bool) :
    Outline.seen recognise members pendingMembers pending previous ps = some (d, qs) := by
  induction h generalizing members pendingMembers with
  | @here previous ps hmay hi =>
    cases ps with
    | nil => cases hd
    | cons p ps => rw [Outline.seen, recognise_class hmay hi hd]
  | @behind _ p _ _ hp hwithin _ ih =>
    rw [Outline.seen, recognise_behind hp]
    exact (congrArg (Option.or · _) (seenWithin_classless false p hwithin)).trans (ih hd ..)
  | @within pending _ _ _ _ _ _ _ ih =>
    have hinner (members : Bool) := ih hd members false
    cases pending with
    | zero =>
      rw [Outline.seen, recognise_group]
      simp only [Outline.seenWithin, hinner, Option.some_or]
    | succ pending =>
      rw [Outline.seen]
      simp only [Outline.seenWithin, hinner, Option.some_or]
  | @object _ p ps rest _ hmay ho _ ih =>
    rw [Outline.seen, recognise_object hmay ho]
    have hlength : (p :: ps).length - rest.length - 1 = ps.length - rest.length := by
      rw [List.length_cons]
      omega
    have hlexeme : Outline.seenWithin recognise true p = none := by
      cases p with
      | lexeme l => rfl
      | group => cases isWord_of_object ho
    simp only [hlength, hlexeme, Option.none_or]
    exact ih hd ..
  | @pending _ _ p _ _ hwithin _ ih =>
    rw [Outline.seen]
    exact (congrArg (Option.or · _) (seenWithin_classless _ p hwithin)).trans (ih hd ..)

end Source.Kotlin

end Scaffold
