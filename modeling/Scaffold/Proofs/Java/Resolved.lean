import Scaffold.Proofs.Searches
import Scaffold.Proofs.Spellings
import Scaffold.Source

/-!
# Types are always declared

A field of Java has a type in front, and no text of a type is that of a field
without one. Even when types have to be declared, a source with a declaration
is resolved.
-/

namespace Scaffold

namespace Source.Java

open Piece

variable {p : Piece} {ps : List Piece}

/-- A sign that stands in types and in no word. -/
def typeSigns : List Char := ['.', '<', '@', '[']

def isSign (p : Piece) : Bool :=
  typeSigns.any fun c => p.isSymbol c || p.isGroup c

theorem isSign_symbol {c : Char} (h : p.isSymbol c = true) (hc : c ∈ typeSigns) :
    isSign p = true :=
  List.any_eq_true.mpr ⟨c, hc, by rw [h, Bool.true_or]⟩

theorem isSign_group {c : Char} (h : p.isGroup c = true) (hc : c ∈ typeSigns) :
    isSign p = true :=
  List.any_eq_true.mpr ⟨c, hc, by rw [h, Bool.or_true]⟩

theorem sign_in_spelling (h : ∃ p ∈ ps, isSign p = true) : ∃ c ∈ typeSigns, c ∈ (spell ps).toList := by
  obtain ⟨p, hp, hs⟩ := h
  obtain ⟨c, hc, hs⟩ := List.any_eq_true.mp hs
  exact ⟨c, hc, mem_spell (by simpa using hs) hp⟩

theorem splitDimensions_signed (s : AnnotationState) (taken pending ps : List Piece) :
    ∃ more, (splitDimensions s taken pending ps).1 = taken.reverse ++ more ∧
      (more = [] ∨ ∃ p ∈ more, isSign p = true) := by
  induction ps generalizing s taken pending with
  | nil => exact ⟨[], by simp [splitDimensions], .inl rfl⟩
  | cons p ps ih =>
    have hstop : ∃ more, taken.reverse = taken.reverse ++ more ∧
        (more = [] ∨ ∃ p ∈ more, isSign p = true) := ⟨[], by simp, .inl rfl⟩
    have hgroup (hp : p.isGroup '[' = true) : ∃ more,
        (splitDimensions .outside (p :: pending ++ taken) [] ps).1 = taken.reverse ++ more ∧
          (more = [] ∨ ∃ p ∈ more, isSign p = true) := by
      obtain ⟨more, he, -⟩ := ih .outside (p :: pending ++ taken) []
      refine ⟨pending.reverse ++ p :: more, by simpa using he, .inr ⟨p, by simp, ?_⟩⟩
      exact isSign_group hp (by decide)
    rw [splitDimensions.eq_def]
    cases s <;> dsimp only
    · split
      · exact hgroup ‹_›
      · repeat' split
        all_goals first | exact ih .. | exact hstop
    · split
      · exact ih ..
      · exact hstop
    · split
      · exact hgroup ‹_›
      · repeat' split
        all_goals first | exact ih .. | exact hstop
    · split
      · exact ih ..
      · exact hstop

theorem splitType_extends (s : TypeState) (taken ps : List Piece) :
    ∃ more, (splitType s taken ps).1 = taken.reverse ++ more := by
  induction ps generalizing s taken with
  | nil => exact ⟨[], by simp [splitType]⟩
  | cons p ps ih =>
    have hgo (s : TypeState) : ∃ more, (splitType s (p :: taken) ps).1 = taken.reverse ++ more := by
      obtain ⟨more, he⟩ := ih s (p :: taken)
      exact ⟨p :: more, by simpa using he⟩
    have hstop : ∃ more, taken.reverse = taken.reverse ++ more := ⟨[], by simp⟩
    rw [splitType.eq_def]
    dsimp only
    repeat' split
    all_goals first | exact hgo _ | exact hstop

/-- A type without dimensions is one word or has a sign. -/
theorem splitType_signed (ps : List Piece) :
    (splitType .expected [] ps).1 = [] ∨
      (∃ p, (splitType .expected [] ps).1 = [p] ∧ isTypeWord p = true) ∨
      ∃ p ∈ (splitType .expected [] ps).1, isSign p = true := by
  have hextended {s : TypeState} {taken qs : List Piece} (h : ∃ p ∈ taken, isSign p = true) :
      ∃ p ∈ (splitType s taken qs).1, isSign p = true := by
    obtain ⟨more, he⟩ := splitType_extends s taken qs
    obtain ⟨p, hp, hs⟩ := h
    exact ⟨p, by simp [he, hp], hs⟩
  cases ps with
  | nil => exact .inl rfl
  | cons p ps =>
    rw [splitType.eq_def]
    dsimp only
    split
    · next hword =>
      right
      cases ps with
      | nil => exact .inl ⟨p, by simp [splitType], hword⟩
      | cons q qs =>
        have hstop : (∃ r, [p].reverse = [r] ∧ isTypeWord r = true) := ⟨p, rfl, hword⟩
        rw [splitType.eq_def]
        dsimp only
        split
        · next h => exact .inr (hextended ⟨q, by simp, isSign_symbol h (by decide)⟩)
        split
        · next h =>
          have hgo : ∃ r ∈ (splitType .expected [q, p] qs).1, isSign r = true :=
            hextended ⟨q, List.mem_cons_self, isSign_symbol h (by decide)⟩
          cases qs with
          | nil => exact .inl hstop
          | cons =>
            dsimp only
            split
            · exact .inr hgo
            · exact .inl hstop
        · exact .inl hstop
    split
    · next h => exact .inr (.inr (hextended ⟨p, by simp, isSign_symbol h (by decide)⟩))
    · exact .inl rfl

/-- A type is one word or has a sign. -/
theorem readType_signed (ps : List Piece) :
    (readType ps).1 = [] ∨ (∃ p, (readType ps).1 = [p] ∧ isTypeWord p = true) ∨
      ∃ p ∈ (readType ps).1, isSign p = true := by
  obtain ⟨more, he, hmore⟩ := splitDimensions_signed .outside [] [] (splitType .expected [] ps).2
  rw [List.reverse_nil, List.nil_append] at he
  rw [readType]
  by_cases hbase : (splitType .expected [] ps).1 = []
  · exact .inl (by simp [hbase])
  · simp only [hbase, if_false, he]
    right
    rcases splitType_signed ps with h | ⟨p, h, hword⟩ | ⟨p, hp, hs⟩
    · exact absurd h hbase
    · rcases hmore with rfl | ⟨q, hq, hs⟩
      · exact .inl ⟨p, by simp [h], hword⟩
      · exact .inr ⟨q, by simp [hq], hs⟩
    · exact .inr ⟨p, by simp [hp], hs⟩

-- ---------------------------------------------------------------------------
-- Fields
-- ---------------------------------------------------------------------------

theorem unlike_noType {t : String} (h : ∃ c ∈ typeSigns, c ∈ t.toList) : t ≠ Field.noType := by
  rintro rfl
  obtain ⟨c, hc, h⟩ := h
  have hnone : typeSigns.all (fun c => decide (c ∉ Field.noType.toList)) = true := by decide
  exact of_decide_eq_true (List.all_eq_true.mp hnone c hc) h

theorem spell_typeWord (h : isTypeWord p = true) : spell [p] ≠ Field.noType := by
  cases p with
  | group => simp [isTypeWord, name?, Piece.isWord, word?] at h
  | lexeme l =>
    have hspell : spell [lexeme l] = l.text := by simp [spell_cons, inkOf, charsOf]
    rw [hspell]
    intro hnull
    have hword (w : String) (hw : (lexeme l).word? = some w) : w = "null" := by
      simp only [word?] at hw
      split at hw
      · simpa [hnull, Field.noType] using hw.symm
      · cases hw
    simp only [isTypeWord, Bool.or_eq_true, Option.isSome_iff_exists, List.any_eq_true] at h
    rcases h with ⟨w, h⟩ | ⟨w, hw, h⟩
    · simp only [name?, Option.filter_eq_some_iff] at h
      rw [hword w h.1] at h
      exact absurd h.2 (by decide)
    · rw [hword w (by simpa [Piece.isWord] using h)] at hw
      exact absurd hw (by decide)

/-- The text of a type with dimensions behind it is not that of a field without one. -/
theorem typeText_unlike {type rest : List Piece} (ht : (readType rest).1 = type) (hne : type ≠ [])
    (ps : List Piece) :
    spell type ++ spell (splitDimensions .outside [] [] ps).1 ≠ Field.noType := by
  obtain ⟨more, he, hmore⟩ := splitDimensions_signed .outside [] [] ps
  rw [List.reverse_nil, List.nil_append] at he
  rw [he]
  rcases hmore with rfl | hmore
  · rcases readType_signed rest with h | ⟨p, h, hword⟩ | hs
    · exact absurd (ht.symm.trans h) hne
    · rw [← ht, h]
      simpa using spell_typeWord hword
    · obtain ⟨c, hc, hmem⟩ := sign_in_spelling (ht ▸ hs)
      exact unlike_noType ⟨c, hc, by simp [hmem]⟩
  · obtain ⟨c, hc, hmem⟩ := sign_in_spelling hmore
    exact unlike_noType ⟨c, hc, by simp [hmem]⟩

/-- Every field has a type. -/
def Typeful (fields : List Field) : Prop := ∀ f ∈ fields, f.isUnresolved = false

theorem declarators_typeful {type rest : List Piece} (ht : (readType rest).1 = type)
    (hne : type ≠ []) (ps : List Piece) : Typeful (declarators type ps) := by
  intro f hf
  obtain ⟨part, -, hpart⟩ := List.mem_filterMap.mp hf
  cases part with
  | nil => cases hpart
  | cons p more =>
    obtain ⟨name, -, rfl⟩ := Option.map_eq_some_iff.mp hpart
    simpa [Field.isUnresolved] using typeText_unlike ht hne more

theorem memberFields_typeful (member : List Piece) : Typeful (memberFields member) := by
  have hnone : Typeful [] := by simp [Typeful]
  rw [memberFields]
  split
  · exact hnone
  · next hne => exact declarators_typeful rfl hne []
  · next p more _ hne =>
    split
    · exact hnone
    · exact declarators_typeful rfl hne (p :: more)

theorem componentFields_typeful (parameters : List Piece) :
    Typeful (componentFields parameters) := by
  intro f hf
  obtain ⟨part, -, hpart⟩ := List.mem_filterMap.mp hf
  dsimp only at hpart
  split at hpart
  · cases hpart
  · next p more _ hne =>
    split at hpart
    · cases hpart
    · obtain ⟨name, -, rfl⟩ := Option.map_eq_some_iff.mp hpart
      simpa [Field.isUnresolved, splitDimensions] using typeText_unlike rfl hne []
  · cases hpart

theorem fieldsOf_typeful (kind : TypeKind) (parameters body : List Piece) :
    Typeful (fieldsOf kind parameters body) := by
  have hbody (body : List Piece) : Typeful (bodyFields body) := by
    intro f hf
    obtain ⟨m, -, hm⟩ := List.mem_flatMap.mp hf
    exact memberFields_typeful m f hm
  cases kind with
  | plain => exact hbody _
  | enumeration => exact hbody _
  | record =>
    intro f hf
    rcases List.mem_append.mp hf with hf | hf
    · exact componentFields_typeful _ f hf
    · exact hbody _ f hf

theorem typeDeclaration_typeful {found : Declaration × List Piece}
    (h : typeDeclaration? ps = some found) : Typeful found.1.fields := by
  simp only [typeDeclaration?, introduced?, Option.bind_eq_bind, Option.bind_eq_some_iff,
    Option.pure_def] at h
  obtain ⟨⟨kind, _⟩, -, _, -, name, -, h⟩ := h
  split at h <;>
    simp only [Option.bind_eq_some_iff, Option.some.injEq] at h <;>
    obtain ⟨⟨parameters, _⟩, -, ⟨body, rest⟩, -, rfl⟩ := h <;>
    exact fieldsOf_typeful kind parameters body

mutual

theorem firstWithin_typeful {p : Piece} {d : Declaration} (h : firstWithin p = some d) :
    Typeful d.fields := by
  cases p with
  | lexeme => cases h
  | group o inner e => exact firstIn_typeful h

theorem firstIn_typeful {previous : Option Piece} {ps : List Piece} {d : Declaration}
    (h : firstIn previous ps = some d) : Typeful d.fields := by
  cases ps with
  | nil => cases h
  | cons p ps =>
    have hbehind (h : (firstWithin p).or (firstIn (some p) ps) = some d) : Typeful d.fields := by
      rcases Option.or_eq_some_iff.mp h with h | ⟨-, h⟩
      · exact firstWithin_typeful h
      · exact firstIn_typeful h
    rw [firstIn] at h
    split at h
    · exact hbehind h
    · split at h
      · next found hfound =>
        cases h
        exact typeDeclaration_typeful hfound
      · exact hbehind h

end

end Source.Java

namespace SourceFile

open Source

/-- A source of Java with a declaration is resolved, whether types have to be declared or not. -/
theorem resolve_java {s : SourceFile} {d : Declaration} (hs : s.language = .java)
    (hd : s.declaration? = some d) (strict : Bool) :
    s.resolve strict =
      .ok ⟨d.name, Entity.qualify (s.packageName?.getD "") d.name, d.fields, .java⟩ := by
  have htypeful : Java.Typeful d.fields := by
    rw [declaration?, outline, hs, Java.firstDeclaration_outline] at hd
    exact Java.firstIn_typeful hd
  have hfind : d.fields.find? Field.isUnresolved = none :=
    List.find?_eq_none.mpr fun f hf => by simp [htypeful f hf]
  cases strict <;> simp [resolve, hd, hfind, hs]

end SourceFile

end Scaffold
