import Mathlib.Data.List.Basic
import Scaffold.Path

/-!
# Joined paths, component by component

A text that is joined to a path adds the components of its segments behind
those of the path. Only the empty path makes room for a leading `.`, and no
other path is without components, so paths with the same components still
have the same components after a join.
-/

namespace Scaffold.Text

theorem splitOn_nil (sep : Char) : splitOn sep [] = [[]] := rfl

theorem splitOn_sep (sep : Char) (cs : List Char) :
    splitOn sep (sep :: cs) = [] :: splitOn sep cs :=
  if_pos rfl

theorem splitOn_cons_of_ne (h : c ≠ sep) (hs : splitOn sep cs = piece :: pieces) :
    splitOn sep (c :: cs) = (c :: piece) :: pieces :=
  (if_neg h).trans (by rw [hs])

theorem splitOn_eq_cons (sep : Char) (cs : List Char) :
    ∃ piece pieces, splitOn sep cs = piece :: pieces := by
  induction cs with
  | nil => exact ⟨[], [], rfl⟩
  | cons c cs ih =>
    obtain ⟨piece, pieces, hs⟩ := ih
    by_cases h : c = sep
    · exact ⟨[], splitOn sep cs, if_pos h⟩
    · exact ⟨_, _, splitOn_cons_of_ne h hs⟩

theorem splitOn_append (sep : Char) (as bs : List Char) :
    splitOn sep (as ++ sep :: bs) = splitOn sep as ++ splitOn sep bs := by
  induction as with
  | nil => simp [splitOn_nil, splitOn_sep]
  | cons a as ih =>
    by_cases h : a = sep
    · simp [splitOn_sep, h, ih]
    · obtain ⟨piece, pieces, hs⟩ := splitOn_eq_cons sep as
      rw [hs] at ih
      rw [List.cons_append, splitOn_cons_of_ne h ih, splitOn_cons_of_ne h hs]
      rfl

theorem splitOn_of_notMem (h : sep ∉ cs) : splitOn sep cs = [cs] := by
  induction cs with
  | nil => rfl
  | cons c cs ih =>
    simp only [List.mem_cons, not_or] at h
    exact splitOn_cons_of_ne (Ne.symm h.1) (ih h.2)

theorem splitOn_append_of_notMem (h : sep ∉ bs) (as : List Char) :
    ∃ init last, splitOn sep as = init ++ [last] ∧
      splitOn sep (as ++ bs) = init ++ [last ++ bs] := by
  induction as with
  | nil => exact ⟨[], [], rfl, by simp [splitOn_of_notMem h]⟩
  | cons a as ih =>
    obtain ⟨init, last, h1, h2⟩ := ih
    by_cases ha : a = sep
    · exact ⟨[] :: init, last, by simp [splitOn_sep, ha, h1], by simp [splitOn_sep, ha, h2]⟩
    · cases init with
      | nil =>
        exact ⟨[], a :: last, splitOn_cons_of_ne ha h1, splitOn_cons_of_ne ha h2⟩
      | cons piece init =>
        exact ⟨(a :: piece) :: init, last, splitOn_cons_of_ne ha h1, splitOn_cons_of_ne ha h2⟩

/-- A text without separators goes on with the last piece. -/
theorem splitOn_append_last (hs : splitOn sep as = init ++ [last]) (h : sep ∉ bs) :
    splitOn sep (as ++ bs) = init ++ [last ++ bs] := by
  obtain ⟨init', last', h1, h2⟩ := splitOn_append_of_notMem h as
  obtain ⟨rfl, hlast⟩ := List.append_inj' (h1.symm.trans hs) rfl
  obtain rfl : last' = last := by simpa using hlast
  exact h2

theorem notMem_of_mem_splitOn (h : piece ∈ splitOn sep cs) : sep ∉ piece := by
  induction cs generalizing piece with
  | nil => simp_all [splitOn_nil]
  | cons c cs ih =>
    by_cases hc : c = sep
    · simp only [hc, splitOn_sep, List.mem_cons] at h
      rcases h with rfl | h
      · simp
      · exact ih h
    · obtain ⟨first, rest, hs⟩ := splitOn_eq_cons sep cs
      rw [splitOn_cons_of_ne hc hs] at h
      rcases List.mem_cons.mp h with rfl | h
      · have := ih (hs ▸ List.mem_cons_self)
        simp [this, Ne.symm hc]
      · exact ih (hs ▸ List.mem_cons_of_mem _ h)

end Scaffold.Text

namespace Scaffold

theorem Component.compare_eq {a b : Component} : a.compare b = .eq ↔ a = b := by
  cases a <;> cases b <;> simp [Component.compare, rank]

namespace Path

-- ---------------------------------------------------------------------------
-- Sameness and order
-- ---------------------------------------------------------------------------

@[simp] theorem same_iff {p q : Path} : p.same q = true ↔ p.components = q.components := by
  simp [same]

@[simp] theorem same_eq_false {p q : Path} : p.same q = false ↔ p.components ≠ q.components := by
  simp [same]

theorem compareComponents_eq {as bs : List Component} :
    compareComponents as bs = .eq ↔ as = bs := by
  induction as generalizing bs with
  | nil => cases bs <;> simp [compareComponents]
  | cons a as ih =>
    cases bs with
    | nil => simp [compareComponents]
    | cons b bs => simp [compareComponents, Component.compare_eq, ih]

theorem compare_eq {p q : Path} : p.compare q = .eq ↔ p.components = q.components :=
  compareComponents_eq

-- ---------------------------------------------------------------------------
-- The components of a text behind a path
-- ---------------------------------------------------------------------------

/-- The components that a text adds behind a path it is joined to. -/
def added (cs : List Char) : List Component :=
  (Text.splitOn '/' cs).filterMap segmentComponent

theorem componentsOf_eq (cs : List Char) : componentsOf cs = leadComponents cs ++ added cs := rfl

@[simp] theorem added_nil : added [] = [] := by
  simp [added, Text.splitOn_nil, segmentComponent]

theorem added_slash (as bs : List Char) : added (as ++ '/' :: bs) = added as ++ added bs := by
  simp [added, Text.splitOn_append]

theorem added_of_notMem (h : '/' ∉ cs) : added cs = (segmentComponent cs).toList := by
  cases hs : segmentComponent cs <;> simp [added, Text.splitOn_of_notMem h, hs]

theorem leadComponents_nil : leadComponents [] = [] := rfl

/-- A slash is the root, and a dot that nothing but a slash follows is the current directory. -/
theorem leadComponents_cons (c : Char) (cs : List Char) :
    leadComponents (c :: cs) =
      if c = '/' then [.root]
      else if c = '.' ∧ cs.head?.all (· = '/') then [.current]
      else [] := by
  by_cases hroot : c = '/'
  · subst hroot
    rfl
  · by_cases hdot : c = '.'
    · subst hdot
      cases cs with
      | nil => rfl
      | cons d ds => by_cases hd : d = '/' <;> simp [leadComponents, hd]
    · simp [leadComponents, hroot, hdot]

theorem leadComponents_slash (bs : List Char) (h : as ≠ []) :
    leadComponents (as ++ '/' :: bs) = leadComponents as := by
  match as with
  | [a] => simp [leadComponents_cons]
  | a :: b :: as => simp [leadComponents_cons]

/-- Whether a relative path starts with `.` is told by its first segment. -/
theorem leadComponents_segment (h : cs.head? ≠ some '/')
    (hs : Text.splitOn '/' cs = piece :: pieces) : leadComponents cs = leadComponents piece := by
  match cs with
  | [] =>
    rw [Text.splitOn_nil, List.cons.injEq] at hs
    rw [← hs.1]
  | [c] =>
    have hc : c ≠ '/' := by simpa using h
    rw [Text.splitOn_cons_of_ne hc (Text.splitOn_nil '/'), List.cons.injEq] at hs
    rw [← hs.1]
  | c :: d :: cs =>
    have hc : c ≠ '/' := by simpa using h
    by_cases hd : d = '/'
    · subst hd
      rw [Text.splitOn_cons_of_ne hc (Text.splitOn_sep '/' cs), List.cons.injEq] at hs
      simp [← hs.1, leadComponents_cons]
    · obtain ⟨first, rest, ht⟩ := Text.splitOn_eq_cons '/' cs
      rw [Text.splitOn_cons_of_ne hc (Text.splitOn_cons_of_ne hd ht), List.cons.injEq] at hs
      simp [← hs.1, leadComponents_cons]

theorem components_eq_nil {p : Path} : p.components = [] ↔ p.spelling = "" := by
  rw [← String.toList_eq_nil_iff, components, componentsOf_eq]
  generalize p.spelling.toList = cs
  constructor
  · intro h
    obtain ⟨hlead, hadded⟩ := List.append_eq_nil_iff.mp h
    match cs with
    | [] => rfl
    | c :: cs =>
      have hc : c ≠ '/' := by
        rintro rfl
        simp [leadComponents_cons] at hlead
      -- The first segment is not empty, so it can only be a dot, which is a leading component.
      obtain ⟨first, rest, ht⟩ := Text.splitOn_eq_cons '/' cs
      have hs := Text.splitOn_cons_of_ne hc ht
      rw [leadComponents_segment (by simpa using hc) hs] at hlead
      have hnone : segmentComponent (c :: first) = none :=
        List.filterMap_eq_nil_iff.mp hadded _ (hs ▸ List.mem_cons_self)
      have hdot : c = '.' ∧ first = [] := by
        unfold segmentComponent at hnone
        split at hnone
        · simp_all
        · split at hnone <;> simp at hnone
      simp [hdot, leadComponents_cons] at hlead
  · rintro rfl
    simp [leadComponents_nil]

-- ---------------------------------------------------------------------------
-- Joins
-- ---------------------------------------------------------------------------

variable {p p' : Path} {q r : String}

theorem join_absolute (p : Path) (h : (Path.mk q).isAbsolute = true) : p.join q = ⟨q⟩ := by
  simp only [isAbsolute, decide_eq_true_eq] at h
  rw [join, if_pos h]

theorem join_of_empty (h : p.spelling = "") (q : String) : p.join q = ⟨q⟩ := by
  simp [join, h]

/-- A relative text stands behind a slash and the front of the path, which has lost at most its
last slash. -/
theorem join_relative (hp : p.spelling ≠ "") (hq : (Path.mk q).isAbsolute = false) :
    ∃ front, (p.join q).spelling.toList = front ++ '/' :: q.toList ∧
      (p.spelling.toList = front ∧ front ≠ [] ∨ p.spelling.toList = front ++ ['/']) := by
  simp only [isAbsolute, decide_eq_false_iff_not] at hq
  rw [join, if_neg hq]
  cases hl : p.spelling.toList.getLast? with
  | none => simp_all
  | some c =>
    obtain ⟨front, hf⟩ := List.getLast?_eq_some_iff.mp hl
    by_cases hc : c = '/'
    · subst hc
      exact ⟨front, by simp [hf], .inr hf⟩
    · refine ⟨p.spelling.toList, ?_, .inl ⟨rfl, by simp [hf]⟩⟩
      split
      · simp_all
      · simp_all
      · simp

theorem components_join (hp : p.spelling ≠ "") (hq : (Path.mk q).isAbsolute = false) :
    (p.join q).components = p.components ++ added q.toList := by
  obtain ⟨front, hj, hf | hf⟩ := join_relative hp hq
  · rw [components, components, hj, hf.1, componentsOf_eq, componentsOf_eq, added_slash,
      leadComponents_slash _ hf.2, List.append_assoc]
  · rw [components, components, hj, hf, componentsOf_eq, componentsOf_eq, added_slash, added_slash]
    by_cases hn : front = []
    · simp [hn, leadComponents_cons]
    · rw [leadComponents_slash _ hn, leadComponents_slash _ hn]
      simp

theorem added_join (p : Path) (hq : (Path.mk q).isAbsolute = false) :
    added (p.join q).spelling.toList = added p.spelling.toList ++ added q.toList := by
  by_cases hp : p.spelling = ""
  · simp [join_of_empty hp, hp]
  · obtain ⟨front, hj, hf | hf⟩ := join_relative hp hq
    · rw [hj, hf.1, added_slash]
    · rw [hj, hf, added_slash, added_slash]
      simp

theorem join_ne_empty (hp : p.spelling ≠ "") (hq : (Path.mk q).isAbsolute = false) :
    (p.join q).spelling ≠ "" := by
  obtain ⟨front, hj, -⟩ := join_relative hp hq
  intro h
  simp [h] at hj

theorem isAbsolute_join (hp : p.isAbsolute = false) (hq : (Path.mk q).isAbsolute = false) :
    (p.join q).isAbsolute = false := by
  by_cases he : p.spelling = ""
  · rwa [join_of_empty he]
  · obtain ⟨front, hj, hf | hf⟩ := join_relative he hq
    · obtain ⟨c, cs, rfl⟩ := List.exists_cons_of_ne_nil hf.2
      simp_all [isAbsolute]
    · cases front <;> simp_all [isAbsolute]

/-- A join depends on the components of the path alone. -/
theorem components_join_congr (h : p.components = p'.components) (q : String) :
    (p.join q).components = (p'.join q).components := by
  have hempty : p.spelling = "" ↔ p'.spelling = "" := by
    rw [← components_eq_nil, ← components_eq_nil, h]
  cases hq : (Path.mk q).isAbsolute with
  | true => rw [join_absolute p hq, join_absolute p' hq]
  | false =>
    by_cases hp : p.spelling = ""
    · rw [join_of_empty hp, join_of_empty (hempty.mp hp)]
    · rw [components_join hp hq, components_join (hempty.not.mp hp) hq, h]

/-- Texts may be joined to each other first. -/
theorem components_join_join (p : Path) (hq : (Path.mk q).isAbsolute = false) (r : String) :
    (p.joinPath ((Path.mk q).join r)).components = ((p.join q).join r).components := by
  rw [joinPath]
  cases hr : (Path.mk r).isAbsolute with
  | true => rw [join_absolute _ hr, join_absolute _ hr, join_absolute _ hr]
  | false =>
    by_cases hp : p.spelling = ""
    · rw [join_of_empty hp, join_of_empty hp]
    · have hqr := isAbsolute_join (p := ⟨q⟩) hq hr
      rw [components_join (q := ((Path.mk q).join r).spelling) hp hqr,
        components_join (join_ne_empty hp hq) hr, components_join hp hq, added_join _ hr,
        List.append_assoc]

end Path

end Scaffold
