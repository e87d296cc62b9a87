import Mathlib.Data.List.Nodup
import Scaffold.Proofs.PathLaws
import Scaffold.Tree.Disk

/-!
# Names behind a path

A name that is one component stands at the end of a joined path as it is
written, so what the path asks for is told by the name. The temporary place
of a file is beside it, under the name with another ending.
-/

namespace Scaffold

theorem Text.intercalate_splitOn (sep : Char) (cs : List Char) :
    [sep].intercalate (splitOn sep cs) = cs := by
  induction cs with
  | nil => rfl
  | cons c cs ih =>
    obtain ⟨piece, pieces, hs⟩ := splitOn_eq_cons sep cs
    by_cases hc : c = sep
    · subst hc
      rw [hs] at ih
      simp [splitOn, hs, List.intercalate_cons_cons, ih]
    · rw [splitOn_cons_of_ne hc hs]
      rw [hs] at ih
      cases pieces with
      | nil => simpa [List.intercalate] using ih
      | cons next pieces =>
        rw [List.intercalate_cons_cons] at ih ⊢
        simpa using ih

theorem Text.exists_mem_splitOn {sep c : Char} {cs : List Char} (h : c ∈ cs) (hc : c ≠ sep) :
    ∃ piece ∈ splitOn sep cs, c ∈ piece := by
  induction cs with
  | nil => cases h
  | cons a cs ih =>
    obtain ⟨first, rest, hs⟩ := splitOn_eq_cons sep cs
    by_cases ha : a = sep
    · obtain ⟨piece, hpiece, hmem⟩ := ih ((List.mem_cons.mp h).resolve_left (ha ▸ hc))
      exact ⟨piece, by simp [splitOn, ha, hpiece], hmem⟩
    · rw [splitOn_cons_of_ne ha hs]
      rw [hs] at ih
      rcases List.mem_cons.mp h with rfl | h
      · exact ⟨_, List.mem_cons_self, List.mem_cons_self⟩
      · obtain ⟨piece, hpiece, hmem⟩ := ih h
        rcases List.mem_cons.mp hpiece with rfl | hpiece
        · exact ⟨_, List.mem_cons_self, List.mem_cons_of_mem a hmem⟩
        · exact ⟨piece, List.mem_cons_of_mem _ hpiece, hmem⟩

namespace Path

/-- A character stands in a name that its text adds, unless it is a slash or a dot. -/
theorem exists_normal_of_mem_text {cs : List Char} {c : Char} (h : c ∈ cs) (hslash : c ≠ '/')
    (hdot : c ≠ '.') : ∃ name, .normal name ∈ added cs ∧ c ∈ name.toList := by
  obtain ⟨piece, hpiece, hc⟩ := Text.exists_mem_splitOn h hslash
  have hsegment : segmentComponent piece = some (.normal (String.ofList piece)) := by
    unfold segmentComponent
    rw [if_neg, if_neg]
    · rintro rfl
      simp [hdot] at hc
    · rintro (rfl | rfl) <;> simp [hdot] at hc
  exact ⟨_, List.mem_filterMap.mpr ⟨piece, hpiece, hsegment⟩, by simpa using hc⟩

/-- A slash between two occurrences of a character puts them into different names. -/
theorem two_le_length_added {front back : List Char} {c : Char} (hf : c ∈ front) (hb : c ∈ back)
    (hslash : c ≠ '/') (hdot : c ≠ '.') : 2 ≤ (added (front ++ '/' :: back)).length := by
  obtain ⟨first, hfirst, -⟩ := exists_normal_of_mem_text hf hslash hdot
  obtain ⟨last, hlast, -⟩ := exists_normal_of_mem_text hb hslash hdot
  have := List.length_pos_of_mem hfirst
  have := List.length_pos_of_mem hlast
  rw [added_slash, List.length_append]
  omega

-- ---------------------------------------------------------------------------
-- Whole paths
-- ---------------------------------------------------------------------------

theorem takeSegments_all {init : List (List Char)} {last : List Char} {c : Component}
    (h : segmentComponent last = some c) :
    takeSegments ((init ++ [last]).filterMap segmentComponent).length (init ++ [last]) =
      init ++ [last] := by
  induction init with
  | nil => simp [takeSegments, h]
  | cons segment init ih =>
    cases hs : segmentComponent segment with
    | none =>
      -- The count is not exhausted before the last segment.
      obtain ⟨n, hn⟩ : ∃ n, ((init ++ [last]).filterMap segmentComponent).length = n + 1 :=
        ⟨_, by simp [h]; rfl⟩
      rw [hn] at ih
      rw [List.cons_append, List.filterMap_cons_none hs, hn, takeSegments, hs]
      exact congrArg _ ih
    | some d =>
      rw [List.cons_append, List.filterMap_cons_some hs, List.length_cons, takeSegments, hs]
      exact congrArg _ ih

/-- A leading component stands for the first segment, which is none behind it. -/
theorem splitOn_of_lead (h : leadComponents cs ≠ []) :
    ∃ c first pieces, leadComponents cs = [c] ∧ Text.splitOn '/' cs = first :: pieces ∧
      segmentComponent first = none := by
  unfold leadComponents at h ⊢
  split at h
  · exact ⟨.root, [], _, rfl, by simp only [Text.splitOn, if_true]; rfl, rfl⟩
  · exact ⟨.current, ['.'], [], rfl, rfl, rfl⟩
  · exact ⟨.current, ['.'], _, rfl, by simp [Text.splitOn]; rfl, rfl⟩
  · simp at h

/-- A path whose last segment is a component is all needed for its components. -/
theorem upTo_length {p : Path} {init : List (List Char)} {last : List Char} {c : Component}
    (hs : Text.splitOn '/' p.spelling.toList = init ++ [last])
    (hc : segmentComponent last = some c) : p.upTo p.components.length = p := by
  have hwhole := Text.intercalate_splitOn '/' p.spelling.toList
  have hcount : p.components.length = (leadComponents p.spelling.toList).length +
      ((Text.splitOn '/' p.spelling.toList).filterMap segmentComponent).length := by
    rw [components, componentsOf, List.length_append]
  obtain ⟨n, hn⟩ : ∃ n, ((Text.splitOn '/' p.spelling.toList).filterMap segmentComponent).length =
      n + 1 := ⟨_, by simp [hs, hc]; rfl⟩
  by_cases hlead : leadComponents p.spelling.toList = []
  · have hall := @takeSegments_all init last c hc
    rw [← hs, hn] at hall
    have hlength : p.components.length = n + 1 := by simp [hcount, hlead, hn]
    simp only [upTo, hlength, hlead, hall, hwhole, String.ofList_toList]
  · obtain ⟨lead, first, pieces, hl, hf, hnone⟩ := splitOn_of_lead hlead
    -- The last segment is a component, so it is not the first one.
    obtain ⟨init', rfl⟩ : ∃ init', pieces = init' ++ [last] := by
      cases init with
      | nil => simp_all
      | cons segment init =>
        rw [hs, List.cons_append, List.cons.injEq] at hf
        exact ⟨init, hf.2.symm⟩
    have hall := @takeSegments_all init' last c hc
    have hpieces : ((init' ++ [last]).filterMap segmentComponent).length = n + 1 := by
      rw [← hn, hf, List.filterMap_cons_none hnone]
    rw [hpieces] at hall
    have hlength : p.components.length = n + 1 + 1 := by
      rw [hcount, hl, hn, List.length_singleton, Nat.add_comm]
    rw [hf] at hwhole
    simp only [upTo, hlength, hl, hf, hall, hwhole, String.ofList_toList]

-- ---------------------------------------------------------------------------
-- Names
-- ---------------------------------------------------------------------------

/-- What is in front of a text joined to a path does not depend on the text. -/
theorem join_eq (p : Path) (hq : (Path.mk q).isAbsolute = false) :
    p.join q = ⟨(p.join "").spelling ++ q⟩ := by
  simp only [Path.isAbsolute, decide_eq_false_iff_not] at hq
  simp only [join, if_neg hq]
  cases hl : p.spelling.toList.getLast? with
  | none => simp
  | some c => by_cases hc : c = '/' <;> simp [hc]

theorem spelling_join_empty {p : Path} (hp : p.spelling ≠ "")
    (hl : p.spelling.toList.getLast? ≠ some '/') : (p.join "").spelling = p.spelling ++ "/" := by
  simp only [join, String.toList_empty, List.head?_nil]
  cases hs : p.spelling.toList.getLast? with
  | none => simp_all
  | some last =>
    split <;> simp_all

/-- A text ends the path that it is joined to. -/
theorem suffix_join (p : Path) (q : String) : q.toList <:+ (p.join q).spelling.toList := by
  unfold join
  split
  · exact List.suffix_refl _
  · split
    · exact List.suffix_refl _
    · exact ⟨p.spelling.toList, by simp⟩
    · exact ⟨p.spelling.toList ++ ['/'], by simp⟩

theorem isAbsolute_of_notMem (h : '/' ∉ q.toList) : (Path.mk q).isAbsolute = false := by
  rw [isAbsolute, decide_eq_false_iff_not]
  intro hh
  exact h (List.mem_of_head? hh)

theorem splitOn_join (h : '/' ∉ q.toList) (p : Path) :
    ∃ init, Text.splitOn '/' (p.join q).spelling.toList = init ++ [q.toList] := by
  have hq := Text.splitOn_of_notMem h
  by_cases hp : p.spelling = ""
  · exact ⟨[], by rw [join_of_empty hp, hq, List.nil_append]⟩
  · obtain ⟨front, hf, -⟩ := join_relative hp (isAbsolute_of_notMem h)
    exact ⟨_, by rw [hf, Text.splitOn_append, hq]⟩

/-- The text is one component, the name as it is written. -/
structure IsName (name : String) : Prop where
  slashFree : '/' ∉ name.toList
  component : segmentComponent name.toList = some (.normal name)

namespace IsName

variable {name : String}

theorem isAbsolute (h : IsName name) : (Path.mk name).isAbsolute = false :=
  isAbsolute_of_notMem h.slashFree

theorem added (h : IsName name) : added name.toList = [.normal name] := by
  rw [added_of_notMem h.slashFree, h.component]
  rfl

theorem ne_dot (h : IsName name) : name.toList ≠ ['.'] := by
  intro hd
  have := h.component
  simp [hd, segmentComponent] at this

theorem ne_empty (h : IsName name) : name.toList ≠ [] := by
  intro hd
  have := h.component
  simp [hd, segmentComponent] at this

theorem join_ne_empty (h : IsName name) (p : Path) : (p.join name).spelling ≠ "" := by
  intro hempty
  have hsuffix := p.suffix_join name
  rw [hempty] at hsuffix
  exact h.ne_empty (List.suffix_nil.mp hsuffix)

theorem leadComponents (h : IsName name) : leadComponents name.toList = [] := by
  have hslash := h.slashFree
  have hdot := h.ne_dot
  unfold Path.leadComponents
  split <;> simp_all

theorem components_join (h : IsName name) (p : Path) :
    (p.join name).components = p.components ++ [.normal name] := by
  by_cases hp : p.spelling = ""
  · rw [join_of_empty hp, components_eq_nil.mpr hp, components, componentsOf_eq, h.leadComponents,
      h.added]
  · rw [Path.components_join hp h.isAbsolute, h.added]

end IsName

theorem components_foldl_names {names : List String} (h : ∀ name ∈ names, IsName name) (p : Path) :
    (names.foldl Path.join p).components = p.components ++ names.map .normal := by
  induction names generalizing p with
  | nil => simp
  | cons name names ih =>
    rw [List.foldl_cons, ih (fun n hn => h n (List.mem_cons_of_mem _ hn)),
      (h name List.mem_cons_self).components_join]
    simp

theorem cutName_of_ending {stem ending : List Char} (hs : stem ≠ []) (he : '.' ∉ ending) :
    cutName (stem ++ '.' :: ending) = (stem, some ending) := by
  have htake : ((stem ++ '.' :: ending).reverse.takeWhile (· ≠ '.')).reverse = ending := by
    have hall : ∀ c ∈ ending.reverse, decide (c ≠ '.') = true := by
      intro c hc
      rw [decide_eq_true_iff]
      rintro rfl
      exact he (List.mem_reverse.mp hc)
    rw [List.reverse_append, List.reverse_cons, List.append_assoc,
      List.takeWhile_append_of_pos hall]
    simp
  have hcut : (stem ++ '.' :: ending).take ((stem ++ '.' :: ending).length - ending.length - 1) =
      stem := by
    have hlength : (stem ++ '.' :: ending).length - ending.length - 1 = stem.length := by
      simp only [List.length_append, List.length_cons]
      omega
    rw [hlength, List.take_left]
  simp only [cutName, htake, hcut]
  simp [hs]

-- ---------------------------------------------------------------------------
-- Extensions
-- ---------------------------------------------------------------------------

section
variable {p : Path} {as stem ending : List Char} {init : List (List Char)} {name : String}
  (hs : Text.splitOn '/' as = init ++ [stem]) (h : '/' ∉ ending)
  (hp : p.spelling.toList = as ++ '.' :: ending) (hname : name.toList = stem ++ '.' :: ending)
include hs h hp hname

theorem splitOn_ending : Text.splitOn '/' p.spelling.toList = init ++ [name.toList] := by
  rw [hp, Text.splitOn_append_last hs (by simp [h]), hname]

variable (hc : segmentComponent name.toList = some (.normal name))
include hc

theorem components_ending :
    p.components = leadComponents p.spelling.toList ++ init.filterMap segmentComponent ++
      [.normal name] := by
  rw [components, componentsOf, splitOn_ending hs h hp hname]
  simp [hc]

/-- An extension is replaced at the end of the spelling. -/
theorem toList_withExtension (hdot : '.' ∉ ending) (hstem : stem ≠ []) (extension : String) :
    (p.withExtension extension).spelling.toList = as ++ '.' :: extension.toList := by
  have hfile : p.fileName? = some name := by
    simp [fileName?, components_ending hs h hp hname hc]
  have hwhole := upTo_length (splitOn_ending hs h hp hname) hc
  have hcut : name.length - stem.length = ('.' :: ending).length := by
    rw [← String.length_toList, hname, List.length_append, Nat.add_sub_cancel_left]
  simp only [withExtension, hfile, hwhole, hname, cutName_of_ending hstem hdot, hcut, hp]
  rw [List.length_append, Nat.add_sub_cancel, List.take_left]
  simp

end

end Path

namespace Disk

open Scaffold.Path

variable {name : String}

theorem endsInSlash_join (h : IsName name) (p : Path) : endsInSlash (p.join name) = false := by
  obtain ⟨front, hf⟩ := p.suffix_join name
  rw [endsInSlash, ← hf, List.getLast?_append_of_ne_nil _ h.ne_empty, decide_eq_false_iff_not]
  intro hl
  exact h.slashFree (List.mem_of_getLast? hl)

theorem endsInDot_join (h : IsName name) (p : Path) : endsInDot (p.join name) = false := by
  have hslash := endsInSlash_join h p
  rw [endsInSlash, decide_eq_false_iff_not] at hslash
  have hdrop : Text.dropEndWhile (· = '/') (p.join name).spelling.toList =
      (p.join name).spelling.toList := by
    rw [Text.dropEndWhile]
    cases hr : (p.join name).spelling.toList.reverse with
    | nil => rw [List.dropWhile_nil, ← hr, List.reverse_reverse]
    | cons c cs =>
      have hc : c ≠ '/' := by
        rintro rfl
        exact hslash (by rw [← List.head?_reverse, hr, List.head?_cons])
      rw [List.dropWhile_cons_of_neg (by simpa using hc), ← hr, List.reverse_reverse]
  rw [endsInDot, hdrop, decide_eq_false_iff_not]
  intro hdot
  rcases List.suffix_or_suffix_of_suffix hdot (p.suffix_join name) with hs | hs
  · exact h.slashFree (hs.subset (by simp))
  · rcases List.suffix_cons_iff.mp hs with heq | hs
    · exact h.slashFree (by simp [heq])
    · rcases List.suffix_cons_iff.mp hs with heq | hs
      · exact h.ne_dot heq
      · exact h.ne_empty (List.suffix_nil.mp hs)

/-- The temporary place of a file is beside it. -/
theorem temporary_join {stem ending : String} (h : IsName (stem ++ "." ++ ending))
    (hs : stem ≠ "") (he : '.' ∉ ending.toList) (p : Path) :
    temporary (p.join (stem ++ "." ++ ending)) = p.join (stem ++ ".tmp") := by
  have hname : (stem ++ "." ++ ending).toList = stem.toList ++ '.' :: ending.toList := by simp
  obtain ⟨hstem, hending⟩ : '/' ∉ stem.toList ∧ '/' ∉ ending.toList := by
    simpa [hname] using h.slashFree
  have hbehind {text : String} (ht : '/' ∉ text.toList) :
      (p.join (stem ++ "." ++ text)).spelling.toList =
        (p.join stem).spelling.toList ++ '.' :: text.toList := by
    rw [join_eq p (isAbsolute_of_notMem hstem),
      join_eq p (isAbsolute_of_notMem (by simp [hstem, ht]))]
    simp
  obtain ⟨init, hsplit⟩ := splitOn_join hstem p
  have hplace := toList_withExtension hsplit hending (hbehind hending) hname h.component he
    (by simpa using hs) "tmp"
  have htemporary : stem ++ ".tmp" = stem ++ "." ++ "tmp" := by
    rw [String.append_assoc]
    rfl
  rw [← hbehind (by decide), String.toList_inj] at hplace
  rw [temporary, htemporary]
  exact (congrArg Path.mk hplace :)

end Disk

end Scaffold
