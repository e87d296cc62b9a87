import Scaffold.Proofs.Destinations
import Scaffold.Proofs.Respellings

/-!
# Paths made absolute

A path that is made absolute has its own components behind those of the
directory it is read in. So it makes no difference whether a path is joined to
a directory before or after.
-/

namespace Scaffold

namespace Path

variable {here p dir root : Path} {cs : List Char} {c : Component}

/-- What a component is written as is read as that component. -/
theorem added_spelling (h : c ∈ added cs) :
    (Path.mk c.spelling).isAbsolute = false ∧ added c.spelling.toList = [c] := by
  obtain ⟨piece, hmem, hpiece⟩ := List.mem_filterMap.mp h
  have hslash := Text.notMem_of_mem_splitOn hmem
  have hspelling : c.spelling.toList = piece := by
    unfold segmentComponent at hpiece
    split at hpiece
    · cases hpiece
    · split at hpiece
      · next hparent =>
        cases hpiece
        exact hparent.symm
      · cases hpiece
        exact String.toList_ofList
  rw [← hspelling] at hslash hpiece
  refine ⟨isAbsolute_of_notMem hslash, ?_⟩
  rw [added_of_notMem hslash, hpiece]
  rfl

/-- Components are read again when they are joined one by one. -/
theorem components_foldl_spelling {ds : List Component} (hp : p.spelling ≠ "")
    (hds : ∀ c ∈ ds, c ∈ added cs) :
    (ds.foldl (fun q c => q.join c.spelling) p).spelling ≠ "" ∧
      (ds.foldl (fun q c => q.join c.spelling) p).components = p.components ++ ds := by
  induction ds generalizing p with
  | nil => simp [hp]
  | cons c ds ih =>
    obtain ⟨hc, hds⟩ := List.forall_mem_cons.mp hds
    obtain ⟨hrelative, hadded⟩ := added_spelling hc
    obtain ⟨hne, hcomponents⟩ := ih (join_ne_empty hp hrelative) hds
    refine ⟨hne, ?_⟩
    rw [List.foldl_cons, hcomponents, components_join hp hrelative, hadded, List.append_assoc]
    rfl

theorem components_of_isAbsolute (h : p.isAbsolute = true) :
    p.components = .root :: added p.spelling.toList := by
  rw [components, componentsOf_eq]
  rw [isAbsolute, decide_eq_true_eq] at h
  obtain ⟨cs, hcs⟩ := List.head?_eq_some_iff.mp h
  rw [hcs]
  rfl

theorem dropWhile_current (h : p.isAbsolute = false) :
    p.components.dropWhile (· = .current) = added p.spelling.toList := by
  have hadded : (added p.spelling.toList).dropWhile (· = .current) = added p.spelling.toList := by
    cases hcs : added p.spelling.toList with
    | nil => rfl
    | cons c cs =>
      have hc := (ne_lead_of_mem_added (hcs ▸ List.mem_cons_self)).2
      rw [List.dropWhile_cons_of_neg (by simpa using hc)]
  rw [isAbsolute, decide_eq_false_iff_not] at h
  rw [components, componentsOf_eq]
  unfold leadComponents
  split
  · next heq => exact absurd (by rw [heq]; rfl) h
  · simpa using hadded
  · simpa using hadded
  · simpa using hadded

/-- A path with the slash at its end that another has there. -/
def keepSlash (p whole : Path) : Path :=
  if p.spelling.toList.getLast? = some '/' then whole.join "" else whole

theorem components_keepSlash (p : Path) {whole : Path} (h : whole.spelling ≠ "") :
    (p.keepSlash whole).components = whole.components := by
  unfold keepSlash
  split
  · rw [components_join h rfl, String.toList_empty, added_nil, List.append_nil]
  · rfl

/-- The components are joined to the root, or to the directory that the path is read in. -/
theorem absolute_eq (hhere : here.spelling ≠ "") (p : Path) :
    ∃ start : Path, start.spelling ≠ "" ∧
      start.components = (if p.isAbsolute then [.root] else here.components) ∧
      here.absolute p =
        p.keepSlash ((added p.spelling.toList).foldl (fun q c => q.join c.spelling) start) := by
  unfold absolute
  change ∃ start, _ ∧ _ ∧ p.keepSlash _ = _
  cases h : p.isAbsolute with
  | false =>
    have hcurrent := dropWhile_current h
    rw [isAbsolute, decide_eq_false_iff_not] at h
    refine ⟨here, hhere, rfl, ?_⟩
    split
    · next heq => exact absurd (by rw [heq]; rfl) h
    · next heq => exact absurd (by rw [heq]; rfl) h
    · next heq => exact absurd (by rw [heq]; rfl) h
    · rw [hcurrent]
  | true =>
    have hcomponents := components_of_isAbsolute h
    rw [isAbsolute, decide_eq_true_eq] at h
    simp only [↓reduceIte]
    split
    · exact ⟨⟨"/"⟩, by decide, rfl, by rw [hcomponents]; rfl⟩
    · exact ⟨⟨"//"⟩, by decide, rfl, by rw [hcomponents]; rfl⟩
    · exact ⟨⟨"/"⟩, by decide, rfl, by rw [hcomponents]; rfl⟩
    · next hnone =>
      obtain ⟨cs, hcs⟩ := List.head?_eq_some_iff.mp h
      exact absurd hcs (hnone cs)

theorem components_absolute (hhere : here.spelling ≠ "") (p : Path) :
    (here.absolute p).components =
      if p.isAbsolute then p.components else here.components ++ added p.spelling.toList := by
  obtain ⟨start, hne, hstart, heq⟩ := absolute_eq hhere p
  obtain ⟨hwhole, hcomponents⟩ := components_foldl_spelling hne fun c (h : c ∈ added _) => h
  rw [heq, components_keepSlash p hwhole, hcomponents, hstart]
  cases h : p.isAbsolute with
  | true => exact (components_of_isAbsolute h).symm
  | false => rfl

/-- A relative path may be joined to a directory before or after that is made absolute. -/
theorem components_absolute_join (hhere : here.spelling ≠ "") (hroot : root.isAbsolute = false)
    (dir : Path) :
    (here.absolute (dir.joinPath root)).components =
      (here.absolute dir).components ++ added root.spelling.toList := by
  rw [components_absolute hhere, components_absolute hhere, joinPath]
  have hadded := added_join dir (q := root.spelling) hroot
  cases hdir : dir.isAbsolute with
  | false =>
    have hjoin := isAbsolute_join (q := root.spelling) hdir hroot
    simp [hjoin, hadded]
  | true =>
    have hne : dir.spelling ≠ "" := by
      rintro hempty
      simp [isAbsolute, hempty] at hdir
    have hcomponents := components_join (q := root.spelling) hne hroot
    have hjoin : (dir.join root.spelling).isAbsolute = true := by
      rw [isAbsolute_iff] at hdir ⊢
      rw [hcomponents]
      exact List.mem_append_left _ hdir
    simp [hjoin, hcomponents]

end Path

end Scaffold
