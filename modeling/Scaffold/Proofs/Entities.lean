import Mathlib.Data.List.Nodup
import Scaffold.Proofs.Commits

/-!
# The files of an entity

The file of an artifact ends in the entity's name with the ending of the
kind, whatever stands in the name. So the seven files of one entity differ,
and files of two entities with slash-free names can only meet where the
endings hide a difference of the names: `Request` ends `SearchRequest`.
-/

namespace Scaffold

namespace Path

theorem exists_components_join (p : Path) (q : String) :
    ∃ front, (p.join q).components = front ++ added q.toList := by
  cases hq : (Path.mk q).isAbsolute with
  | true => exact ⟨_, by rw [join_absolute p hq, components, componentsOf_eq]⟩
  | false =>
    by_cases hp : p.spelling = ""
    · exact ⟨_, by rw [join_of_empty hp, components, componentsOf_eq]⟩
    · exact ⟨_, components_join hp hq⟩

theorem segmentComponent_of_length {segment : List Char} (h : 2 < segment.length) :
    segmentComponent segment = some (.normal (String.ofList segment)) := by
  unfold segmentComponent
  rw [if_neg, if_neg]
  · rintro rfl
    simp at h
  · rintro (rfl | rfl) <;> simp at h

end Path

namespace Kind

theorem ending_suffix {k l : Kind} (h : k.ending.toList <:+ l.ending.toList) :
    k = l ∨ k = .request ∧ l = .searchRequest := by
  revert h
  cases k <;> cases l <;> decide

theorem typeName_eq_of_suffix {k l : Kind} {m n : String}
    (hs : k.ending.toList <:+ l.ending.toList) (h : k.typeName m = l.typeName n) :
    k = l ∧ m = n ∨ k = .request ∧ l = .searchRequest ∧ m = n ++ "Search" := by
  have heq : m.toList ++ k.ending.toList = n.toList ++ l.ending.toList := by
    simpa [typeName] using congrArg String.toList h
  rcases ending_suffix hs with rfl | ⟨rfl, rfl⟩
  · exact .inl ⟨rfl, String.toList_inj.mp (List.append_cancel_right heq)⟩
  · refine .inr ⟨rfl, rfl, String.toList_inj.mp ?_⟩
    have hr : searchRequest.ending.toList = "Search".toList ++ request.ending.toList := by decide
    rw [hr, ← List.append_assoc] at heq
    simpa using List.append_cancel_right heq

theorem ending_suffix_typeName (k : Kind) (name : String) :
    k.ending.toList <:+ (k.typeName name).toList := by
  rw [typeName, String.toList_append]
  exact List.suffix_append _ _

/-- Type names determine the kind and the name, but for `Search` before `Request`. -/
theorem typeName_eq {k l : Kind} {m n : String} (h : k.typeName m = l.typeName n) :
    k = l ∧ m = n ∨ k = .request ∧ l = .searchRequest ∧ m = n ++ "Search" ∨
      k = .searchRequest ∧ l = .request ∧ n = m ++ "Search" := by
  have hk : k.ending.toList <:+ (l.typeName n).toList := h ▸ k.ending_suffix_typeName m
  have hl : l.ending.toList <:+ (l.typeName n).toList := l.ending_suffix_typeName n
  rcases List.suffix_or_suffix_of_suffix hk hl with hs | hs
  · rcases typeName_eq_of_suffix hs h with heq | hsearch
    · exact .inl heq
    · exact .inr (.inl hsearch)
  · rcases typeName_eq_of_suffix hs h.symm with ⟨rfl, rfl⟩ | ⟨hl, hk, hn⟩
    · exact .inl ⟨rfl, rfl⟩
    · exact .inr (.inr ⟨hk, hl, hn⟩)

theorem fileName_eq {k l : Kind} {m n : String} :
    k.fileName m = l.fileName n ↔ k.typeName m = l.typeName n := by
  rw [fileName, fileName, ← String.toList_inj, ← String.toList_inj]
  simp

theorem typeName_inj {k l : Kind} {name : String} (h : k.typeName name = l.typeName name) :
    k = l := by
  rcases typeName_eq h with ⟨hk, -⟩ | ⟨-, -, hs⟩ | ⟨-, -, hs⟩
  · exact hk
  · simpa using congrArg String.length hs
  · simpa using congrArg String.length hs

/-- The kinds give one name different files. -/
theorem fileName_inj {k l : Kind} {name : String} (h : k.fileName name = l.fileName name) :
    k = l :=
  typeName_inj (fileName_eq.mp h)

theorem isAbsolute_relativePath (k : Kind) : (Path.mk k.relativePath).isAbsolute = false := by
  cases k <;> decide

theorem notMem_slash_ending (k : Kind) : '/' ∉ (k.ending ++ ".java").toList := by
  cases k <;> decide

end Kind

namespace Transaction

-- ---------------------------------------------------------------------------
-- Last components
-- ---------------------------------------------------------------------------

/-- What a name holds behind its last slash. -/
def lastSegment (name : String) : String :=
  String.ofList ((Text.splitOn '/' name.toList).getLastD [])

theorem lastSegment_of_notMem (h : '/' ∉ name.toList) : lastSegment name = name := by
  simp [lastSegment, Text.splitOn_of_notMem h]

theorem exists_components_site (base : Option Path) (a : Artifact) :
    ∃ front, (site base a).components = front ++ Path.added a.fileName.toList := by
  cases base with
  | none => exact Path.exists_components_join _ _
  | some dir =>
    obtain ⟨front, hf⟩ := Path.exists_components_join dir (place a).spelling
    change ∃ front, (dir.join (place a).spelling).components = _
    rw [hf, place]
    cases hq : (Path.mk a.fileName).isAbsolute with
    | true => exact ⟨front, by rw [Path.join_absolute _ hq]⟩
    | false => exact ⟨_, by rw [Path.added_join _ hq, List.append_assoc]⟩

theorem getLast?_added_fileName (k : Kind) (name : String) :
    (Path.added (k.fileName name).toList).getLast? =
      some (.normal (k.fileName (lastSegment name))) := by
  obtain ⟨init, last, h1, h2⟩ :=
    Text.splitOn_append_of_notMem k.notMem_slash_ending name.toList
  have hname : (k.fileName name).toList = name.toList ++ (k.ending ++ ".java").toList := by
    simp [Kind.fileName, Kind.typeName]
  have hlast : last ++ (k.ending ++ ".java").toList = (k.fileName (lastSegment name)).toList := by
    simp [lastSegment, h1, Kind.fileName, Kind.typeName]
  have hlength : 2 < (k.fileName (lastSegment name)).toList.length := by
    have hjava : ".java".length = 5 := by decide
    simp only [Kind.fileName, Kind.typeName, String.toList_append, List.length_append,
      String.length_toList, hjava]
    omega
  rw [hname, Path.added, h2, hlast, List.filterMap_append]
  simp [Path.segmentComponent_of_length hlength]

/-- The last component tells the kind and what the name ends in. -/
theorem getLast?_components_site (base : Option Path) (e : Entity) (c : Context) (k : Kind) :
    (site base (.ofKind e c k)).components.getLast? =
      some (.normal (k.fileName (lastSegment e.name))) := by
  obtain ⟨front, hf⟩ := exists_components_site base (.ofKind e c k)
  have hlast := getLast?_added_fileName k e.name
  rw [hf, List.getLast?_append]
  simp [Artifact.ofKind, hlast]

/-- The artifacts of an entity can be committed together, whatever its name. -/
theorem separate_generateAll (base : Option Path) (e : Entity) (c : Context) :
    Separate base (Artifact.generateAll e c) where
  relative a ha := by
    obtain ⟨k, -, rfl⟩ := List.mem_map.mp ha
    exact k.isAbsolute_relativePath
  distinct := by
    rw [Artifact.generateAll, List.map_map]
    refine List.Nodup.map_on ?_ (by decide)
    intro k _ l _ h
    have hlast := congrArg List.getLast? h
    simp only [Function.comp_apply, getLast?_components_site, Option.some.injEq,
      Component.normal.injEq] at hlast
    exact Kind.fileName_inj hlast

end Transaction

-- ---------------------------------------------------------------------------
-- Shared files
-- ---------------------------------------------------------------------------

/-- The files that the artifacts of an entity go to. -/
def Artifact.targets (e : Entity) (c : Context) (dir : Path) : List Path :=
  (generateAll e c).map (Transaction.target dir)

/-- One name is the other with `Search` at its end. -/
def SearchNames (m n : String) : Prop :=
  m = n ++ "Search" ∨ n = m ++ "Search"

namespace Artifact

variable {e f : Entity} {c d : Context} {dir p : Path}

theorem mem_targets : p ∈ targets e c dir ↔ ∃ k, Transaction.target dir (ofKind e c k) = p := by
  have hall : ∀ k : Kind, k ∈ Kind.all := fun k => by cases k <;> decide
  simp [targets, generateAll, hall]

theorem mem_targets_of_search (c d : Context) (dir : Path) (h : e.name = f.name ++ "Search") :
    ∃ p, p ∈ targets e c dir ∧ p ∈ targets f d dir := by
  have hending : Kind.searchRequest.ending = "Search" ++ Kind.request.ending := by decide
  have hfile : Kind.request.fileName e.name = Kind.searchRequest.fileName f.name := by
    simp only [Kind.fileName, Kind.typeName, h, hending, String.append_assoc]
  refine ⟨_, mem_targets.mpr ⟨.request, rfl⟩, mem_targets.mpr ⟨.searchRequest, ?_⟩⟩
  simp only [Transaction.target, Transaction.place, ofKind, hfile]
  rfl

/-- Entities with different names, neither with a slash in it, share a file in one case only. -/
theorem targets_meet (he : '/' ∉ e.name.toList) (hf : '/' ∉ f.name.toList)
    (hne : e.name ≠ f.name) (c d : Context) (dir : Path) :
    (∃ p ∈ targets e c dir, ∃ q ∈ targets f d dir, p.components = q.components) ↔
      SearchNames e.name f.name := by
  constructor
  · rintro ⟨p, hp, q, hq, h⟩
    obtain ⟨k, rfl⟩ := mem_targets.mp hp
    obtain ⟨l, rfl⟩ := mem_targets.mp hq
    have hlast : some (Component.normal (k.fileName (Transaction.lastSegment e.name))) =
        some (.normal (l.fileName (Transaction.lastSegment f.name))) := by
      rw [← Transaction.getLast?_components_site (some dir) e c,
        ← Transaction.getLast?_components_site (some dir) f d]
      exact congrArg List.getLast? h
    rw [Transaction.lastSegment_of_notMem he, Transaction.lastSegment_of_notMem hf] at hlast
    simp only [Option.some.injEq, Component.normal.injEq, Kind.fileName_eq] at hlast
    rcases Kind.typeName_eq hlast with ⟨-, hn⟩ | ⟨-, -, hn⟩ | ⟨-, -, hn⟩
    · exact absurd hn hne
    · exact .inl hn
    · exact .inr hn
  · rintro (h | h)
    · obtain ⟨p, hp, hq⟩ := mem_targets_of_search c d dir h
      exact ⟨p, hp, p, hq, rfl⟩
    · obtain ⟨p, hp, hq⟩ := mem_targets_of_search d c dir h
      exact ⟨p, hq, p, hp, rfl⟩

end Artifact

end Scaffold
