import Scaffold.Proofs.DiskWrites
import Scaffold.Proofs.Identifiers

/-!
# Where the artifacts of a resolved class go

Nothing checks the name of a class, so its shape decides. Without a slash in
it, an artifact goes straight into the directory of its kind, and only a name
between backticks has slashes. The type names are identifiers of Java unless
the name stands between backticks or holds one of the few characters that the
reader lets into a name and the language does not.
-/

namespace Scaffold

open Source

theorem SourceFile.named_of_resolve {s : SourceFile} {strict : Bool} {e : Entity}
    (h : s.resolve strict = .ok e) : Named s.language e.name := by
  unfold resolve at h
  split at h
  · cases h
  · next d hd =>
    simp only at h
    split at h <;> cases h
    exact named_declaration hd

namespace Transaction

variable {base : Option Path} {name : String} {e : Entity} {c : Context}

-- ---------------------------------------------------------------------------
-- Directories of kinds
-- ---------------------------------------------------------------------------

/-- The directory that the artifacts of a kind belong to. -/
def directory (base : Option Path) (k : Kind) : Path :=
  base.elim ⟨k.relativePath⟩ (·.join k.relativePath)

theorem directory_ne_empty (base : Option Path) (k : Kind) :
    (directory base k).spelling ≠ "" := by
  have hrelative : k.relativePath ≠ "" := by cases k <;> decide
  cases base with
  | none => exact hrelative
  | some dir =>
    change (dir.join k.relativePath).spelling ≠ ""
    by_cases hdir : dir.spelling = ""
    · rwa [Path.join_of_empty hdir]
    · exact Path.join_ne_empty hdir k.isAbsolute_relativePath

/-- What the file name adds is all that stands behind the directory. -/
theorem components_site_added (k : Kind) (h : (Path.mk (k.fileName e.name)).isAbsolute = false) :
    (site base (.ofKind e c k)).components =
      (directory base k).components ++ Path.added (k.fileName e.name).toList := by
  rw [← Path.components_join (directory_ne_empty base k) h]
  cases base with
  | none => rfl
  | some dir => exact Path.components_join_join dir k.isAbsolute_relativePath _

-- ---------------------------------------------------------------------------
-- Names between backticks
-- ---------------------------------------------------------------------------

theorem toList_fileName (k : Kind) (name : String) :
    (k.fileName name).toList = name.toList ++ (k.ending ++ ".java").toList := by
  simp [Kind.fileName, Kind.typeName]

theorem isAbsolute_fileName_quoted (k : Kind) (hq : Kotlin.IsQuoted name) :
    (Path.mk (k.fileName name)).isAbsolute = false := by
  obtain ⟨cs, hname, -⟩ := hq
  simp [Path.isAbsolute, toList_fileName, hname]

/-- The first component holds one backtick, the last one the other. -/
theorem length_added_quoted (hq : Kotlin.IsQuoted name) (h : '/' ∈ name.toList)
    (ending : List Char) : 2 ≤ (Path.added (name.toList ++ ending)).length := by
  obtain ⟨cs, hname, -⟩ := hq
  have hmem : '/' ∈ cs := by simpa [hname] using h
  obtain ⟨front, back, rfl⟩ := List.append_of_mem hmem
  have hcut : name.toList ++ ending =
      '\x60' :: front ++ '/' :: (back ++ '\x60' :: ending) := by simp [hname]
  rw [hcut]
  exact Path.two_le_length_added (c := '\x60') (by simp) (by simp) (by decide) (by decide)

-- ---------------------------------------------------------------------------
-- Names of declarations
-- ---------------------------------------------------------------------------

theorem isAbsolute_fileName {language : Language} (k : Kind) (h : Named language name) :
    (Path.mk (k.fileName name)).isAbsolute = false := by
  by_cases hs : '/' ∈ name.toList
  · exact isAbsolute_fileName_quoted k (h.quoted_of_mem_slash hs)
  · exact (k.isName_fileName hs).isAbsolute

/-- One component stands behind the directory of the kind, or a slash of the name cuts it. -/
theorem site_below_directory {language : Language} (k : Kind) (h : Named language e.name) :
    (∃ last, (site base (.ofKind e c k)).components =
      (directory base k).components ++ [.normal last]) ↔ '/' ∉ e.name.toList := by
  rw [components_site_added k (isAbsolute_fileName k h)]
  constructor
  · rintro ⟨last, hlast⟩ hs
    have hlength := length_added_quoted (h.quoted_of_mem_slash hs) hs (k.ending ++ ".java").toList
    rw [← toList_fileName, List.append_cancel_left hlast] at hlength
    simp at hlength
  · intro hs
    exact ⟨k.fileName e.name, by rw [(k.isName_fileName hs).added]⟩

end Transaction

-- ---------------------------------------------------------------------------
-- Resolved classes
-- ---------------------------------------------------------------------------

namespace Artifact

variable {σ : Type} [ProjectTree σ]

/-- The artifacts of a resolved class bear identifiers, and each goes straight into the directory
of its kind, but for names that the reader takes from between backticks or that are exceptional. -/
theorem resolved_placements {s : SourceFile} {strict : Bool} {e : Entity}
    (h : s.resolve strict = .ok e) (tree : σ) (base : Option Path) (policy : CollisionPolicy)
    (c : Context) (k : Kind) :
    (Java.isLegal (k.typeName e.name) = true ↔
        ¬Kotlin.IsQuoted e.name ∧ ¬Java.IsExceptional e.name) ∧
      ((∃ last, (Transaction.planWrite tree base policy (ofKind e c k)).path.components =
        (Transaction.directory base k).components ++ [.normal last]) ↔ '/' ∉ e.name.toList) ∧
      ('/' ∈ e.name.toList → Kotlin.IsQuoted e.name) ∧
      (Kotlin.IsQuoted e.name → s.language = .kotlin) ∧
      (Java.IsExceptional e.name → ¬Kotlin.IsQuoted e.name → s.language = .java) := by
  have hnamed := SourceFile.named_of_resolve h
  rw [Transaction.planWrite_path]
  exact ⟨hnamed.isLegal_typeName_iff k, Transaction.site_below_directory k hnamed,
    hnamed.quoted_of_mem_slash, hnamed.language_of_quoted, hnamed.language_of_exceptional⟩

theorem resolved_placements_of_order :
    let s : SourceFile := ⟨⟨"Order.kt"⟩, .kotlin, "class Order(val id: Long)"⟩
    let e : Entity := ⟨"Order", "Order", [⟨"id", "Long"⟩], .kotlin⟩
    let path := (Transaction.planWrite ({} : MemoryTree) (some ⟨"app"⟩) .error
      (ofKind e ⟨"app", some ⟨"app"⟩⟩ .dto)).path
    s.resolve true = .ok e ∧ path = ⟨"app/service/model/OrderDto.java"⟩ ∧
      (Java.isLegal (Kind.dto.typeName e.name) = true ↔
        ¬Kotlin.IsQuoted e.name ∧ ¬Java.IsExceptional e.name) ∧
      ((∃ last, path.components =
        (Transaction.directory (some ⟨"app"⟩) .dto).components ++ [.normal last]) ↔
          '/' ∉ e.name.toList) := by
  intro s e path
  have h : s.resolve true = .ok e := by decide +kernel
  obtain ⟨hlegal, hplace, -⟩ :=
    resolved_placements h ({} : MemoryTree) (some ⟨"app"⟩) .error ⟨"app", some ⟨"app"⟩⟩ .dto
  exact ⟨h, by decide +kernel, hlegal, hplace⟩

/-- A name between backticks is no identifier, and it can lead out of the directory; the middle
dot is a letter to the reader, but not in the language. -/
theorem resolved_names_escape :
    let s : SourceFile := ⟨⟨"T.kt"⟩, .kotlin, "class `a/../../b`"⟩
    let e : Entity := ⟨"`a/../../b`", "`a/../../b`", [], .kotlin⟩
    let path := (Transaction.planWrite ({} : MemoryTree) (some ⟨"app"⟩) .error
      (ofKind e ⟨"app", some ⟨"app"⟩⟩ .dto)).path
    let dotted : SourceFile := ⟨⟨"T.java"⟩, .java, "class a\u00B7b \x7b\x7d"⟩
    s.resolve true = .ok e ∧ Java.isLegal (Kind.dto.typeName e.name) = false ∧
      path = ⟨"app/service/model/`a/../../b`Dto.java"⟩ ∧
      (¬∃ last, path.components =
        (Transaction.directory (some ⟨"app"⟩) .dto).components ++ [.normal last]) ∧
      dotted.resolve true = .ok ⟨"a\u00B7b", "a\u00B7b", [], .java⟩ ∧
      Java.isLegal (Kind.dto.typeName "a\u00B7b") = false := by
  intro s e path dotted
  have hpath : path = ⟨"app/service/model/`a/../../b`Dto.java"⟩ := by decide +kernel
  have hcomponents : path.components.length = 7 := by decide +kernel
  have hdirectory : (Transaction.directory (some ⟨"app"⟩) .dto).components.length = 3 := by
    decide +kernel
  refine ⟨by decide +kernel, by decide +kernel, hpath, ?_, by decide +kernel, by decide +kernel⟩
  rintro ⟨last, hlast⟩
  rw [hlast, List.length_append, hdirectory] at hcomponents
  simp at hcomponents

end Artifact

end Scaffold
