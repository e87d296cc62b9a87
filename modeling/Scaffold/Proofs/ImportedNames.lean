import Scaffold.Proofs.Entities
import Scaffold.Proofs.Identifiers
import Scaffold.Proofs.References

/-!
# Names under which types are imported

An artifact imports the entity, the artifacts that it refers to and types of
frameworks. The endings keep the artifacts apart from each other, from the
entity and from the frameworks. So two types are imported under one name only
when the entity is called as a type of a framework beside it, and a type is
imported under the name of the artifact only when that completes the name of
a framework's type.
-/

namespace Scaffold

theorem Text.splitOn_front {sep : Char} {front cs piece : List Char} {pieces : List (List Char)}
    (h : sep ∉ front) (hs : splitOn sep cs = piece :: pieces) :
    splitOn sep (front ++ cs) = (front ++ piece) :: pieces := by
  induction front with
  | nil => exact hs
  | cons c front ih =>
    rw [List.mem_cons, not_or] at h
    exact splitOn_cons_of_ne (Ne.symm h.1) (ih h.2)

-- ---------------------------------------------------------------------------
-- Reading imports
-- ---------------------------------------------------------------------------

/-- The types of the import declarations at the front of some declarations. -/
def importsAmong (declarations : List (List Char)) : List String :=
  let starts := declarations.map (·.dropWhile (· = '\n'))
  (starts.takeWhile ("import ".toList.isPrefixOf ·)).map fun cs => String.ofList (cs.drop 7)

/-- What a text of Java imports, in order. The imports stand behind the package and before all
other declarations, each up to a semicolon. -/
def importsOf (text : String) : List String :=
  importsAmong ((Text.splitOn ';' text.toList).drop 1)

/-- The name of a type behind those of its packages; a star stands for all types of a package. -/
def simpleName (type : String) : String :=
  String.ofList ((Text.splitOn '.' type.toList).getLastD [])

variable {gap more cs : List Char} {types : List String} {declarations : List (List Char)}

theorem importsAmong_import (hgap : ∀ c ∈ gap, c = '\n') (type : String) :
    importsAmong ((gap ++ "import ".toList ++ type.toList) :: declarations) =
      type :: importsAmong declarations := by
  have hdrop : (gap ++ ("import ".toList ++ type.toList)).dropWhile (· = '\n') =
      "import ".toList ++ type.toList :=
    List.dropWhile_append_of_pos (by simpa using hgap)
  simp only [importsAmong, List.map_cons, List.append_assoc, hdrop]
  simp

theorem importsAmong_other (hgap : ∀ c ∈ gap, c = '\n') (cs : List Char) :
    importsAmong ((gap ++ '@' :: cs) :: declarations) = [] := by
  have hdrop : (gap ++ '@' :: cs).dropWhile (· = '\n') = '@' :: cs :=
    List.dropWhile_append_of_pos (by simpa using hgap)
  simp [importsAmong, hdrop]

/-- Import lines are read back, up to the first annotation. -/
theorem importsAmong_lines (hgap : ∀ c ∈ gap, c = '\n') (h : ∀ type ∈ types, ';' ∉ type.toList)
    (more : List Char) :
    importsAmong (Text.splitOn ';' (gap ++
      (Template.lines (types.map Template.importLine)).toList ++ '\n' :: '@' :: more)) = types := by
  have hfront : ';' ∉ gap := fun hmem => absurd (hgap _ hmem) (by decide)
  induction types generalizing gap with
  | nil =>
    obtain ⟨piece, pieces, hs⟩ := Text.splitOn_eq_cons ';' more
    have hat : ';' ∉ gap ++ ['\n', '@'] := by simp [hfront]
    have htext : gap ++ (Template.lines ([].map Template.importLine)).toList ++
        '\n' :: '@' :: more = (gap ++ ['\n', '@']) ++ more := by simp [Template.lines]
    have hother : importsAmong ((gap ++ ['\n'] ++ '@' :: piece) :: pieces) = [] :=
      importsAmong_other (List.forall_mem_append.mpr ⟨hgap, by simp⟩) piece
    rw [htext, Text.splitOn_front hat hs]
    simpa using hother
  | cons type types ih =>
    rw [List.forall_mem_cons] at h
    have htext : gap ++ (Template.lines ((type :: types).map Template.importLine)).toList ++
        '\n' :: '@' :: more = (gap ++ "import ".toList ++ type.toList) ++ ';' ::
          (['\n'] ++ (Template.lines (types.map Template.importLine)).toList ++
            '\n' :: '@' :: more) := by
      simp [Template.lines, Template.line, Template.importLine]
    have hline : ';' ∉ gap ++ "import ".toList ++ type.toList := by simp [hfront, h.1]
    rw [htext, Text.splitOn_append, Text.splitOn_of_notMem hline, List.singleton_append,
      importsAmong_import hgap, ih (by simp) h.2 (by decide)]

namespace Template

theorem annotations_ofKind (e : Entity) (c : Context) (k : Kind) :
    ∃ first rest, (ofKind e c k).annotations = ("@" ++ first) :: rest := by
  cases k with
  | repository => exact ⟨"Repository", [], rfl⟩
  | dto => exact ⟨"Data", [], rfl⟩
  | request => exact ⟨"Data", [], rfl⟩
  | searchRequest => exact ⟨"Data", [], rfl⟩
  | mapper => exact ⟨"Mapper(componentModel = \"spring\")", [], rfl⟩
  | service => exact ⟨"Service", _, rfl⟩
  | controller => exact ⟨"RestController", _, rfl⟩

/-- The imports of a template are those of its text. -/
theorem importsOf_render {t : Template} {package first : String} {rest : List String}
    (ht : t.annotations = ("@" ++ first) :: rest) (hp : ';' ∉ package.toList)
    (h : ∀ type ∈ t.imports, ';' ∉ type.toList) : importsOf (t.render package) = t.imports := by
  have htext : (t.render package).toList = ("package ".toList ++ package.toList) ++ ';' ::
      (['\n', '\n'] ++ (lines (t.imports.map importLine)).toList ++ '\n' :: '@' ::
        (line first ++ lines rest ++ line t.opening ++ lines t.members ++ line "\x7d").toList) := by
    simp [render, ht, lines, line]
  have hfront : ';' ∉ "package ".toList ++ package.toList := by simp [hp]
  rw [importsOf, htext, Text.splitOn_append, Text.splitOn_of_notMem hfront, List.singleton_append,
    List.drop_succ_cons, List.drop_zero, importsAmong_lines (by simp) h]

end Template

-- ---------------------------------------------------------------------------
-- Simple names
-- ---------------------------------------------------------------------------

theorem simpleName_of_notMem {name : String} (h : '.' ∉ name.toList) : simpleName name = name := by
  simp [simpleName, Text.splitOn_of_notMem h]

theorem simpleName_qualified {name : String} (h : '.' ∉ name.toList) (package : String) :
    simpleName (package ++ "." ++ name) = name := by
  have htext : (package ++ "." ++ name).toList = package.toList ++ '.' :: name.toList := by simp
  rw [simpleName, htext, Text.splitOn_append, Text.splitOn_of_notMem h]
  simp

theorem simpleName_qualify {name : String} (h : '.' ∉ name.toList) (package : String) :
    simpleName (Entity.qualify package name) = name := by
  unfold Entity.qualify
  split
  · exact simpleName_of_notMem h
  · exact simpleName_qualified h package

namespace Kind

variable {k l : Kind} {f g : String × String} {name : String}

theorem typeName_ne (k : Kind) (name : String) : k.typeName name ≠ name := by
  intro h
  have hlength := congrArg (fun s : String => s.toList.length) h
  simp only [typeName, String.toList_append, List.length_append] at hlength
  have hending : 0 < k.ending.toList.length := by cases k <;> decide
  omega

theorem simpleName_frameworkType (hf : f ∈ k.frameworkTypes) :
    simpleName (f.1 ++ "." ++ f.2) = f.2 := by
  have hall : ∀ f ∈ k.frameworkTypes, '.' ∉ f.2.toList := by cases k <;> decide +kernel
  exact simpleName_qualified (hall f hf) f.1

/-- Types of frameworks beside each other have different names. -/
theorem frameworkType_inj (hf : f ∈ k.frameworkTypes) (hg : g ∈ k.frameworkTypes)
    (h : f.2 = g.2) : f = g := by
  refine List.inj_on_of_nodup_map ?_ hf hg h
  cases k <;> decide

/-- No type of a framework beside an artifact that is referred to ends as that one does. -/
theorem not_suffix_frameworkType (hl : l ∈ k.references) (hf : f ∈ k.frameworkTypes) :
    ¬l.ending.toList <:+ f.2.toList := by
  have hall : ∀ l ∈ k.references, ∀ f ∈ k.frameworkTypes, ¬l.ending.toList <:+ f.2.toList := by
    rw [references_eq]
    cases k <;> decide +kernel
  exact hall l hl f hf

theorem suffix_frameworkType (hf : f ∈ k.frameworkTypes) (h : k.ending.toList <:+ f.2.toList) :
    f.2 = k.ending ∨ k = .repository ∧ f.2 = "JpaRepository" := by
  have hall : ∀ f ∈ k.frameworkTypes, k.ending.toList <:+ f.2.toList →
      f.2 = k.ending ∨ k = .repository ∧ f.2 = "JpaRepository" := by
    cases k <;> decide +kernel
  exact hall f hf h

end Kind

theorem Source.Java.notMem_of_isLegal {t : String} {c : Char} (h : isLegal t = true)
    (hc : continuesLegally c = false) : c ∉ t.toList := by
  intro hmem
  unfold isLegal at h
  split at h
  · cases h
  · next d cs ht =>
    simp only [Bool.and_eq_true, List.all_eq_true] at h
    have hstart : startsLegally c = false := by
      simp only [continuesLegally, Bool.or_eq_false_iff] at hc
      exact hc.1.1.1
    rw [ht] at hmem
    rcases List.mem_cons.mp hmem with rfl | hmem
    · simp [hstart] at h
    · simp [h.1.2 c hmem] at hc

-- ---------------------------------------------------------------------------
-- Clashes
-- ---------------------------------------------------------------------------

/-- Two types are imported under one name. A star names no type. -/
def Clashes (imports : List String) : Prop :=
  ∃ t ∈ imports, ∃ u ∈ imports, t ≠ u ∧ simpleName t ≠ "*" ∧ simpleName t = simpleName u

instance (imports : List String) : Decidable (Clashes imports) :=
  inferInstanceAs (Decidable (∃ t ∈ imports, ∃ u ∈ imports,
    t ≠ u ∧ simpleName t ≠ "*" ∧ simpleName t = simpleName u))

/-- A type is imported under this name. -/
def Binds (imports : List String) (name : String) : Prop :=
  ∃ t ∈ imports, simpleName t = name

instance (imports : List String) (name : String) : Decidable (Binds imports name) :=
  inferInstanceAs (Decidable (∃ t ∈ imports, simpleName t = name))

namespace Template

variable {e : Entity} {c : Context} {k : Kind} {t u : String}

theorem simpleName_qualifiedType (h : '.' ∉ e.name.toList) (c : Context) (k : Kind) :
    simpleName (c.qualifiedType k e.name) = k.typeName e.name := by
  refine simpleName_qualified ?_ _
  have hending : '.' ∉ k.ending.toList := by cases k <;> decide
  simp [Kind.typeName, h, hending]

/-- Different types with one name are the entity and a type of a framework. -/
theorem entity_of_clash (hdot : '.' ∉ e.name.toList) (hq : simpleName e.qualifiedName = e.name)
    (ht : t ∈ (ofKind e c k).imports) (hu : u ∈ (ofKind e c k).imports) (hne : t ≠ u)
    (h : simpleName t = simpleName u) :
    k.WritesEntity ∧ ∃ f ∈ k.frameworkTypes, f.2 = e.name ∧
      (t = e.qualifiedName ∧ u = f.1 ++ "." ++ f.2 ∨
        u = e.qualifiedName ∧ t = f.1 ++ "." ++ f.2) := by
  have htype (l : Kind) := simpleName_qualifiedType hdot c l
  rcases mem_imports_iff.mp ht with ⟨hk, rfl⟩ | ⟨l, hl, rfl⟩ | ⟨f, hf, rfl⟩ <;>
    rcases mem_imports_iff.mp hu with ⟨hk', rfl⟩ | ⟨m, hm, rfl⟩ | ⟨g, hg, rfl⟩
  · exact absurd rfl hne
  · rw [hq, htype] at h
    exact absurd h.symm (m.typeName_ne e.name)
  · rw [hq, Kind.simpleName_frameworkType hg] at h
    exact ⟨hk, g, hg, h.symm, .inl ⟨rfl, rfl⟩⟩
  · rw [hq, htype] at h
    exact absurd h (l.typeName_ne e.name)
  · rw [htype, htype] at h
    exact absurd (congrArg (c.qualifiedType · e.name) (Kind.typeName_inj h)) hne
  · rw [htype, Kind.simpleName_frameworkType hg] at h
    exact absurd (h ▸ l.ending_suffix_typeName e.name) (Kind.not_suffix_frameworkType hl hg)
  · rw [hq, Kind.simpleName_frameworkType hf] at h
    exact ⟨hk', f, hf, h, .inr ⟨rfl, rfl⟩⟩
  · rw [htype, Kind.simpleName_frameworkType hf] at h
    exact absurd (h ▸ m.ending_suffix_typeName e.name) (Kind.not_suffix_frameworkType hm hf)
  · rw [Kind.simpleName_frameworkType hf, Kind.simpleName_frameworkType hg] at h
    obtain rfl := Kind.frameworkType_inj hf hg h
    exact absurd rfl hne

theorem clashes_iff (hdot : '.' ∉ e.name.toList) (hstar : e.name ≠ "*")
    (hq : simpleName e.qualifiedName = e.name) :
    Clashes (ofKind e c k).imports ↔ k.WritesEntity ∧
      ∃ f ∈ k.frameworkTypes, f.2 = e.name ∧ f.1 ++ "." ++ f.2 ≠ e.qualifiedName := by
  constructor
  · rintro ⟨t, ht, u, hu, hne, -, h⟩
    obtain ⟨hk, f, hf, hname, ⟨rfl, rfl⟩ | ⟨rfl, rfl⟩⟩ := entity_of_clash hdot hq ht hu hne h
    · exact ⟨hk, f, hf, hname, hne.symm⟩
    · exact ⟨hk, f, hf, hname, hne⟩
  · rintro ⟨hk, f, hf, hname, hne⟩
    refine ⟨_, mem_imports_iff.mpr (.inl ⟨hk, rfl⟩), _,
      mem_imports_iff.mpr (.inr (.inr ⟨f, hf, rfl⟩)), hne.symm, hq ▸ hstar, ?_⟩
    rw [hq, Kind.simpleName_frameworkType hf, hname]

/-- The type that the artifact declares is imported from a framework or not at all. -/
theorem names_typeName_iff (hdot : '.' ∉ e.name.toList) (hne : e.name ≠ "")
    (hq : simpleName e.qualifiedName = e.name) :
    Binds (ofKind e c k).imports (k.typeName e.name) ↔ k = .repository ∧ e.name = "Jpa" := by
  constructor
  · rintro ⟨t, ht, h⟩
    rcases mem_imports_iff.mp ht with ⟨-, rfl⟩ | ⟨l, hl, rfl⟩ | ⟨f, hf, rfl⟩
    · exact absurd (h.symm.trans hq) (k.typeName_ne e.name)
    · rw [simpleName_qualifiedType hdot] at h
      have hself : l ≠ k := (of_decide_eq_true (List.mem_filter.mp hl).2).1
      exact absurd (Kind.typeName_inj h) hself
    · rw [Kind.simpleName_frameworkType hf] at h
      have hsuffix := Kind.suffix_frameworkType hf (h ▸ k.ending_suffix_typeName e.name)
      rw [Kind.typeName, ← String.toList_inj, String.toList_append] at h
      rcases hsuffix with hname | ⟨rfl, hname⟩
      · rw [hname] at h
        exact absurd (by simpa using h) hne
      · have hcut : "JpaRepository".toList = "Jpa".toList ++ Kind.repository.ending.toList := by
          decide
        rw [hname, hcut] at h
        exact ⟨rfl, String.toList_inj.mp (List.append_cancel_right h).symm⟩
  · rintro ⟨rfl, hname⟩
    have hf : ("org.springframework.data.jpa.repository", "JpaRepository") ∈
        Kind.repository.frameworkTypes := List.mem_cons_self
    refine ⟨_, mem_imports_iff.mpr (.inr (.inr ⟨_, hf, rfl⟩)), ?_⟩
    rw [Kind.simpleName_frameworkType hf, hname]
    rfl

end Template

namespace Artifact

open Source (Java.isLegal Java.notMem_of_isLegal)

section

variable {e : Entity} {c : Context} {package : String} {k l : Kind}

theorem importsOf_ofKind (hname : Java.isLegal e.name = true)
    (hq : e.qualifiedName = Entity.qualify package e.name) (hp : ';' ∉ package.toList)
    (hb : ';' ∉ c.basePackage.toList) (k : Kind) :
    importsOf (ofKind e c k).content = (Template.ofKind e c k).imports := by
  obtain ⟨first, rest, ht⟩ := Template.annotations_ofKind e c k
  have hsemicolon : ';' ∉ e.name.toList := Java.notMem_of_isLegal hname (by decide +kernel)
  have hpackage (l : Kind) : ';' ∉ (c.packageOf l).toList := by
    have hsub : ';' ∉ l.subpackage.toList := by cases l <;> decide
    simp [Context.packageOf, hb, hsub]
  refine Template.importsOf_render ht (hpackage k) fun type htype => ?_
  rcases Template.mem_imports_iff.mp htype with ⟨-, rfl⟩ | ⟨l, -, rfl⟩ | ⟨f, hf, rfl⟩
  · rw [hq, Entity.qualify]
    split <;> simp [hsemicolon, hp]
  · have hending : ';' ∉ l.ending.toList := by cases l <;> decide
    simp [Context.qualifiedType, hpackage l, Kind.typeName, hsemicolon, hending]
  · have hall : ∀ f ∈ k.frameworkTypes, ';' ∉ f.1.toList ∧ ';' ∉ f.2.toList := by
      cases k <;> decide +kernel
    simp [hall f hf]

/-- For a class with a legal name, two types are imported under one name exactly where the class is
imported beside another type that is called as it is, and a type is imported under the name of the
artifact exactly in the repository of a class that completes the name of the framework's one. -/
theorem clashing_imports_iff (hname : Java.isLegal e.name = true)
    (hq : e.qualifiedName = Entity.qualify package e.name) (hp : ';' ∉ package.toList)
    (hb : ';' ∉ c.basePackage.toList) (k : Kind) :
    (Clashes (importsOf (ofKind e c k).content) ↔
      k.WritesEntity ∧
        ∃ f ∈ k.frameworkTypes, f.2 = e.name ∧ f.1 ++ "." ++ f.2 ≠ e.qualifiedName) ∧
    (Binds (importsOf (ofKind e c k).content) (k.typeName e.name) ↔
      k = .repository ∧ e.name = "Jpa") := by
  have hdot : '.' ∉ e.name.toList := Java.notMem_of_isLegal hname (by decide +kernel)
  have hstar : e.name ≠ "*" := by
    rintro h
    rw [h] at hname
    exact absurd hname (by decide +kernel)
  have hne : e.name ≠ "" := by
    rintro h
    rw [h] at hname
    cases hname
  have hsimple : simpleName e.qualifiedName = e.name := hq ▸ simpleName_qualify hdot package
  rw [importsOf_ofKind hname hq hp hb]
  exact ⟨Template.clashes_iff hdot hstar hsimple, Template.names_typeName_iff hdot hne hsimple⟩

end

/-- A class called `Order` is imported as the only one, in every artifact. -/
theorem clashing_imports_of_order :
    let e : Entity := ⟨"Order", "com.app.domain.Order", [], .java⟩
    let c : Context := ⟨"com.app", none⟩
    Java.isLegal e.name = true ∧ e.qualifiedName = Entity.qualify "com.app.domain" e.name ∧
      ∀ k, ¬Clashes (importsOf (ofKind e c k).content) ∧
        ¬Binds (importsOf (ofKind e c k).content) (k.typeName e.name) := by
  intro e c
  have hname : Java.isLegal e.name = true := by decide +kernel
  have hq : e.qualifiedName = Entity.qualify "com.app.domain" e.name := by decide +kernel
  refine ⟨hname, hq, fun k => ?_⟩
  obtain ⟨hclashes, hnames⟩ := clashing_imports_iff (c := c) hname hq (by decide) (by decide) k
  refine ⟨fun h => ?_, fun h => absurd (hnames.mp h).2 (by decide)⟩
  obtain ⟨-, f, hf, hsimple, -⟩ := hclashes.mp h
  have hnone : ∀ f ∈ k.frameworkTypes, f.2 ≠ "Order" := by cases k <;> decide
  exact hnone f hf hsimple

/-- Two pages in one service, and a repository that extends its own name. -/
theorem imports_clash_for_page_and_jpa :
    let c : Context := ⟨"com.app", none⟩
    let page : Entity := ⟨"Page", "com.app.domain.Page", [], .java⟩
    let jpa : Entity := ⟨"Jpa", "com.app.domain.Jpa", [], .java⟩
    let pages := importsOf (ofKind page c .service).content
    let types := importsOf (ofKind jpa c .repository).content
    Java.isLegal page.name = true ∧ page.qualifiedName = Entity.qualify "com.app.domain" page.name ∧
      "com.app.domain.Page" ∈ pages ∧ "org.springframework.data.domain.Page" ∈ pages ∧
      Clashes pages ∧
    Java.isLegal jpa.name = true ∧ jpa.qualifiedName = Entity.qualify "com.app.domain" jpa.name ∧
      "org.springframework.data.jpa.repository.JpaRepository" ∈ types ∧
      (ofKind jpa c .repository).fileName = "JpaRepository.java" ∧
      Binds types "JpaRepository" := by
  intro c page jpa pages types
  have hpage : Java.isLegal page.name = true := by decide +kernel
  have hpageq : page.qualifiedName = Entity.qualify "com.app.domain" page.name := by decide +kernel
  have hjpa : Java.isLegal jpa.name = true := by decide +kernel
  have hjpaq : jpa.qualifiedName = Entity.qualify "com.app.domain" jpa.name := by decide +kernel
  have hpages : pages = (Template.ofKind page c .service).imports :=
    importsOf_ofKind hpage hpageq (by decide) (by decide) .service
  have htypes : types = (Template.ofKind jpa c .repository).imports :=
    importsOf_ofKind hjpa hjpaq (by decide) (by decide) .repository
  have hentity : page.qualifiedName ∈ pages := by
    rw [hpages]
    exact Template.mem_imports_iff.mpr (.inl ⟨by decide, rfl⟩)
  have hother : "org.springframework.data.domain" ++ "." ++ "Page" ∈ pages := by
    rw [hpages]
    exact Template.mem_imports_iff.mpr (.inr (.inr ⟨(_, _), by decide, rfl⟩))
  have htype : "org.springframework.data.jpa.repository" ++ "." ++ "JpaRepository" ∈ types := by
    rw [htypes]
    exact Template.mem_imports_iff.mpr (.inr (.inr ⟨(_, _), by decide, rfl⟩))
  have hsimple : simpleName page.qualifiedName = "Page" :=
    hpageq ▸ simpleName_qualify (by decide) "com.app.domain"
  have hclash : Clashes pages :=
    ⟨_, hentity, _, hother, by decide, hsimple ▸ by decide,
      hsimple.trans (simpleName_qualified (by decide) _).symm⟩
  exact ⟨hpage, hpageq, hentity, hother, hclash, hjpa, hjpaq, htype, by decide +kernel,
    _, htype, simpleName_qualified (by decide) _⟩

end Artifact

end Scaffold
