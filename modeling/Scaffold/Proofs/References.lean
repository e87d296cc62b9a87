import Mathlib.Data.List.Infix
import Scaffold.Artifact

/-!
# What artifacts refer to

The text of a template is fixed but for the places where it writes the name of
the entity, a type or a member named after it, or the route. So it tells which
other artifacts it refers to, whatever the entity. Each of them is imported
from the package that it declares, under the name of its file, and the entity
is imported where it is written. The fields of the entity bring types of their
own, which stand as they are quoted and are not imported.
-/

namespace Scaffold

-- ---------------------------------------------------------------------------
-- Sketches
-- ---------------------------------------------------------------------------

/-- A piece of the text of a template: fixed, or made from the name of the entity. -/
inductive Fragment
  | text (fixed : String)
  | entity
  | type (k : Kind)
  | member (k : Kind)
  | route
  deriving DecidableEq

namespace Fragment

instance : Coe String Fragment := ⟨text⟩

def write (name : String) : Fragment → String
  | text fixed => fixed
  | entity => name
  | type k => k.typeName name
  | member k => Text.lowerFirst (k.typeName name)
  | route => Template.endpoint name

/-- One behind the other. -/
def writeAll (name : String) : List Fragment → String
  | [] => ""
  | first :: rest => rest.foldl (fun text f => text ++ f.write name) (first.write name)

end Fragment

/-- The lines of a template behind its imports, without those for the fields of the entity. -/
structure Sketch where
  annotations : List (List Fragment)
  opening : List Fragment
  members : List (List Fragment)

namespace Sketch

open Fragment

def dataClass (k : Kind) : Sketch where
  annotations := [["@Data"]]
  opening := ["public class ", type k, " \x7b"]
  members := []

def repository : Sketch where
  annotations := [["@Repository"]]
  opening := ["public interface ", type .repository, " extends JpaRepository<", entity,
    ", Long>, JpaSpecificationExecutor<", entity, "> \x7b"]
  members := []

def mapper : Sketch where
  annotations := [["@Mapper(componentModel = \"spring\")"]]
  opening := ["public interface ", type .mapper, " \x7b"]
  members :=
    [[""],
     ["    ", type .mapper, " INSTANCE = Mappers.getMapper(", type .mapper, ".class);"],
     [""],
     ["    ", entity, " toEntity(", type .request, " request);"],
     [""],
     ["    void updateEntity(", type .request, " request, @MappingTarget ", entity, " entity);"],
     [""],
     ["    ", type .dto, " toDto(", entity, " entity);"]]

/-- The members of the service that change entities. -/
def serviceChanges : List (List Fragment) :=
  [[""],
   ["    private final ", type .repository, " ", member .repository, ";"],
   ["    private final ", type .mapper, " ", member .mapper, ";"],
   [""],
   ["    public ", type .dto, " create(", type .request, " request) \x7b"],
   ["        ", entity, " entity = ", member .mapper, ".toEntity(request);"],
   ["        ", entity, " savedEntity = ", member .repository, ".save(entity);"],
   ["        return ", member .mapper, ".toDto(savedEntity);"],
   ["    \x7d"],
   [""],
   ["    public ", type .dto, " update(Long id, ", type .request, " request) \x7b"],
   ["        ", entity, " entity = ", member .repository, ".findById(id)"],
   ["            .orElseThrow(() -> new EntityNotFoundException(\"", entity,
     " not found with id: \" + id));"],
   ["        ", member .mapper, ".updateEntity(request, entity);"],
   ["        ", entity, " updatedEntity = ", member .repository, ".save(entity);"],
   ["        return ", member .mapper, ".toDto(updatedEntity);"],
   ["    \x7d"],
   [""],
   ["    public void delete(Long id) \x7b"],
   ["        ", member .repository, ".deleteById(id);"],
   ["    \x7d"],
   [""]]

/-- The members of the service that only read them. -/
def serviceQueries : List (List Fragment) :=
  [["    public ", type .dto, " get(Long id) \x7b"],
   ["        return ", member .repository, ".findById(id)"],
   ["            .map(", member .mapper, "::toDto)"],
   ["            .orElseThrow(() -> new EntityNotFoundException(\"", entity,
     " not found with id: \" + id));"],
   ["    \x7d"],
   [""],
   ["    public Page<", type .dto, "> search(", type .searchRequest, " searchRequest) \x7b"],
   ["        // Build a Specification<", entity, "> from searchRequest and return"],
   ["        // ", member .repository, ".findAll(spec, pageable).map(", member .mapper,
     "::toDto)."],
   ["        throw new UnsupportedOperationException(\"Search not implemented yet\");"],
   ["    \x7d"]]

def service : Sketch where
  annotations := [["@Service"], ["@RequiredArgsConstructor"]]
  opening := ["public class ", type .service, " \x7b"]
  members := serviceChanges ++ serviceQueries

def controller : Sketch where
  annotations :=
    [["@RestController"], ["@RequestMapping(\"", route, "\")"], ["@RequiredArgsConstructor"]]
  opening := ["public class ", type .controller, " \x7b"]
  members :=
    [[""],
     ["    private final ", type .service, " ", member .service, ";"],
     [""],
     ["    @PostMapping"],
     ["    public ResponseEntity<", type .dto, "> create(@Valid @RequestBody ", type .request,
       " request) \x7b"],
     ["        return ResponseEntity.ok(this.", member .service, ".create(request));"],
     ["    \x7d"],
     [""],
     ["    @PutMapping(\"/\x7bid\x7d\")"],
     ["    public ResponseEntity<", type .dto,
       "> update(@PathVariable Long id, @Valid @RequestBody ", type .request, " request) \x7b"],
     ["        return ResponseEntity.ok(this.", member .service, ".update(id, request));"],
     ["    \x7d"],
     [""],
     ["    @DeleteMapping(\"/\x7bid\x7d\")"],
     ["    public ResponseEntity<Void> delete(@PathVariable Long id) \x7b"],
     ["        this.", member .service, ".delete(id);"],
     ["        return ResponseEntity.ok().build();"],
     ["    \x7d"],
     [""],
     ["    @GetMapping(\"/\x7bid\x7d\")"],
     ["    public ResponseEntity<", type .dto, "> get(@PathVariable Long id) \x7b"],
     ["        return ResponseEntity.ok(this.", member .service, ".get(id));"],
     ["    \x7d"],
     [""],
     ["    @PostMapping(\"/search\")"],
     ["    public ResponseEntity<Page<", type .dto, ">> search(@RequestBody ",
       type .searchRequest, " searchRequest) \x7b"],
     ["        return ResponseEntity.ok(this.", member .service, ".search(searchRequest));"],
     ["    \x7d"]]

def fragments (s : Sketch) : List Fragment :=
  s.annotations.flatten ++ s.opening ++ s.members.flatten

/-- The template of an entity's name, with further members behind. -/
def template (s : Sketch) (name : String) (imports members : List String) : Template where
  imports := imports
  annotations := s.annotations.map (writeAll name)
  opening := writeAll name s.opening
  members := s.members.map (writeAll name) ++ members

end Sketch

namespace Kind

def sketch : Kind → Sketch
  | repository => .repository
  | dto => .dataClass .dto
  | request => .dataClass .request
  | searchRequest => .dataClass .searchRequest
  | mapper => .mapper
  | service => .service
  | controller => .controller

/-- The lines that quote the fields of the entity. -/
def fieldLines (fields : List Field) : Kind → List String
  | dto | searchRequest => Template.fieldLines [] fields
  | request => Template.fieldLines ["@NotNull"] fields
  | repository | mapper | service | controller => []

/-- The other kinds whose types the text writes. -/
def references (k : Kind) : List Kind :=
  all.filter fun l => l ≠ k ∧ .type l ∈ k.sketch.fragments

/-- The text writes the name of the entity itself. -/
def WritesEntity (k : Kind) : Prop :=
  .entity ∈ k.sketch.fragments

instance (k : Kind) : Decidable k.WritesEntity :=
  inferInstanceAs (Decidable (_ ∈ _))

theorem references_eq (k : Kind) : k.references =
    match k with
    | repository | dto | request | searchRequest => []
    | mapper => [dto, request]
    | service => [repository, dto, request, searchRequest, mapper]
    | controller => [dto, request, searchRequest, service] := by
  cases k <;> decide

theorem writesEntity_iff {k : Kind} :
    k.WritesEntity ↔ k = repository ∨ k = mapper ∨ k = service := by
  cases k <;> decide

/-- The types that the text has from elsewhere, whatever the entity, behind their packages. -/
def frameworkTypes : Kind → List (String × String)
  | repository =>
    [("org.springframework.data.jpa.repository", "JpaRepository"),
     ("org.springframework.data.jpa.repository", "JpaSpecificationExecutor"),
     ("org.springframework.stereotype", "Repository")]
  | dto | searchRequest => [("lombok", "Data")]
  | request => [("jakarta.validation.constraints", "NotNull"), ("lombok", "Data")]
  | mapper =>
    [("org.mapstruct", "Mapper"), ("org.mapstruct", "MappingTarget"),
     ("org.mapstruct.factory", "Mappers")]
  | service =>
    [("lombok", "RequiredArgsConstructor"), ("org.springframework.data.domain", "Page"),
     ("org.springframework.stereotype", "Service"),
     ("jakarta.persistence", "EntityNotFoundException")]
  | controller =>
    [("lombok", "RequiredArgsConstructor"), ("org.springframework.data.domain", "Page"),
     ("org.springframework.http", "ResponseEntity"),
     ("org.springframework.web.bind.annotation", "*"), ("jakarta.validation", "Valid")]

end Kind

/-- Whatever the entity, its name and its fields are put into one sketch. -/
theorem Template.ofKind_eq_template (e : Entity) (c : Context) (k : Kind) :
    ofKind e c k =
      k.sketch.template e.name (ofKind e c k).imports (k.fieldLines e.fields) := by
  cases k <;> rfl

-- ---------------------------------------------------------------------------
-- Lines
-- ---------------------------------------------------------------------------

/-- Behind its first line the text has this one. -/
def HasLine (text line : String) : Prop :=
  ('\n' :: line.toList ++ ['\n']) <:+: text.toList

instance (text line : String) : Decidable (HasLine text line) :=
  inferInstanceAs (Decidable (_ <:+: _))

namespace Template

variable {t : Template} {package first rest l : String} {ls : List String}

theorem hasLine_lines (first rest : String) (h : l ∈ ls) :
    HasLine (line first ++ lines ls ++ rest) l := by
  induction ls generalizing first with
  | nil => cases h
  | cons m ls ih =>
    rcases List.mem_cons.mp h with rfl | h
    · exact ⟨first.toList, (lines ls ++ rest).toList, by simp [line, lines]⟩
    · have hrest := ih (line first ++ m) h
      simpa [line, lines, HasLine] using hrest

theorem hasLine_import {type : String} (package : String) (h : type ∈ t.imports) :
    HasLine (t.render package) (importLine type) := by
  have hrender : t.render package = line ("package " ++ package ++ ";") ++
      lines ("" :: t.imports.map importLine) ++
        (line "" ++ lines t.annotations ++ line t.opening ++ lines t.members ++ line "\x7d") := by
    simp [render, lines, String.append_assoc]
  rw [hrender]
  exact hasLine_lines _ _ (List.mem_cons_of_mem _ (List.mem_map_of_mem h))

theorem hasLine_opening (t : Template) (package : String) :
    HasLine (t.render package) t.opening := by
  have hrender : t.render package = line ("package " ++ package ++ ";") ++
      lines ("" :: t.imports.map importLine ++ "" :: t.annotations ++ [t.opening]) ++
        (lines t.members ++ line "\x7d") := by
    simp [render, lines, String.append_assoc]
  rw [hrender]
  exact hasLine_lines _ _ (by simp)

theorem render_package (t : Template) (package : String) :
    ("package " ++ package ++ ";\n").toList <+: (t.render package).toList := by
  have hline : line ("package " ++ package ++ ";") = "package " ++ package ++ ";\n" := by
    rw [line, String.append_assoc]
    rfl
  simp only [← hline, render, String.append_assoc]
  rw [String.toList_append]
  exact List.prefix_append _ _

theorem opening_ofKind (e : Entity) (c : Context) (k : Kind) :
    ∃ keyword ∈ ["class", "interface"], ∃ heritage, (ofKind e c k).opening =
      "public " ++ keyword ++ " " ++ k.typeName e.name ++ " " ++ heritage ++ "\x7b" := by
  cases k with
  | repository =>
    refine ⟨"interface", by simp, "extends JpaRepository<" ++ e.name ++
      ", Long>, JpaSpecificationExecutor<" ++ e.name ++ "> ", ?_⟩
    simp [ofKind, repository, ← String.toList_inj]
  | mapper => exact ⟨"interface", by simp, "", by simp [ofKind, mapper, String.append_assoc]⟩
  | dto => exact ⟨"class", by simp, "", by simp [ofKind, dto, dataClass, String.append_assoc]⟩
  | request =>
    exact ⟨"class", by simp, "", by simp [ofKind, request, dataClass, String.append_assoc]⟩
  | searchRequest =>
    exact ⟨"class", by simp, "", by simp [ofKind, searchRequest, dataClass, String.append_assoc]⟩
  | service => exact ⟨"class", by simp, "", by simp [ofKind, service, String.append_assoc]⟩
  | controller => exact ⟨"class", by simp, "", by simp [ofKind, controller, String.append_assoc]⟩

/-- A template imports the entity and the types of the other artifacts that its text writes, and
the types of the frameworks. -/
theorem mem_imports_iff {e : Entity} {c : Context} {k : Kind} {type : String} :
    type ∈ (ofKind e c k).imports ↔
      k.WritesEntity ∧ type = e.qualifiedName ∨
        (∃ l ∈ k.references, type = c.qualifiedType l e.name) ∨
        ∃ f ∈ k.frameworkTypes, type = f.1 ++ "." ++ f.2 := by
  have href := Kind.references_eq k
  have hentity := Kind.writesEntity_iff (k := k)
  cases k <;>
    simp only [href, hentity, ofKind, repository, dto, request, searchRequest, mapper, service,
      controller, dataClass, Kind.frameworkTypes, List.mem_cons, List.mem_append, List.not_mem_nil,
      or_false, false_or, exists_eq_or_imp, exists_eq_left, reduceCtorEq, false_and, true_and,
      or_true, exists_false, String.reduceAppend] <;>
    grind

end Template

namespace Artifact

/-- A line of the text opens the public type of this name. -/
def DeclaresType (text type : String) : Prop :=
  ∃ keyword ∈ ["class", "interface"], ∃ heritage,
    HasLine text ("public " ++ keyword ++ " " ++ type ++ " " ++ heritage ++ "\x7b")

/-- The one artifact imports the type that the other one declares in its package and file. -/
structure Imports (a b : Artifact) (type : String) : Prop where
  packaged : ("package " ++ b.package ++ ";\n").toList <+: b.content.toList
  named : b.fileName = type ++ ".java"
  declared : DeclaresType b.content type
  imported : HasLine a.content ("import " ++ b.package ++ "." ++ type ++ ";")

/-- Whatever the strings of the entity and the context, an artifact is one sketch filled in with the
name and followed by the fields. It imports the type of each artifact that the sketch refers to,
and the entity if the sketch writes it. -/
theorem references_resolve (e : Entity) (c : Context) (k : Kind) :
    (ofKind e c k).content = (k.sketch.template e.name (Template.ofKind e c k).imports
        (k.fieldLines e.fields)).render (ofKind e c k).package ∧
      (∀ l ∈ k.references, ∃ b ∈ generateAll e c, b.kind = l ∧
        Imports (ofKind e c k) b (l.typeName e.name)) ∧
      (k.WritesEntity →
        HasLine (ofKind e c k).content ("import " ++ e.qualifiedName ++ ";")) := by
  refine ⟨?_, fun l hl => ?_, fun hk => ?_⟩
  · rw [← Template.ofKind_eq_template]
    rfl
  · refine ⟨ofKind e c l, List.mem_map_of_mem (by cases l <;> decide), rfl, ?_, rfl, ?_, ?_⟩
    · exact Template.render_package _ _
    · obtain ⟨keyword, hkeyword, heritage, hopening⟩ := Template.opening_ofKind e c l
      exact ⟨keyword, hkeyword, heritage, hopening ▸ Template.hasLine_opening _ _⟩
    · have hname : Template.importLine (c.qualifiedType l e.name) =
          "import " ++ (ofKind e c l).package ++ "." ++ l.typeName e.name ++ ";" := by
        simp [Template.importLine, Context.qualifiedType, ofKind, String.append_assoc]
      rw [← hname]
      exact Template.hasLine_import _ (Template.mem_imports_iff.mpr (.inr (.inl ⟨l, hl, rfl⟩)))
  · exact Template.hasLine_import _ (Template.mem_imports_iff.mpr (.inl ⟨hk, rfl⟩))

theorem references_resolve_of_service :
    let e : Entity := ⟨"Order", "com.app.domain.Order", [], .java⟩
    let c : Context := ⟨"com.app", none⟩
    .dto ∈ Kind.service.references ∧ Kind.service.WritesEntity ∧
      (∃ b ∈ generateAll e c, b.kind = .dto ∧ Imports (ofKind e c .service) b "OrderDto") ∧
      HasLine (ofKind e c .service).content "import com.app.domain.Order;" := by
  intro e c
  have hdto : Kind.dto ∈ Kind.service.references := by decide
  have hentity : Kind.service.WritesEntity := by decide
  obtain ⟨-, himports, hqualified⟩ := references_resolve e c .service
  exact ⟨hdto, hentity, himports .dto hdto, hqualified hentity⟩

/-- A field brings the entity's own type into artifacts that do not import it. -/
theorem fields_are_not_imported :
    let e : Entity := ⟨"Node", "com.app.domain.Node", [⟨"parent", "Node"⟩], .java⟩
    let dto := ofKind e ⟨"com.app", none⟩ .dto
    HasLine dto.content "    private Node parent;" ∧
      ¬HasLine dto.content "import com.app.domain.Node;" := by
  decide +kernel

end Artifact

end Scaffold
