import Scaffold.Context
import Scaffold.Entity
import Scaffold.Text.Case

/-!
What each artifact says. Every artifact is one top-level type: a package line, imports,
annotations, an opening line, members and a closing brace.
-/
namespace Scaffold

/-- The parts of an artifact's text that come after its package line. -/
structure Template where
  imports : List String
  annotations : List String
  opening : String
  members : List String
  deriving DecidableEq, Repr

namespace Template

def line (text : String) : String := text ++ "\n"

def lines (texts : List String) : String :=
  String.join (texts.map line)

def importLine (type : String) : String :=
  "import " ++ type ++ ";"

def render (t : Template) (package : String) : String :=
  line ("package " ++ package ++ ";") ++ line "" ++ lines (t.imports.map importLine) ++ line "" ++
    lines t.annotations ++ line t.opening ++ lines t.members ++ line "\x7d"

def fieldLine (f : Field) : String :=
  "    private " ++ f.typeText ++ " " ++ f.name ++ ";"

/-- One private member for each field, below an annotation line if there is one. -/
def fieldLines (markers : List String) (fields : List Field) : List String :=
  fields.flatMap fun f => markers.map ("    " ++ ·) ++ [fieldLine f]

/-- A class that holds data and has one member for each field. -/
def dataClass (imports markers : List String) (typeName : String) (fields : List Field) :
    Template where
  imports := imports ++ ["lombok.Data"]
  annotations := ["@Data"]
  opening := "public class " ++ typeName ++ " \x7b"
  members := fieldLines markers fields

def dto (e : Entity) : Template :=
  dataClass [] [] (Kind.dto.typeName e.name) e.fields

def request (e : Entity) : Template :=
  dataClass ["jakarta.validation.constraints.NotNull"] ["@NotNull"] (Kind.request.typeName e.name)
    e.fields

def searchRequest (e : Entity) : Template :=
  dataClass [] [] (Kind.searchRequest.typeName e.name) e.fields

def repository (e : Entity) : Template :=
  let entity := e.name
  let repository := Kind.repository.typeName e.name
  { imports :=
      [e.qualifiedName, "org.springframework.data.jpa.repository.JpaRepository",
       "org.springframework.data.jpa.repository.JpaSpecificationExecutor",
       "org.springframework.stereotype.Repository"]
    annotations := ["@Repository"]
    opening := "public interface " ++ repository ++ " extends JpaRepository<" ++ entity ++
      ", Long>, JpaSpecificationExecutor<" ++ entity ++ "> \x7b"
    members := [] }

def mapper (e : Entity) (c : Context) : Template :=
  let entity := e.name
  let mapper := Kind.mapper.typeName e.name
  let request := Kind.request.typeName e.name
  let dto := Kind.dto.typeName e.name
  { imports :=
      [e.qualifiedName, c.qualifiedType .request e.name, c.qualifiedType .dto e.name,
       "org.mapstruct.Mapper", "org.mapstruct.MappingTarget", "org.mapstruct.factory.Mappers"]
    annotations := ["@Mapper(componentModel = \"spring\")"]
    opening := "public interface " ++ mapper ++ " \x7b"
    members :=
    ["",
     "    " ++ mapper ++ " INSTANCE = Mappers.getMapper(" ++ mapper ++ ".class);",
     "",
     "    " ++ entity ++ " toEntity(" ++ request ++ " request);",
     "",
     "    void updateEntity(" ++ request ++ " request, @MappingTarget " ++ entity ++ " entity);",
     "",
     "    " ++ dto ++ " toDto(" ++ entity ++ " entity);"] }

def service (e : Entity) (c : Context) : Template :=
  let entity := e.name
  let repository := Kind.repository.typeName e.name
  let mapper := Kind.mapper.typeName e.name
  let request := Kind.request.typeName e.name
  let searchRequest := Kind.searchRequest.typeName e.name
  let dto := Kind.dto.typeName e.name
  let service := Kind.service.typeName e.name
  let repositoryField := Text.lowerFirst repository
  let mapperField := Text.lowerFirst mapper
  { imports :=
      [c.qualifiedType .repository e.name, c.qualifiedType .mapper e.name,
       c.qualifiedType .request e.name, c.qualifiedType .searchRequest e.name,
       c.qualifiedType .dto e.name, e.qualifiedName, "lombok.RequiredArgsConstructor",
       "org.springframework.data.domain.Page", "org.springframework.stereotype.Service",
       "jakarta.persistence.EntityNotFoundException"]
    annotations := ["@Service", "@RequiredArgsConstructor"]
    opening := "public class " ++ service ++ " \x7b"
    members :=
    ["",
     "    private final " ++ repository ++ " " ++ repositoryField ++ ";",
     "    private final " ++ mapper ++ " " ++ mapperField ++ ";",
     "",
     "    public " ++ dto ++ " create(" ++ request ++ " request) \x7b",
     "        " ++ entity ++ " entity = " ++ mapperField ++ ".toEntity(request);",
     "        " ++ entity ++ " savedEntity = " ++ repositoryField ++ ".save(entity);",
     "        return " ++ mapperField ++ ".toDto(savedEntity);",
     "    \x7d",
     "",
     "    public " ++ dto ++ " update(Long id, " ++ request ++ " request) \x7b",
     "        " ++ entity ++ " entity = " ++ repositoryField ++ ".findById(id)",
     "            .orElseThrow(() -> new EntityNotFoundException(\"" ++ entity ++
       " not found with id: \" + id));",
     "        " ++ mapperField ++ ".updateEntity(request, entity);",
     "        " ++ entity ++ " updatedEntity = " ++ repositoryField ++ ".save(entity);",
     "        return " ++ mapperField ++ ".toDto(updatedEntity);",
     "    \x7d",
     "",
     "    public void delete(Long id) \x7b",
     "        " ++ repositoryField ++ ".deleteById(id);",
     "    \x7d",
     "",
     "    public " ++ dto ++ " get(Long id) \x7b",
     "        return " ++ repositoryField ++ ".findById(id)",
     "            .map(" ++ mapperField ++ "::toDto)",
     "            .orElseThrow(() -> new EntityNotFoundException(\"" ++ entity ++
       " not found with id: \" + id));",
     "    \x7d",
     "",
     "    public Page<" ++ dto ++ "> search(" ++ searchRequest ++ " searchRequest) \x7b",
     "        // Build a Specification<" ++ entity ++ "> from searchRequest and return",
     "        // " ++ repositoryField ++ ".findAll(spec, pageable).map(" ++ mapperField ++
       "::toDto).",
     "        throw new UnsupportedOperationException(\"Search not implemented yet\");",
     "    \x7d"] }

/-- The route under which the controller answers. -/
def endpoint (className : String) : String :=
  "/api/" ++ Text.lowerFirst className

def controller (e : Entity) (c : Context) : Template :=
  let request := Kind.request.typeName e.name
  let searchRequest := Kind.searchRequest.typeName e.name
  let dto := Kind.dto.typeName e.name
  let service := Kind.service.typeName e.name
  let controller := Kind.controller.typeName e.name
  let serviceField := Text.lowerFirst service
  { imports :=
      [c.qualifiedType .service e.name, c.qualifiedType .request e.name,
       c.qualifiedType .searchRequest e.name, c.qualifiedType .dto e.name,
       "lombok.RequiredArgsConstructor", "org.springframework.data.domain.Page",
       "org.springframework.http.ResponseEntity", "org.springframework.web.bind.annotation.*",
       "jakarta.validation.Valid"]
    annotations :=
      ["@RestController", "@RequestMapping(\"" ++ endpoint e.name ++ "\")",
       "@RequiredArgsConstructor"]
    opening := "public class " ++ controller ++ " \x7b"
    members :=
    ["",
     "    private final " ++ service ++ " " ++ serviceField ++ ";",
     "",
     "    @PostMapping",
     "    public ResponseEntity<" ++ dto ++ "> create(@Valid @RequestBody " ++ request ++
       " request) \x7b",
     "        return ResponseEntity.ok(this." ++ serviceField ++ ".create(request));",
     "    \x7d",
     "",
     "    @PutMapping(\"/\x7bid\x7d\")",
     "    public ResponseEntity<" ++ dto ++
       "> update(@PathVariable Long id, @Valid @RequestBody " ++ request ++ " request) \x7b",
     "        return ResponseEntity.ok(this." ++ serviceField ++ ".update(id, request));",
     "    \x7d",
     "",
     "    @DeleteMapping(\"/\x7bid\x7d\")",
     "    public ResponseEntity<Void> delete(@PathVariable Long id) \x7b",
     "        this." ++ serviceField ++ ".delete(id);",
     "        return ResponseEntity.ok().build();",
     "    \x7d",
     "",
     "    @GetMapping(\"/\x7bid\x7d\")",
     "    public ResponseEntity<" ++ dto ++ "> get(@PathVariable Long id) \x7b",
     "        return ResponseEntity.ok(this." ++ serviceField ++ ".get(id));",
     "    \x7d",
     "",
     "    @PostMapping(\"/search\")",
     "    public ResponseEntity<Page<" ++ dto ++ ">> search(@RequestBody " ++ searchRequest ++
       " searchRequest) \x7b",
     "        return ResponseEntity.ok(this." ++ serviceField ++ ".search(searchRequest));",
     "    \x7d"] }

def ofKind (e : Entity) (c : Context) : Kind → Template
  | .repository => repository e
  | .dto => dto e
  | .request => request e
  | .searchRequest => searchRequest e
  | .mapper => mapper e c
  | .service => service e c
  | .controller => controller e c

end Template

end Scaffold
