import Scaffold.Artifact

/-!
# The three data classes

The transfer object, the request and the search request of an entity are one
text around its fields: a header made from the package and the name of the
type, a block for each field in order, and a closing line. Where fields are
required each block has an annotation on top and the header imports it.
-/

namespace Scaffold

namespace DataClass

/-- The kinds of artifacts that hold data, each with whether its fields are required. -/
def kinds : List (Kind × Bool) :=
  [(.dto, false), (.request, true), (.searchRequest, false)]

def header (required : Bool) (package typeName : String) : String :=
  "package " ++ package ++ ";\n\n" ++
    (if required then "import jakarta.validation.constraints.NotNull;\n" else "") ++
    "import lombok.Data;\n\n@Data\npublic class " ++ typeName ++ " \x7b\n"

def block (required : Bool) (f : Field) : String :=
  (if required then "    @NotNull\n" else "") ++
    "    private " ++ f.typeText ++ " " ++ f.name ++ ";\n"

def blocks (required : Bool) (fields : List Field) : String :=
  String.join (fields.map (block required))

/-- The lines of a data class whose fields are required, each with whether it is there for that
reason only. -/
def requiredLines (package typeName : String) (fields : List Field) : List (Bool × String) :=
  [(false, "package " ++ package ++ ";"), (false, ""),
   (true, "import jakarta.validation.constraints.NotNull;"), (false, "import lombok.Data;"),
   (false, ""), (false, "@Data"), (false, "public class " ++ typeName ++ " \x7b")] ++
    fields.flatMap (fun f =>
      [(true, "    @NotNull"), (false, "    private " ++ f.typeText ++ " " ++ f.name ++ ";")]) ++
    [(false, "\x7d")]

def written (lines : List (Bool × String)) : String :=
  Template.lines (lines.map Prod.snd)

theorem blocks_append (required : Bool) (fields more : List Field) :
    blocks required (fields ++ more) = blocks required fields ++ blocks required more := by
  simp [blocks, String.join_append]

/-- The members of a data class are the blocks of its fields. -/
theorem lines_fieldLines (required : Bool) (fields : List Field) :
    Template.lines (Template.fieldLines (if required then ["@NotNull"] else []) fields) =
      blocks required fields := by
  induction fields with
  | nil => rfl
  | cons f fields ih =>
    have hfield : Template.lines (Template.fieldLines (if required then ["@NotNull"] else []) [f]) =
        block required f := by
      cases required <;> simp [← String.toList_inj, Template.lines, Template.fieldLines,
        Template.line, Template.fieldLine, block]
    have hcons : Template.fieldLines (if required then ["@NotNull"] else []) (f :: fields) =
        Template.fieldLines (if required then ["@NotNull"] else []) [f] ++
          Template.fieldLines (if required then ["@NotNull"] else []) fields := by
      simp [Template.fieldLines]
    rw [hcons, Template.lines, List.map_append, String.join_append, ← Template.lines,
      ← Template.lines, hfield, ih]
    simp [blocks]

theorem render_dataClass (required : Bool) (package typeName : String) (fields : List Field) :
    (Template.dataClass (if required then ["jakarta.validation.constraints.NotNull"] else [])
        (if required then ["@NotNull"] else []) typeName fields).render package =
      header required package typeName ++ blocks required fields ++ "\x7d\n" := by
  rw [Template.render, Template.dataClass, lines_fieldLines]
  cases required <;>
    simp [← String.toList_inj, header, Template.lines, Template.line, Template.importLine]

/-- Each data class is its header, the blocks of the fields and a closing line. -/
theorem content_ofKind {k : Kind} {required : Bool} (hk : (k, required) ∈ kinds) (e : Entity)
    (c : Context) : (Artifact.ofKind e c k).content =
      header required (c.packageOf k) (k.typeName e.name) ++ blocks required e.fields ++ "\x7d\n" := by
  rw [← render_dataClass, Artifact.ofKind]
  simp only [kinds, List.mem_cons, List.not_mem_nil, or_false, Prod.mk.injEq] at hk
  rcases hk with ⟨rfl, rfl⟩ | ⟨rfl, rfl⟩ | ⟨rfl, rfl⟩ <;> rfl

/-- All lines are those of the class whose fields are required, and the others those of the class
whose fields are not. -/
theorem written_requiredLines (required : Bool) (package typeName : String) (fields : List Field) :
    written ((requiredLines package typeName fields).filter fun l => required || !l.1) =
      header required package typeName ++ blocks required fields ++ "\x7d\n" := by
  have hfields : written ((fields.flatMap fun f =>
      [(true, "    @NotNull"), (false, "    private " ++ f.typeText ++ " " ++ f.name ++ ";")]).filter
        fun l => required || !l.1) = blocks required fields := by
    induction fields with
    | nil => cases required <;> rfl
    | cons f fields ih =>
      rw [List.flatMap_cons, List.filter_append, written, List.map_append, Template.lines,
        List.map_append, String.join_append, ← Template.lines, ← Template.lines, ← written,
        ← written, ih]
      cases required <;>
        simp [← String.toList_inj, written, Template.lines, Template.line, blocks, block]
  rw [← hfields, requiredLines]
  cases required <;>
    simp [← String.toList_inj, header, written, Template.lines, Template.line]

/-- The data classes of an entity differ in their headers and in the annotations of their blocks
only. One more field is one more block at its place in each of them, and without the lines that it
has because its fields are required the request is the search request, up to the name of the
type. -/
theorem data_classes_in_step (e : Entity) (c : Context) :
    (∀ k required, (k, required) ∈ kinds →
      (Artifact.ofKind e c k).content = header required (c.packageOf k) (k.typeName e.name) ++
        blocks required e.fields ++ "\x7d\n" ∧
      ∀ before f after,
        (Artifact.ofKind { e with fields := before ++ after } c k).content =
          (header required (c.packageOf k) (k.typeName e.name) ++ blocks required before) ++
            (blocks required after ++ "\x7d\n") ∧
        (Artifact.ofKind { e with fields := before ++ f :: after } c k).content =
          (header required (c.packageOf k) (k.typeName e.name) ++ blocks required before) ++
            block required f ++ (blocks required after ++ "\x7d\n")) ∧
    (Artifact.ofKind e c .request).content =
      written (requiredLines (c.packageOf .request) (Kind.request.typeName e.name) e.fields) ∧
    (Artifact.ofKind e c .searchRequest).content =
      written ((requiredLines (c.packageOf .request) (Kind.searchRequest.typeName e.name)
        e.fields).filter fun l => !l.1) := by
  refine ⟨fun k required hk => ⟨content_ofKind hk e c, fun before f after => ⟨?_, ?_⟩⟩, ?_, ?_⟩
  · rw [content_ofKind hk, blocks_append]
    simp only [String.append_assoc]
  · have hblock : blocks required (f :: after) = block required f ++ blocks required after := by
      simp [blocks]
    rw [content_ofKind hk, blocks_append, hblock]
    simp only [String.append_assoc]
  · rw [content_ofKind (by decide : (Kind.request, true) ∈ kinds), ← written_requiredLines]
    exact congrArg written (List.filter_eq_self.mpr fun _ _ => rfl)
  · rw [content_ofKind (by decide : (Kind.searchRequest, false) ∈ kinds)]
    exact (written_requiredLines false ..).symm

/-- The request of an order requires its number. -/
theorem data_classes_in_step_of_order :
    (Artifact.ofKind ⟨"Order", "shop.Order", [⟨"number", "long"⟩], .java⟩ ⟨"app", none⟩
        .request).content =
      "package app.web.model;\n\nimport jakarta.validation.constraints.NotNull;\n" ++
        "import lombok.Data;\n\n@Data\npublic class OrderRequest \x7b\n" ++
        "    @NotNull\n    private long number;\n\x7d\n" :=
  ((data_classes_in_step ⟨"Order", "shop.Order", [⟨"number", "long"⟩], .java⟩
    ⟨"app", none⟩).1 .request true (by decide)).1.trans (by decide +kernel)

end DataClass

end Scaffold
