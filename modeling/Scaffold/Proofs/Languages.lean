import Scaffold.Artifact
import Scaffold.Proofs.Java.PlainClasses
import Scaffold.Proofs.Kotlin.PlainClasses

/-!
# The two source languages

A plain class is the same entity in whichever language and form it is written,
up to the language itself, which no artifact depends on.
-/

namespace Scaffold

/-- No artifact depends on the language of the source. -/
theorem Artifact.generateAll_language (e : Entity) (c : Context) (language : Language) :
    generateAll { e with language } c = generateAll e c :=
  rfl

namespace Source.PlainClass

/-- A class in Java, its properties in a constructor of Kotlin and its properties in a body of
Kotlin are resolved to one name in one package with the same fields; all artifacts are the same. -/
theorem languages_agree (c : PlainClass) (k indent : Nat) (java constructor body : Path)
    (strict : Bool) :
    SourceFile.resolve ⟨java, .java, c.javaText k⟩ strict = .ok (c.entity k .java) ∧
      SourceFile.resolve ⟨constructor, .kotlin, c.constructorText k⟩ strict =
        .ok (c.entity k .kotlin) ∧
      SourceFile.resolve ⟨body, .kotlin, c.bodyText k indent⟩ strict = .ok (c.entity k .kotlin) ∧
      ∀ context, Artifact.generateAll (c.entity k .java) context =
        Artifact.generateAll (c.entity k .kotlin) context :=
  ⟨c.resolve_javaText java k strict, c.resolve_constructorText constructor k strict,
    c.resolve_bodyText body k indent strict,
    fun context => Artifact.generateAll_language (c.entity k .kotlin) context .java⟩

/-- A class with a field whose type has nested arguments. -/
def order : PlainClass where
  package := ⟨"app", by decide⟩
  subpackages := [⟨"domain", by decide⟩]
  name := ⟨"Order", by decide⟩
  fields :=
    [(⟨"id", by decide⟩, .apply ⟨"Long", by decide⟩ []),
     (⟨"lines", by decide⟩, .apply ⟨"Map", by decide⟩
       [.apply ⟨"String", by decide⟩ [],
        .apply ⟨"List", by decide⟩ [.apply ⟨"Item", by decide⟩ []]])]

def orderEntity (language : Language) : Entity :=
  ⟨"Order", "app.domain.Order", [⟨"id", "Long"⟩, ⟨"lines", "Map<String, List<Item>>"⟩], language⟩

theorem languages_agree_on_order :
    SourceFile.resolve ⟨⟨"Order.java"⟩, .java, "package app.domain; class Order \x7b" ++
        " private Long id; private Map<String, List<Item>> lines; \x7d"⟩ true =
      .ok (orderEntity .java) ∧
    SourceFile.resolve ⟨⟨"Order.kt"⟩, .kotlin, "package app.domain\nclass Order(" ++
        "val id: Long, val lines: Map<String, List<Item>>)"⟩ true = .ok (orderEntity .kotlin) ∧
    SourceFile.resolve ⟨⟨"Order.kt"⟩, .kotlin, "package app.domain\nclass Order \x7b" ++
        "\n  val id: Long\n  val lines: Map<String, List<Item>>\n\x7d"⟩ true =
      .ok (orderEntity .kotlin) ∧
    ∀ context, Artifact.generateAll (orderEntity .java) context =
      Artifact.generateAll (orderEntity .kotlin) context :=
  languages_agree order 1 2 ⟨"Order.java"⟩ ⟨"Order.kt"⟩ ⟨"Order.kt"⟩ true

end Source.PlainClass

end Scaffold
