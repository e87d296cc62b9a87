import Scaffold.Proofs.Kotlin.FirstClasses
import Scaffold.Proofs.Lexing

/-!
# Fields of a class of Kotlin

The fields of an accepted source are the variables that its first class declares,
in order, each with its type as it is written. Two slips are told apart: a
destructuring declaration in the body counts as the name that it is initialised
with, and a comment in front of a type takes its place.
-/

namespace Scaffold

namespace Source

open Piece

namespace Kotlin

variable {ps : List Piece} {c : DeclaredClass}

/-- Every destructuring declaration that is initialised with a bare name adds one entry. -/
theorem entries_eq_boundVariables_iff (c : DeclaredClass) :
    c.entries.map Variable.name = c.boundVariables.map Variable.name ↔
      ∀ w, Property.destructured (some w) ∉ c.properties := by
  have hle (xs : List Property) :
      (xs.filterMap Property.variable?).length ≤ (xs.filterMap Property.read?).length := by
    induction xs with
    | nil => exact Nat.le_refl 0
    | cons x xs ih =>
      rcases x with v | ⟨_ | w⟩ <;>
        simp only [List.filterMap_cons, Property.variable?, Property.read?, Option.map_none,
          Option.map_some, List.length_cons] <;> omega
  constructor
  · intro h w hmem
    obtain ⟨front, behind, hxs⟩ := List.append_of_mem hmem
    have hlength := congrArg List.length h
    have := hle front
    have := hle behind
    simp only [DeclaredClass.entries, DeclaredClass.boundVariables, hxs, List.filterMap_append,
      List.filterMap_cons, Property.variable?, Property.read?, Option.map_some, List.length_map,
      List.length_append, List.length_cons] at hlength
    omega
  · intro h
    suffices hsame : c.properties.filterMap Property.read? =
        c.properties.filterMap Property.variable? by
      rw [DeclaredClass.entries, DeclaredClass.boundVariables, hsame]
    generalize c.properties = xs at h
    induction xs with
    | nil => rfl
    | cons x xs ih =>
      have hxs := ih fun w hw => h w (List.mem_cons_of_mem _ hw)
      rcases x with v | ⟨_ | w⟩
      · exact congrArg (v :: ·) hxs
      · exact hxs
      · exact absurd List.mem_cons_self (h w)

/-- A type that is read as it is written: no comment stands in front, and it is not the dynamic
type. -/
def Variable.Plain (v : Variable) : Prop :=
  ∀ type ∈ v.type, comment? type = none ∧ isDynamic type = false

/-- The type of the variable, if it declares one, is spelled as one. -/
def Variable.Spelled (v : Variable) : Prop :=
  ∀ type ∈ v.type, ∃ state, Spells state type

theorem Parameters.spelled {vs : List Variable} (h : Parameters ps vs) : ∀ v ∈ vs, v.Spelled := by
  have hparameter {ps : List Piece} {v? : Option Variable} (h : Parameter ps v?) :
      ∀ v ∈ v?.toList, v.Spelled := by
    cases h with
    | bound _ _ _ _ ht =>
      rintro v hv type hty
      obtain rfl := List.mem_singleton.mp hv
      cases hty
      exact ⟨_, ht⟩
    | plain => simp
  induction h with
  | nil => simp
  | last h => exact hparameter h
  | cons h _ _ ih => exact List.forall_mem_append.mpr ⟨hparameter h, ih⟩

theorem Body.spelled {xs : List Property} (h : Body ps xs) :
    ∀ v ∈ xs.filterMap Property.read?, v.Spelled := by
  have hproperty {ps : List Piece} {x : Property} (h : Declares ps x) :
      ∀ v ∈ x.read?, v.Spelled := by
    cases h with
    | single _ _ _ _ _ ht =>
      rintro v hv type hty
      cases hv
      cases ht with
      | declared _ hs =>
        cases hty
        exact ⟨_, hs⟩
      | inferred => cases hty
    | destructured _ _ _ _ hi =>
      rintro v hv type hty
      obtain ⟨w, -, rfl⟩ := Option.map_eq_some_iff.mp hv
      cases hty
  induction h with
  | nil => simp
  | other _ _ ih => exact ih
  | property _ hx _ ih =>
    intro v hv
    obtain ⟨y, hy, hread⟩ := List.mem_filterMap.mp hv
    rcases List.mem_cons.mp hy with rfl | hy
    · exact hproperty hx v hread
    · exact ih v (List.mem_filterMap.mpr ⟨y, hy, hread⟩)

theorem DeclaresClass.spelled (h : DeclaresClass ps c) : ∀ v ∈ c.entries, v.Spelled := by
  cases h with
  | intro _ _ _ _ _ hparameters _ _ hbody =>
    exact List.forall_mem_append.mpr ⟨hparameters.spelled, hbody.spelled⟩

theorem Variable.Spelled.field_eq {v : Variable} (h : v.Spelled) (hp : v.Plain) :
    v.field.typeText = (v.type.map Piece.spell).getD Field.noType ∧
      (v.field.isUnresolved = true ↔ v.type = none) := by
  cases hv : v.type with
  | none => simp [Variable.field, hv, Field.isUnresolved]
  | some type =>
    obtain ⟨hcomment, hdynamic⟩ := hp type hv
    obtain ⟨state, hs⟩ := h type hv
    have htext : v.field.typeText = Piece.spell type := by
      simp [Variable.field, hv, readText, hcomment, hdynamic]
    simp [htext, Field.isUnresolved, hs.spell_ne]

end Kotlin

end Source

namespace SourceFile

open Source Piece Kotlin

variable {s : SourceFile} {ps : List Piece} {c : DeclaredClass}

/-- The pieces from the first declaration on. -/
def firstPieces? (s : SourceFile) : Option (List Piece) :=
  (Outline.seen s.recogniser false false 0 none s.searched).map Prod.snd

/-- The first class stands where it is told by what stands in front of it. -/
theorem firstPieces_of_class (hs : s.language = .kotlin) (hfirst : FirstClass 0 none s.searched ps)
    (hc : DeclaresClass ps c) : s.firstPieces? = some ps := by
  obtain ⟨rest, hclass⟩ := hc.classDeclaration_eq
  have hseen := hfirst.seen_eq hclass false false
  rw [firstPieces?, recogniser, hs, hseen]
  rfl

theorem declaration_of_class (hs : s.language = .kotlin) (hps : s.firstPieces? = some ps)
    (hc : DeclaresClass ps c) : s.declaration? = some c.declaration := by
  obtain ⟨⟨d, qs⟩, hseen, rfl⟩ := Option.map_eq_some_iff.mp hps
  have hfound : s.declaration? = some d := by
    have hmap := @Outline.map_seen s.recogniser false false 0 none s.searched
    rw [hseen, Outline.scan_fst, List.nil_append] at hmap
    rw [declaration?, outline_eq, Outline.ofPieces, ← hmap]
    rfl
  obtain ⟨members, previous, head, hr, hd⟩ := Outline.sees_seen _ _ _ _ _ _ hseen
  rw [recogniser, hs] at hr
  obtain ⟨rest, hread⟩ := declaration_of_recognise hr hd
  obtain ⟨rest', hclass⟩ := hc.classDeclaration_eq
  rw [hclass] at hread
  cases hread
  exact hfound

theorem resolve_of_typed {d : Declaration} (hd : s.declaration? = some d)
    (ht : d.fields.find? Field.isUnresolved = none) (strict : Bool) :
    ∃ e, s.resolve strict = .ok e := by
  cases strict <;> simp [resolve, hd, ht]

theorem fields_of_resolve {d : Declaration} {strict : Bool} {e : Entity}
    (hd : s.declaration? = some d) (he : s.resolve strict = .ok e) :
    e.name = d.name ∧ e.fields = d.fields := by
  unfold resolve at he
  rw [hd] at he
  dsimp only at he
  split at he
  · cases he
  · cases he
    exact ⟨rfl, rfl⟩

-- ---------------------------------------------------------------------------
-- Names
-- ---------------------------------------------------------------------------

/-- The fields of an accepted source are named as the variables that its first class declares: those
that the constructor binds, then those of the properties standing directly in the body. None is
added exactly when no destructuring declaration is initialised with a bare name. -/
theorem property_names (hs : s.language = .kotlin) (hps : s.firstPieces? = some ps)
    (hc : DeclaresClass ps c) :
    (∃ e, s.resolve false = .ok e) ∧ ∀ strict e, s.resolve strict = .ok e →
      e.name = c.name ∧ e.fields.map Field.name = c.entries.map Variable.name ∧
      (e.fields.map Field.name = c.boundVariables.map Variable.name ↔
        ∀ w, Property.destructured (some w) ∉ c.properties) := by
  have hd := declaration_of_class hs hps hc
  refine ⟨?_, fun strict e he => ?_⟩
  · simp [resolve, hd]
  · obtain ⟨hname, hfields⟩ := fields_of_resolve hd he
    have hnames : e.fields.map Field.name = c.entries.map Variable.name := by
      simp [hfields, DeclaredClass.declaration, Function.comp_def, Variable.field]
    exact ⟨hname, hnames, hnames ▸ entries_eq_boundVariables_iff c⟩

/-- Behind an object that names a class, a class with a marked parameter, a default value, a
supertype, constraints in several lines, a pattern and a function. -/
def orderFile : SourceFile where
  path := ⟨"Order.kt"⟩
  language := .kotlin
  text := "package app

object Keys \x7b val kind = Long::class \x7d

data class Order<T>(@Id val id: Long = next(), note: String) : Base() where T : Any,
    T : Cloneable \x7b
  val tags: List<String>
  val (a, b) = split()
  fun f() \x7b val x = 1 \x7d
\x7d"

def orderId : Variable where
  name := "id"
  type := some [.lexeme (.word " " "Long")]
  default := [.lexeme (.word " " "next"), .group (.sign "" '(') [] (some (.sign "" ')'))]

def orderTags : Variable where
  name := "tags"
  type := some [.lexeme (.word " " "List"), .lexeme (.sign "" '<'), .lexeme (.word "" "String"),
    .lexeme (.sign "" '>')]
  default := []

def orderClass : DeclaredClass := ⟨"Order", [orderId], [.single orderTags, .destructured none]⟩

def orderParameters : List Piece :=
  [.lexeme (.sign "" '@'), .lexeme (.word "" "Id"), .lexeme (.word " " "val"),
    .lexeme (.word " " "id"), .lexeme (.sign "" ':'), .lexeme (.word " " "Long"),
    .lexeme (.sign " " '='), .lexeme (.word " " "next"),
    .group (.sign "" '(') [] (some (.sign "" ')')), .lexeme (.sign "" ','),
    .lexeme (.word " " "note"), .lexeme (.sign "" ':'), .lexeme (.word " " "String")]

/-- The pieces of the body from the pattern on. -/
def orderPattern : List Piece :=
  [.group (.sign " " '(') [.lexeme (.word "" "a"), .lexeme (.sign "" ','), .lexeme (.word " " "b")]
      (some (.sign "" ')')), .lexeme (.sign " " '='), .lexeme (.word " " "split"),
    .group (.sign "" '(') [] (some (.sign "" ')')), .lexeme (.word "\n  " "fun"),
    .lexeme (.word " " "f"), .group (.sign "" '(') [] (some (.sign "" ')')),
    .group (.sign " " '\x7b') [.lexeme (.word " " "val"), .lexeme (.word " " "x"),
      .lexeme (.sign " " '='), .lexeme (.word " " "1")] (some (.sign " " '\x7d'))]

def orderBody : List Piece :=
  [.lexeme (.word "\n  " "val"), .lexeme (.word " " "tags"), .lexeme (.sign "" ':'),
    .lexeme (.word " " "List"), .lexeme (.sign "" '<'), .lexeme (.word "" "String"),
    .lexeme (.sign "" '>'), .lexeme (.word "\n  " "val")] ++ orderPattern

/-- The pieces between the constructor and the body. -/
def orderHeritage : List Piece :=
  [.lexeme (.sign " " ':'), .lexeme (.word " " "Base"),
    .group (.sign "" '(') [] (some (.sign "" ')')), .lexeme (.word " " "where"),
    .lexeme (.word " " "T"), .lexeme (.sign " " ':'), .lexeme (.word " " "Any"),
    .lexeme (.sign "" ','), .lexeme (.word "\n    " "T"), .lexeme (.sign " " ':'),
    .lexeme (.word " " "Cloneable")]

def orderPieces : List Piece :=
  [.lexeme (.word "\n\n" "data"), .lexeme (.word " " "class"), .lexeme (.word " " "Order"),
    .lexeme (.sign "" '<'), .lexeme (.word "" "T"), .lexeme (.sign "" '>'),
    .group (.sign "" '(') orderParameters (some (.sign "" ')'))] ++ orderHeritage ++
  [.group (.sign " " '\x7b') orderBody (some (.sign "\n" '\x7d'))]

/-- The pieces in front of the class. -/
def orderFront : List Piece :=
  [.lexeme (.word "" "package"), .lexeme (.word " " "app"), .lexeme (.word "\n\n" "object"),
    .lexeme (.word " " "Keys"),
    .group (.sign " " '\x7b') [.lexeme (.word " " "val"), .lexeme (.word " " "kind"),
      .lexeme (.sign " " '='), .lexeme (.word " " "Long"), .lexeme (.sign "" ':'),
      .lexeme (.sign "" ':'), .lexeme (.word "" "class")] (some (.sign " " '\x7d'))]

theorem declares_order : DeclaresClass orderPieces orderClass := by
  have hparameters : Parameters orderParameters [orderId] := by
    have hdefault : Defaulted orderId.default (.lexeme (.sign " " '=') :: orderId.default) :=
      .value rfl (by simp [orderId]) (.cons rfl (.cons rfl .nil))
    have hmark : Marks modifierWords .name (orderParameters.take 2) :=
      .annotated .nil (.bare rfl (.name rfl))
    have hlong : Spells .named ((orderParameters.drop 5).take 1) := .name rfl rfl
    have hid : Parameter (orderParameters.take 9) (some orderId) :=
      .bound hmark rfl rfl rfl hlong hdefault
    have hstring : Spells .named (orderParameters.drop 12) := .name rfl rfl
    have hnote : Parameter (orderParameters.drop 10) none :=
      .plain Marks.nil rfl rfl hstring .nil
    exact .cons hid rfl (.last hnote)
  have htags : Declares orderBody.tail (.single orderTags) := by
    have hlist : Spells .named ((orderBody.drop 3).take 1) := .name rfl rfl
    have hstring : Angled isArgument ((orderBody.drop 5).take 1) := .cons rfl .nil
    have hstrings : Spells .named ((orderBody.drop 3).take 4) := .applied hlist rfl hstring rfl
    refine .single TypeParameters.nil Marks.nil Received.nil nofun rfl (.declared rfl hstrings ?_)
    rintro p ⟨⟩
    exact ⟨rfl, fun c _ => isSymbol_word rfl c⟩
  have hpattern : Declares orderPattern (.destructured none) := by
    refine .destructured Marks.nil nofun rfl (by rintro p ⟨⟩; exact ⟨rfl, rfl⟩) (.other ?_)
    rintro e p rest ⟨⟩ - -
    rfl
  have hbody : Body orderBody orderClass.properties := by
    have hpatternless : ∀ p ∈ orderPattern, bindsProperty p = false := by decide
    have hbehind : Body orderPattern [] := by simpa using Body.unbound_append hpatternless .nil
    have hfrom : Body (orderBody.drop 7) [.destructured none] := .property rfl hpattern hbehind
    have htyped : ∀ p ∈ (orderBody.drop 1).take 6, bindsProperty p = false := by decide
    have htail := Body.unbound_append htyped hfrom
    exact .property rfl htags htail
  have hdata : Marks modifierWords .outside (orderPieces.take 1) := .word .nil rfl
  have htypes : TypeParameters ((orderPieces.drop 3).take 3) := .block rfl (.cons rfl .nil) rfl
  have hbase : Spells .named ((orderHeritage.drop 1).take 1) := .name rfl rfl
  have hcalled : Heritage .called (orderHeritage.take 3) := .called (.first rfl hbase) rfl rfl
  have hany : Spells .named ((orderHeritage.drop 6).take 1) := .name rfl rfl
  have hwhere : Heritage (.bound .named) (orderHeritage.take 7) :=
    .constrained hcalled rfl Marks.nil rfl rfl hany
  have hcloneable : Spells .named (orderHeritage.drop 10) := .name rfl rfl
  have hheritage : Heritage (.bound .named) orderHeritage :=
    .constrained hwhere rfl Marks.nil rfl rfl hcloneable
  exact .intro hdata (.single (.inl rfl)) rfl htypes (.bare rfl) hparameters hheritage
    (.braces rfl rfl rfl rfl) hbody

theorem firstPieces_order : orderFile.firstPieces? = some orderPieces := by
  have hsearched : orderFile.searched = orderFront ++ orderPieces := by
    have hlexemes : Kotlin.lexemes orderFile.text.toList =
        lexemesOf (orderFront ++ orderPieces) := by
      decide +kernel
    simp only [searched, pieces, orderFile] at hlexemes ⊢
    rw [hlexemes]
    rfl
  have hmay : MayDeclare (some (.lexeme (.word " " "app"))) (orderFront.drop 2 ++ orderPieces) := by
    rintro p ⟨⟩
    exact ⟨rfl, rfl, rfl⟩
  have hclass : MayDeclare orderFront.getLast? orderPieces := by
    rintro p ⟨⟩
    exact ⟨rfl, rfl, rfl⟩
  have hobject : FirstClass 0 (some (.lexeme (.word " " "app")))
      (orderFront.drop 2 ++ orderPieces) orderPieces :=
    .object hmay rfl (.pending rfl (.pending rfl (.here hclass rfl)))
  have hfirst : FirstClass 0 none orderFile.searched orderPieces :=
    hsearched ▸ .behind (.inr ⟨rfl, rfl⟩) rfl (.behind (.inr ⟨rfl, rfl⟩) rfl hobject)
  exact firstPieces_of_class rfl hfirst declares_order

/-- A pattern, a parameter that is not bound and what a function holds give no field. -/
theorem property_names_order : ∃ e, orderFile.resolve false = .ok e ∧ e.name = "Order" ∧
    e.fields.map Field.name = ["id", "tags"] := by
  obtain ⟨⟨e, he⟩, hall⟩ := property_names rfl firstPieces_order declares_order
  obtain ⟨hname, hnames, -⟩ := hall false e he
  exact ⟨e, he, hname, hnames⟩

/-- A class whose only property is a pattern that is initialised with a bare name. -/
def pairFile : SourceFile where
  path := ⟨"A.kt"⟩
  language := .kotlin
  text := "class A \x7b\n    val (a, b) = pair\n\x7d\n"

def pairBody : List Piece :=
  [.lexeme (.word "\n    " "val"),
    .group (.sign " " '(') [.lexeme (.word "" "a"), .lexeme (.sign "" ','), .lexeme (.word " " "b")]
      (some (.sign "" ')')), .lexeme (.sign " " '='), .lexeme (.word " " "pair")]

def pairPieces : List Piece :=
  [.lexeme (.word "" "class"), .lexeme (.word " " "A"),
    .group (.sign " " '\x7b') pairBody (some (.sign "\n" '\x7d'))]

theorem firstPieces_pair : pairFile.firstPieces? = some pairPieces := by
  have hlexemes : Kotlin.lexemes pairFile.text.toList = lexemesOf pairPieces := by
    decide +kernel
  rw [firstPieces?, searched]
  simp only [pairFile, pieces] at hlexemes ⊢
  rw [hlexemes]
  rfl

theorem declares_pair : DeclaresClass pairPieces ⟨"A", [], [.destructured (some "pair")]⟩ := by
  have hpattern : Declares pairBody.tail (.destructured (some "pair")) := by
    refine .destructured Marks.nil nofun rfl ?_ (.bare rfl rfl rfl)
    rintro p ⟨⟩
    exact ⟨rfl, rfl⟩
  have hunbound : ∀ p ∈ pairBody.tail, bindsProperty p = false := by decide
  have hbehind : Body pairBody.tail [] := by simpa using Body.unbound_append hunbound .nil
  exact .intro Marks.nil (.single (.inl rfl)) rfl TypeParameters.nil Constructor.nil .nil
    Heritage.nil (.braces rfl rfl rfl rfl) (.property rfl hpattern hbehind)

/-- Not every field of an accepted source is a variable that its first class declares. -/
theorem destructured_name_added : ∃ ps c e, pairFile.firstPieces? = some ps ∧ DeclaresClass ps c ∧
    pairFile.resolve false = .ok e ∧
      e.fields.map Field.name ≠ c.boundVariables.map Variable.name := by
  have hd := declaration_of_class rfl firstPieces_pair declares_pair
  refine ⟨_, _, _, firstPieces_pair, declares_pair, by simp only [resolve, hd]; rfl, ?_⟩
  decide

-- ---------------------------------------------------------------------------
-- Types
-- ---------------------------------------------------------------------------

/-- Each field of an accepted source has the type that its variable declares, as it is written, and
is unresolved exactly when none is declared, unless a comment stands in front of the type or it is
the dynamic one. -/
theorem property_types (hs : s.language = .kotlin) (hps : s.firstPieces? = some ps)
    (hc : DeclaresClass ps c) :
    (∃ e, s.resolve false = .ok e) ∧ ∀ strict e, s.resolve strict = .ok e →
      e.fields = c.entries.map Variable.field ∧ ∀ v ∈ c.entries, v.Plain →
        v.field.typeText = (v.type.map Piece.spell).getD Field.noType ∧
          (v.field.isUnresolved = true ↔ v.type = none) := by
  have hd := declaration_of_class hs hps hc
  refine ⟨?_, fun strict e he => ⟨(fields_of_resolve hd he).2, fun v hv hp => ?_⟩⟩
  · simp [resolve, hd]
  · exact (hc.spelled v hv).field_eq hp

/-- A type with arguments is read whole, and a default value is no part of a type. -/
theorem property_types_order : ∃ e, orderFile.resolve true = .ok e ∧
    e.fields = [⟨"id", "Long"⟩, ⟨"tags", "List<String>"⟩] ∧ orderTags.Plain ∧
      orderTags.field.typeText = "List<String>" ∧ orderTags.field.isUnresolved = false := by
  obtain ⟨-, hall⟩ := property_types rfl firstPieces_order declares_order
  have hd := declaration_of_class rfl firstPieces_order declares_order
  obtain ⟨e, he⟩ := resolve_of_typed hd (by decide) true
  obtain ⟨hfields, htypes⟩ := hall true e he
  have hplain : orderTags.Plain := by
    rintro type ⟨⟩
    exact ⟨rfl, rfl⟩
  have hmem : orderTags ∈ orderClass.entries := by
    simp [DeclaredClass.entries, orderClass, Property.read?]
  obtain ⟨htext, hresolved⟩ := htypes orderTags hmem hplain
  refine ⟨e, he, hfields.trans (by decide), hplain, htext.trans (by decide), ?_⟩
  rw [← Bool.not_eq_true, hresolved]
  exact Option.some_ne_none _

/-- A parameter with a comment in front of its type. -/
def commentedFile : SourceFile where
  path := ⟨"A.kt"⟩
  language := .kotlin
  text := "class A(val x: /* c */ Int)"

def commentedType : List Piece :=
  [.lexeme ⟨[.blank [' '], .comment "/* c */".toList, .blank [' ']], .word, "Int"⟩]

def commentedPieces : List Piece :=
  [.lexeme (.word "" "class"), .lexeme (.word " " "A"),
    .group (.sign "" '(') ([.lexeme (.word "" "val"), .lexeme (.word " " "x"),
      .lexeme (.sign "" ':')] ++ commentedType) (some (.sign "" ')'))]

theorem firstPieces_commented : commentedFile.firstPieces? = some commentedPieces := by
  have hlexemes : Kotlin.lexemes commentedFile.text.toList = lexemesOf commentedPieces := by
    decide +kernel
  rw [firstPieces?, searched]
  simp only [commentedFile, pieces] at hlexemes ⊢
  rw [hlexemes]
  rfl

theorem declares_commented :
    DeclaresClass commentedPieces ⟨"A", [⟨"x", some commentedType, []⟩], []⟩ := by
  have htype : Spells .named commentedType := .name rfl rfl
  have hx : Parameter ([.lexeme (.word "" "val"), .lexeme (.word " " "x"),
      .lexeme (.sign "" ':')] ++ commentedType) (some ⟨"x", some commentedType, []⟩) :=
    .bound Marks.nil rfl rfl rfl htype .nil
  have hbodiless : Bodied .named [] [] := .bodiless ⟨rfl, nofun, rfl⟩
  exact .intro Marks.nil (.single (.inl rfl)) rfl TypeParameters.nil (.bare rfl) (.last hx)
    Heritage.nil hbodiless .nil

/-- Not every field of an accepted source has the type that its variable declares. -/
theorem comment_for_type : ∃ ps c e, commentedFile.firstPieces? = some ps ∧ DeclaresClass ps c ∧
    commentedFile.resolve false = .ok e ∧
      e.fields ≠ c.entries.map fun v => ⟨v.name, (v.type.map Piece.spell).getD Field.noType⟩ := by
  have hd := declaration_of_class rfl firstPieces_commented declares_commented
  refine ⟨_, _, _, firstPieces_commented, declares_commented, by simp only [resolve, hd]; rfl, ?_⟩
  decide

end SourceFile

end Scaffold
