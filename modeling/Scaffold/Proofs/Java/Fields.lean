import Scaffold.Proofs.Java.Resolved
import Scaffold.Proofs.Java.Scans
import Scaffold.Proofs.Recognition

/-!
# The fields of an accepted source

The fields of a class are the entries of the field and constant declarations
standing directly in its body, whatever else stands there. A record has in
front of them the components of a fixed arity.
-/

namespace Scaffold

namespace Source.Java

open Piece Source.Tree Rule

variable {ts us : Trees} {g : List Trivia}

-- ---------------------------------------------------------------------------
-- Gaps
-- ---------------------------------------------------------------------------

theorem spelled_regaps (g : List Trivia) (ts : Trees) : spelled (regaps g ts) = spelled ts := by
  rw [spelled, piecesOf_regaps, spell_regapFirst, spelled]

theorem children_regaps {β : Type} (f : Trees → β) (hf : ∀ vs, f (regaps g vs) = f vs) (n : Node)
    (ts : Trees) : (children n (regaps g ts)).map f = (children n ts).map f := by
  have htree (t : Tree Node) : (children n [t.regap g]).map f = (children n [t]).map f := by
    cases t with
    | leaf | group => rfl
    | node m vs =>
      rw [Tree.regap]
      by_cases h : m = n
      · subst h
        simp [hf]
      · simp [children_other h]
  induction ts with
  | nil => rfl
  | cons t ts ih =>
    have hcons (u : Tree Node) (vs : Trees) : children n (u :: vs) = children n [u] ++ children n vs :=
      children_append n [u] vs
    rw [regaps]
    split
    · rw [hcons, List.map_append, ih, ← List.map_append, ← hcons]
    · rw [hcons, List.map_append, htree, ← List.map_append, ← hcons]

theorem child_regaps {β : Type} (f : Trees → β) (hf : ∀ vs, f (regaps g vs) = f vs) (n : Node)
    (ts : Trees) : f (child n (regaps g ts)) = f (child n ts) := by
  have hhead (xs : List Trees) : f (xs.head?.getD []) = (xs.map f).head?.getD (f []) := by
    cases xs <;> rfl
  rw [child, child, hhead, children_regaps f hf, ← hhead]

/-- The text of trees that are one lexeme. -/
def soleText : Trees → String
  | [.leaf l] => l.text
  | _ => ""

theorem soleText_regaps (g : List Trivia) (ts : Trees) : soleText (regaps g ts) = soleText ts := by
  rcases ts with _ | ⟨t, _ | ⟨u, vs⟩⟩
  · rfl
  · cases t with
    | leaf => rfl
    | group o vs e => rfl
    | node n vs =>
      rw [regaps]
      split <;> rfl
  · have hseveral (t u : Source.Tree Node) (vs : Trees) : soleText (t :: u :: vs) = "" := by
      cases t <;> rfl
    have hlength : (regaps g (t :: u :: vs)).length = vs.length + 2 := by simp
    rcases h : regaps g (t :: u :: vs) with _ | ⟨_, _ | ⟨_, _⟩⟩
    · simp [h] at hlength
    · simp [h] at hlength
    · rw [hseveral, hseveral]

theorem nameOf_regaps (g : List Trivia) (ts : Trees) : nameOf (regaps g ts) = nameOf ts :=
  child_regaps soleText (soleText_regaps g) _ ts

theorem entry_regaps (g : List Trivia) (type declarator : Trees) :
    entry type (regaps g declarator) = entry type declarator := by
  rw [entry, entry, nameOf_regaps, child_regaps spelled (spelled_regaps g)]

theorem entries_regap (g : List Trivia) (t : Tree Node) : entries (t.regap g) = entries t := by
  cases t with
  | leaf | group => rfl
  | node n us =>
    have htype : entry (child .unannotatedType (regaps g us)) = entry (child .unannotatedType us) := by
      funext declarator
      rw [entry, entry, child_regaps spelled (spelled_regaps g)]
    have hdeclarators : (children .variableDeclarator (regaps g us)).map
        (entry (child .unannotatedType (regaps g us))) =
          (children .variableDeclarator us).map (entry (child .unannotatedType us)) := by
      rw [htype]
      exact children_regaps _ (entry_regaps g _) _ us
    rw [Tree.regap]
    cases n
    case fieldDeclaration => exact hdeclarators
    case constantDeclaration => exact hdeclarators
    all_goals rfl

/-- Only field and constant declarations have entries. -/
theorem entries_none {t : Tree Node}
    (h : ∀ n us, t = .node n us → n ≠ .fieldDeclaration ∧ n ≠ .constantDeclaration) :
    entries t = [] := by
  cases t with
  | leaf | group => rfl
  | node n us =>
    obtain ⟨hfield, hconstant⟩ := h n us rfl
    rw [entries]
    · exact fun _ he => by cases he; exact hfield rfl
    · exact fun _ he => by cases he; exact hconstant rfl

/-- What members declare does not depend on the gap in front of them. -/
theorem entries_regaps (g : List Trivia) (ts : Trees) :
    (regaps g ts).flatMap entries = ts.flatMap entries := by
  induction ts with
  | nil => rfl
  | cons t ts ih =>
    rw [regaps]
    split
    · rw [List.flatMap_cons, List.flatMap_cons, ih]
    · rw [List.flatMap_cons, List.flatMap_cons, entries_regap]

-- ---------------------------------------------------------------------------
-- Components
-- ---------------------------------------------------------------------------

/-- A component of a fixed or of variable arity, with its declared type. -/
def component? : Tree Node → Option Field
  | .node .formalParameter us => some ⟨nameOf us, spelled (child .unannotatedType us)⟩
  | .node .spreadParameter us =>
    some ⟨nameOf (child .variableDeclarator us), spelled (child .unannotatedType us)⟩
  | _ => none

/-- All components of a record. -/
def allComponents (ts : Trees) : List Field :=
  (between (child .formalParameters ts)).filterMap component?

theorem length_components (ts : Trees) : (ts.filterMap component?).length =
    (children .formalParameter ts).length + (children .spreadParameter ts).length := by
  induction ts with
  | nil => rfl
  | cons t ts ih =>
    cases t with
    | leaf | group => exact ih
    | node n us =>
      by_cases hf : n = .formalParameter
      · subst hf
        simp [component?, children_other, ih]
        omega
      by_cases hs : n = .spreadParameter
      · subst hs
        simp [component?, children_other, ih]
        omega
      · have hnone : component? (.node n us) = none := by cases n <;> simp_all [component?]
        simp [hnone, children_other hf, children_other hs, ih]

theorem components_fixed {ts : Trees} (h : children .spreadParameter ts = []) :
    ts.filterMap component? = (children .formalParameter ts).map fun us =>
      ⟨nameOf us, spelled (child .unannotatedType us)⟩ := by
  induction ts with
  | nil => rfl
  | cons t ts ih =>
    cases t with
    | leaf | group => exact ih h
    | node n us =>
      by_cases hs : n = .spreadParameter
      · subst hs
        simp at h
      rw [children_other hs] at h
      by_cases hf : n = .formalParameter
      · subst hf
        simp [component?, ih h]
      · have hnone : component? (.node n us) = none := by cases n <;> simp_all [component?]
        simp [hnone, children_other hf, ih h]

/-- The components of a fixed arity are all exactly when none is of variable arity. -/
theorem components_eq_all (ts : Trees) :
    components ts = allComponents ts ↔
      children .spreadParameter (between (child .formalParameters ts)) = [] := by
  rw [components, allComponents]
  constructor
  · intro h
    have hlength := congrArg List.length h
    rw [length_components, List.length_map] at hlength
    exact List.eq_nil_of_length_eq_zero (by omega)
  · exact fun h => (components_fixed h).symm

end Source.Java

namespace SourceFile

open Source Source.Java Source.Tree

theorem pieces_accepted {s : SourceFile} {ts : Trees} (hs : s.language = .java)
    (h : Accepts s.text ts) : s.pieces = piecesOf ts := by
  rw [pieces, hs, ← h.lexemes]
  exact h.parses.ofLexemes grammar_unbracketed

theorem declaration_accepted {s : SourceFile} {ts : Trees} (hs : s.language = .java)
    (h : Accepts s.text ts) : s.declaration? = (firstOf ts).map Declared.declaration := by
  rw [declaration?, outline, hs, pieces_accepted hs h, firstDeclaration_outline]
  exact firstIn_program h.parses

/-- An accepted source is resolved to what its first declaration says. -/
theorem resolve_accepted {s : SourceFile} {ts : Trees} {d : Declared} (hs : s.language = .java)
    (hts : Accepts s.text ts) (hd : firstOf ts = some d) (strict : Bool) :
    ∃ e, s.resolve strict = .ok e ∧ e.name = nameOf d.trees ∧
      e.fields = fieldsIn d.kind d.trees := by
  have hfound := declaration_accepted hs hts
  rw [hd, Option.map_some] at hfound
  exact ⟨_, resolve_java hs hfound strict, rfl, rfl⟩

/-- An accepted source whose first declaration is no record has the fields that the members of the
declaration declare. Where another accepted source has more members in its first declaration, the
fields that these declare stand among the same others; constants of an enumeration are no
members. -/
theorem member_fields {s : SourceFile} {ts : Trees} {d : Declared} (hs : s.language = .java)
    (hts : Accepts s.text ts) (hd : firstOf ts = some d) (hk : d.kind ≠ .recordDeclaration)
    (strict : Bool) :
    ∃ e, s.resolve strict = .ok e ∧ e.name = nameOf d.trees ∧
      e.fields = (membersIn d.kind d.trees).flatMap entries ∧
      ∀ (s' : SourceFile) (before inserted after : Trees) (g : List Trivia) {ts' : Trees}
        {d' : Declared}, s'.language = .java → Accepts s'.text ts' → firstOf ts' = some d' →
        d'.kind = d.kind → membersIn d.kind d.trees = before ++ after →
        membersIn d'.kind d'.trees = before ++ inserted ++ regaps g after →
        ∃ e', s'.resolve strict = .ok e' ∧
          e.fields = before.flatMap entries ++ after.flatMap entries ∧
          e'.fields = before.flatMap entries ++ inserted.flatMap entries ++
            after.flatMap entries ∧
          ((∀ n us, .node n us ∈ inserted → n ≠ .fieldDeclaration ∧ n ≠ .constantDeclaration) →
            e'.fields = e.fields) := by
  obtain ⟨e, he, hname, hf⟩ := resolve_accepted hs hts hd strict
  have hf : e.fields = (membersIn d.kind d.trees).flatMap entries := by simp [hf, fieldsIn, hk]
  refine ⟨e, he, hname, hf, ?_⟩
  intro s' before inserted after g ts' d' hs' hts' hd' hk' hm hm'
  obtain ⟨e', he', -, hf'⟩ := resolve_accepted hs' hts' hd' strict
  have hf' : e'.fields = (membersIn d'.kind d'.trees).flatMap entries := by
    simp [hf', fieldsIn, hk', hk]
  have hbefore : e.fields = before.flatMap entries ++ after.flatMap entries := by simp [hf, hm]
  have hafter : e'.fields = before.flatMap entries ++ inserted.flatMap entries ++
      after.flatMap entries := by simp [hf', hm', entries_regaps]
  refine ⟨e', he', hbefore, hafter, fun hnone => ?_⟩
  have hinserted : inserted.flatMap entries = [] :=
    List.flatMap_eq_nil_iff.mpr fun t ht => entries_none fun n us he => hnone n us (he ▸ ht)
  rw [hafter, hinserted, List.append_nil, hbefore]

/-- A class with the members. -/
def pointClass (members : Trees) : Trees :=
  [.node .statement [.node .classDeclaration
    [.leaf (.word "" "class"), .node .identifier [.leaf (.word " " "Point")],
     .node .classBody [.group (.sign " " '\x7b') members (.sign "" '\x7d')]]]]

/-- A field with one declarator of dimensions of its own. -/
def pointField : Source.Tree Node :=
  .node .fieldDeclaration
    [.node .unannotatedType [.node .simpleType [.leaf (.word "" "int")]],
     .node .variableDeclarator [.node .identifier [.leaf (.word " " "x")]],
     .leaf (.sign "" ','),
     .node .variableDeclarator
      [.node .identifier [.leaf (.word " " "y")],
       .node .dimensions [.group (.sign "" '[') [] (.sign "" ']')]],
     .leaf (.sign "" ';')]

theorem accepts_pointClass : Accepts "class Point \x7bint x, y[];\x7d" (pointClass [pointField]) where
  parses := .of_check 40 (by decide)
  lexemes := by decide

theorem accepts_pointClass_semicolon :
    Accepts "class Point \x7b;int x, y[];\x7d"
      (pointClass [.leaf (.sign "" ';'), pointField]) where
  parses := .of_check 40 (by decide)
  lexemes := by decide

/-- Both declarators of a class are its fields, also behind a stray semicolon. -/
theorem member_fields_of_point :
    ∃ e e', SourceFile.resolve ⟨⟨"Point.java"⟩, .java, "class Point \x7bint x, y[];\x7d"⟩ true = .ok e ∧
      SourceFile.resolve ⟨⟨"Point.java"⟩, .java, "class Point \x7b;int x, y[];\x7d"⟩ true = .ok e' ∧
      e.fields = [⟨"x", "int"⟩, ⟨"y", "int[]"⟩] ∧ e'.fields = e.fields := by
  obtain ⟨e, he, -, hf, hinserted⟩ := member_fields (s := ⟨⟨"Point.java"⟩, .java, _⟩) rfl
    accepts_pointClass rfl (by decide) true
  obtain ⟨e', he', -, -, hsame⟩ := hinserted
    ⟨⟨"Point.java"⟩, .java, "class Point \x7b;int x, y[];\x7d"⟩ [] [.leaf (.sign "" ';')]
    [pointField] [] rfl accepts_pointClass_semicolon rfl rfl rfl rfl
  have hstray : ∀ n us, Source.Tree.node n us ∈ [(.leaf (.sign "" ';') : Source.Tree Node)] →
      n ≠ .fieldDeclaration ∧ n ≠ .constantDeclaration := by simp
  exact ⟨e, e', he, he', hf.trans (by decide), hsame hstray⟩

/-- What a string of several lines says is no field, also in code that is inserted into another. -/
example :
    (SourceFile.resolve ⟨⟨"A.java"⟩, .java, "class A \x7b String s = STR.\"x \\\x7b f(\"\n; " ++
      "int q = 1; String t = \") \x7d y\"; int z; \x7d"⟩ true).toOption.map (·.fields) =
        some [⟨"s", "String"⟩, ⟨"z", "int"⟩] := by
  decide +kernel

/-- An accepted source whose first declaration is a record has the components of a fixed arity as
fields in front of those of its members. No component is missed exactly when none is of variable
arity. -/
theorem record_fields {s : SourceFile} {ts : Trees} {d : Declared} (hs : s.language = .java)
    (hts : Accepts s.text ts) (hd : firstOf ts = some d) (hk : d.kind = .recordDeclaration)
    (strict : Bool) :
    ∃ e, s.resolve strict = .ok e ∧ e.name = nameOf d.trees ∧
      e.fields = components d.trees ++ (membersIn d.kind d.trees).flatMap entries ∧
      (e.fields = allComponents d.trees ++ (membersIn d.kind d.trees).flatMap entries ↔
        children .spreadParameter (between (child .formalParameters d.trees)) = []) := by
  obtain ⟨e, he, hname, hf⟩ := resolve_accepted hs hts hd strict
  have hf : e.fields = components d.trees ++ (membersIn d.kind d.trees).flatMap entries := by
    simp [hf, fieldsIn, hk]
  refine ⟨e, he, hname, hf, ?_⟩
  rw [hf, List.append_left_inj]
  exact components_eq_all d.trees

/-- A record whose last component is of variable arity. -/
def variadicRecord : Trees :=
  [.node .statement [.node .recordDeclaration
    [.leaf (.word "" "record"), .node .identifier [.leaf (.word " " "R")],
     .node .formalParameters [.group (.sign "" '(')
      [.node .formalParameter
        [.node .unannotatedType [.node .simpleType [.leaf (.word "" "int")]],
         .node .identifier [.leaf (.word " " "a")]],
       .leaf (.sign "" ','),
       .node .spreadParameter
        [.node .unannotatedType [.node .simpleType [.leaf (.word " " "String")]],
         .leaf (.sign "" '.'), .leaf (.sign "" '.'), .leaf (.sign "" '.'),
         .node .variableDeclarator [.node .identifier [.leaf (.word " " "rest")]]]]
      (.sign "" ')')],
     .node .classBody [.group (.sign " " '\x7b') [] (.sign "" '\x7d')]]]]

theorem accepts_variadicRecord :
    Accepts "record R(int a, String... rest) \x7b\x7d" variadicRecord where
  lexemes := by decide
  parses := .of_check 40 (by decide)

/-- A component of variable arity is no field. -/
theorem record_fields_without_rest :
    ∃ e, SourceFile.resolve
        ⟨⟨"R.java"⟩, .java, "record R(int a, String... rest) \x7b\x7d"⟩ true = .ok e ∧
      e.name = "R" ∧ e.fields = [⟨"a", "int"⟩] := by
  obtain ⟨e, he, hname, hf, -⟩ := record_fields (s := ⟨⟨"R.java"⟩, .java, _⟩) rfl
    accepts_variadicRecord rfl rfl true
  exact ⟨e, he, hname.trans (by decide), hf.trans (by decide)⟩

/-- Not every component of an accepted record is a field. -/
theorem rest_dropped :
    ∃ ts d e, Accepts "record R(int a, String... rest) \x7b\x7d" ts ∧ firstOf ts = some d ∧
      d.kind = .recordDeclaration ∧
      SourceFile.resolve
        ⟨⟨"R.java"⟩, .java, "record R(int a, String... rest) \x7b\x7d"⟩ false = .ok e ∧
      e.fields ≠ allComponents d.trees ++ (membersIn d.kind d.trees).flatMap entries := by
  obtain ⟨e, he, -, hf⟩ := resolve_accepted (s := ⟨⟨"R.java"⟩, .java, _⟩) rfl
    accepts_variadicRecord rfl false
  exact ⟨variadicRecord, _, e, accepts_variadicRecord, rfl, rfl, he, hf ▸ by decide⟩

end SourceFile

end Scaffold
