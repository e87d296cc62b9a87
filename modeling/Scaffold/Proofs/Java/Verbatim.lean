import Scaffold.Proofs.Gaps
import Scaffold.Proofs.Java.Fields
import Scaffold.Proofs.Java.Renderings

/-!
# Texts that are read verbatim

Of the gaps in a source only some are shown by what it declares: those inside
the name of the package, inside the types of the fields, and inside the
dimensions that stand behind their names. With other gaps elsewhere the source
declares the same.
-/

namespace Scaffold.Source.Java

open Source.Tree

variable {β : Type} {e : Respacing} {k : Nat} {ts : Trees} {n : Node}

-- ---------------------------------------------------------------------------
-- Gaps that are shown
-- ---------------------------------------------------------------------------

/-- The trees, each with the number of its first lexeme. -/
def numbered (k : Nat) : Trees → List (Nat × Source.Tree Node)
  | [] => []
  | t :: ts => (k, t) :: numbered (k + t.size) ts

/-- The gaps in what stands below the nodes of one kind. -/
def gapsBelow (n : Node) (gaps : Nat → Trees → List Nat) (k : Nat) (ts : Trees) : List Nat :=
  (numbered k ts).flatMap fun
    | (k, .node m us) => if m = n then gaps k us else []
    | _ => []

/-- The gaps in what stands between brackets. -/
def gapsBetween (gaps : Nat → Trees → List Nat) (k : Nat) (ts : Trees) : List Nat :=
  (numbered k ts).flatMap fun
    | (k, .group _ us _) => gaps (k + 1) us
    | _ => []

/-- The gaps inside the text of the trees. -/
def gapsInside (k : Nat) (ts : Trees) : List Nat := Piece.innerGaps k (piecesOf ts)

/-- The gaps in the type of a field and in the dimensions of its declarators. -/
def entryGaps (k : Nat) (ts : Trees) : List Nat :=
  gapsBelow .unannotatedType gapsInside k ts ++
    gapsBelow .variableDeclarator (gapsBelow .dimensions gapsInside) k ts

def memberGaps (k : Nat) (ts : Trees) : List Nat :=
  gapsBelow .fieldDeclaration entryGaps k ts ++ gapsBelow .constantDeclaration entryGaps k ts

/-- The gaps in the types of record components. -/
def componentGaps (k : Nat) (ts : Trees) : List Nat :=
  gapsBelow .formalParameters
    (gapsBetween (gapsBelow .formalParameter (gapsBelow .unannotatedType gapsInside))) k ts

/-- The gaps in the types and the dimensions that a declaration of a kind gives its fields. -/
def fieldGaps : Node → Nat → Trees → List Nat
  | .classDeclaration, k, ts => gapsBelow .classBody (gapsBetween memberGaps) k ts
  | .recordDeclaration, k, ts =>
    componentGaps k ts ++ gapsBelow .classBody (gapsBetween memberGaps) k ts
  | .interfaceDeclaration, k, ts => gapsBelow .interfaceBody (gapsBetween memberGaps) k ts
  | .annotationTypeDeclaration, k, ts => gapsBelow .annotationTypeBody (gapsBetween memberGaps) k ts
  | .enumDeclaration, k, ts =>
    gapsBelow .enumBody (gapsBetween (gapsBelow .enumBodyDeclarations memberGaps)) k ts
  | _, _, _ => []

mutual

/-- The first declaration, with the number of its first lexeme. -/
def located (k : Nat) : Source.Tree Node → Option (Nat × Declared)
  | .leaf _ => none
  | .group _ ts _ => locatedIn (k + 1) ts
  | .node n ts => if n.declares then some (k, ⟨n, ts⟩) else locatedIn k ts

def locatedIn (k : Nat) : Trees → Option (Nat × Declared)
  | [] => none
  | t :: ts => (located k t).or (locatedIn (k + t.size) ts)

end

mutual

theorem located_snd (k : Nat) (t : Source.Tree Node) :
    (located k t).map Prod.snd = firstDeclared t := by
  match t with
  | .leaf _ => rfl
  | .group _ ts _ => exact locatedIn_snd (k + 1) ts
  | .node n ts =>
    rw [located, firstDeclared]
    split
    · rfl
    · exact locatedIn_snd k ts

theorem locatedIn_snd (k : Nat) (ts : Trees) : (locatedIn k ts).map Prod.snd = firstOf ts := by
  match ts with
  | [] => rfl
  | t :: ts =>
    rw [locatedIn, firstOf, ← located_snd k t, ← locatedIn_snd (k + t.size) ts, Option.map_or]

end

/-- The gaps in the field types and the declarator dimensions of the first declaration. -/
def declaredGaps (ts : Trees) : List Nat :=
  match locatedIn 0 ts with
  | none => []
  | some (k, d) => fieldGaps d.kind k d.trees

-- ---------------------------------------------------------------------------
-- Children
-- ---------------------------------------------------------------------------

theorem mem_gapsBelow {gaps : Nat → Trees → List Nat} {i : Nat} {us : Trees}
    (h : (i, .node n us) ∈ numbered k ts) : ∀ j ∈ gaps i us, j ∈ gapsBelow n gaps k ts := by
  intro j hj
  exact List.mem_flatMap.mpr ⟨_, h, by simpa using hj⟩

theorem mem_gapsBetween {gaps : Nat → Trees → List Nat} {i : Nat} {o c : Lexeme} {us : Trees}
    (h : (i, .group o us c) ∈ numbered k ts) :
    ∀ j ∈ gaps (i + 1) us, j ∈ gapsBetween gaps k ts := by
  intro j hj
  exact List.mem_flatMap.mpr ⟨_, h, hj⟩

/-- What children of a kind say is the same with other gaps if each of them says the same. -/
theorem map_children_respaces (f : Trees → β)
    (h : ∀ i us, (i, .node n us) ∈ numbered k ts → f (respaces e i us) = f us) :
    (children n (respaces e k ts)).map f = (children n ts).map f := by
  induction ts generalizing k with
  | nil => rfl
  | cons t ts ih =>
    have hrest := ih fun i us hi => h i us (List.mem_cons_of_mem _ hi)
    cases t with
    | leaf l => exact hrest
    | group o us c => exact hrest
    | node m us =>
      rw [respaces, Source.Tree.respace]
      by_cases hm : m = n
      · subst hm
        rw [children_same, children_same, List.map_cons, List.map_cons, hrest,
          h k us List.mem_cons_self]
      · rw [children_other hm, children_other hm, hrest]

theorem child_respaces (f : Trees → β)
    (h : ∀ i us, (i, .node n us) ∈ numbered k ts → f (respaces e i us) = f us) :
    f (child n (respaces e k ts)) = f (child n ts) := by
  have hhead (xs : List Trees) : f (xs.head?.getD []) = (xs.map f).head?.getD (f []) := by
    cases xs <;> rfl
  rw [child, child, hhead, map_children_respaces f h, ← hhead]

theorem between_respaces (f : Trees → β)
    (h : ∀ i o us c, (i, .group o us c) ∈ numbered k ts → f (respaces e (i + 1) us) = f us) :
    f (between (respaces e k ts)) = f (between ts) := by
  rcases ts with _ | ⟨t, _ | ⟨u, vs⟩⟩
  · rfl
  · cases t with
    | leaf l => rfl
    | group o us c => exact h k o us c List.mem_cons_self
    | node m us => rfl
  · have hseveral (t u : Source.Tree Node) (vs : Trees) : between (t :: u :: vs) = [] := by
      cases t <;> rfl
    rw [respaces, respaces, hseveral, hseveral]

-- ---------------------------------------------------------------------------
-- Fields
-- ---------------------------------------------------------------------------

theorem soleText_respaces (e : Respacing) (k : Nat) (ts : Trees) :
    soleText (respaces e k ts) = soleText ts := by
  rcases ts with _ | ⟨t, _ | ⟨u, vs⟩⟩
  · rfl
  · cases t <;> rfl
  · have hseveral (t u : Source.Tree Node) (vs : Trees) : soleText (t :: u :: vs) = "" := by
      cases t <;> rfl
    rw [respaces, respaces, hseveral, hseveral]

theorem nameOf_respaces (e : Respacing) (k : Nat) (ts : Trees) :
    nameOf (respaces e k ts) = nameOf ts :=
  child_respaces soleText fun i us _ => soleText_respaces e i us

theorem spelled_child_respaces (h : e.Keeps (gapsBelow n gapsInside k ts)) :
    spelled (child n (respaces e k ts)) = spelled (child n ts) :=
  child_respaces spelled fun i us hi => by
    rw [spelled, piecesOf_respaces]
    have htext : e.Keeps (gapsInside i us) := h.mono (mem_gapsBelow hi)
    exact Piece.spell_respaces htext

theorem flatMap_respaces (f : Source.Tree Node → List β)
    (h : ∀ i t, (i, t) ∈ numbered k ts → f (t.respace e i) = f t) :
    (respaces e k ts).flatMap f = ts.flatMap f := by
  induction ts generalizing k with
  | nil => rfl
  | cons t ts ih =>
    rw [respaces, List.flatMap_cons, List.flatMap_cons, h k t List.mem_cons_self,
      ih fun i u hi => h i u (List.mem_cons_of_mem _ hi)]

theorem map_entry_respaces (h : e.Keeps (entryGaps k ts)) :
    (children .variableDeclarator (respaces e k ts)).map
        (entry (child .unannotatedType (respaces e k ts))) =
      (children .variableDeclarator ts).map (entry (child .unannotatedType ts)) := by
  obtain ⟨htype, hdeclarators⟩ := Respacing.keeps_append.mp h
  have hentry : entry (child .unannotatedType (respaces e k ts)) =
      entry (child .unannotatedType ts) := by
    funext declarator
    rw [entry, entry, spelled_child_respaces htype]
  rw [hentry]
  refine map_children_respaces _ fun i us hi => ?_
  rw [entry, entry, nameOf_respaces,
    spelled_child_respaces (hdeclarators.mono (mem_gapsBelow hi))]

theorem entries_respaces (h : e.Keeps (memberGaps k ts)) :
    (respaces e k ts).flatMap entries = ts.flatMap entries := by
  obtain ⟨hfields, hconstants⟩ := Respacing.keeps_append.mp h
  refine flatMap_respaces entries fun i t hi => ?_
  cases t with
  | leaf | group => rfl
  | node n us =>
    rw [Source.Tree.respace]
    cases n
    case fieldDeclaration => exact map_entry_respaces (hfields.mono (mem_gapsBelow hi))
    case constantDeclaration => exact map_entry_respaces (hconstants.mono (mem_gapsBelow hi))
    all_goals rfl

theorem components_respaces (h : e.Keeps (componentGaps k ts)) :
    components (respaces e k ts) = components ts := by
  let component (us : Trees) : Field := ⟨nameOf us, spelled (child .unannotatedType us)⟩
  refine child_respaces (fun us => (children .formalParameter (between us)).map component)
    fun i us hi => ?_
  have hus := h.mono (mem_gapsBelow hi)
  refine between_respaces (fun us => (children .formalParameter us).map component)
    fun j o vs c hj => ?_
  have hvs := hus.mono (mem_gapsBetween hj)
  refine map_children_respaces component fun l ws hl => ?_
  simp only [component, nameOf_respaces, spelled_child_respaces (hvs.mono (mem_gapsBelow hl))]

theorem body_respaces (h : e.Keeps (gapsBelow n (gapsBetween memberGaps) k ts)) :
    (between (child n (respaces e k ts))).flatMap entries =
      (between (child n ts)).flatMap entries := by
  refine child_respaces (fun us => (between us).flatMap entries) fun i us hi => ?_
  have hus := h.mono (mem_gapsBelow hi)
  exact between_respaces (fun us => us.flatMap entries) fun j o vs c hj =>
    entries_respaces (hus.mono (mem_gapsBetween hj))

theorem enumBody_respaces
    (h : e.Keeps (gapsBelow .enumBody (gapsBetween (gapsBelow n memberGaps)) k ts)) :
    (child n (between (child .enumBody (respaces e k ts)))).flatMap entries =
      (child n (between (child .enumBody ts))).flatMap entries := by
  refine child_respaces (fun us => (child n (between us)).flatMap entries) fun i us hi => ?_
  have hus := h.mono (mem_gapsBelow hi)
  refine between_respaces (fun us => (child n us).flatMap entries) fun j o vs c hj => ?_
  have hvs := hus.mono (mem_gapsBetween hj)
  exact child_respaces (fun us => us.flatMap entries) fun l ws hl =>
    entries_respaces (hvs.mono (mem_gapsBelow hl))

/-- A declaration with other gaps declares the same if its types and dimensions keep theirs. -/
theorem declaration_respaces (h : e.Keeps (fieldGaps n k ts)) :
    Declared.declaration ⟨n, respaces e k ts⟩ = Declared.declaration ⟨n, ts⟩ := by
  have hfields : fieldsIn n (respaces e k ts) = fieldsIn n ts := by
    rw [fieldsIn, fieldsIn]
    cases n
    case classDeclaration | interfaceDeclaration | annotationTypeDeclaration =>
      exact body_respaces h
    case recordDeclaration =>
      obtain ⟨hcomponents, hbody⟩ := Respacing.keeps_append.mp h
      rw [if_pos rfl, if_pos rfl, components_respaces hcomponents]
      exact congrArg _ (body_respaces hbody)
    case enumDeclaration => exact enumBody_respaces h
    all_goals rfl
  simp only [Declared.declaration, nameOf_respaces, hfields]

mutual

theorem firstDeclared_respace (e : Respacing) (k : Nat) (t : Source.Tree Node) :
    firstDeclared (t.respace e k) =
      (located k t).map fun x => ⟨x.2.kind, respaces e x.1 x.2.trees⟩ := by
  match t with
  | .leaf l => rfl
  | .group o ts c => exact firstOf_respaces e (k + 1) ts
  | .node n ts =>
    rw [Source.Tree.respace, firstDeclared, located]
    split
    · rfl
    · exact firstOf_respaces e k ts

theorem firstOf_respaces (e : Respacing) (k : Nat) (ts : Trees) :
    firstOf (respaces e k ts) =
      (locatedIn k ts).map fun x => ⟨x.2.kind, respaces e x.1 x.2.trees⟩ := by
  match ts with
  | [] => rfl
  | t :: ts =>
    rw [respaces, firstOf, locatedIn, firstDeclared_respace e k t,
      firstOf_respaces e (k + t.size) ts, Option.map_or]

end

theorem firstDeclaration_respaces (h : e.Keeps (declaredGaps ts)) :
    (firstOf (respaces e 0 ts)).map Declared.declaration =
      (firstOf ts).map Declared.declaration := by
  rw [declaredGaps] at h
  rw [firstOf_respaces, ← locatedIn_snd 0 ts]
  cases hd : locatedIn 0 ts with
  | none => rfl
  | some x =>
    rw [hd] at h
    exact congrArg some (declaration_respaces h)

-- ---------------------------------------------------------------------------
-- The package
-- ---------------------------------------------------------------------------

section

open Piece

variable {p q : Piece} {ps : List Piece}

/-- The gaps in the name behind the first word `package`, up to a semicolon. -/
def packageGaps (k : Nat) : List Piece → List Nat
  | [] => []
  | p :: ps =>
    if p.isWord "package" then
      List.range' (k + 2) ((ps.takeWhile fun q => !q.isSymbol ';').length - 1)
    else packageGaps (k + p.lexemes.length) ps

/-- A package is named behind each word `package`, up to a semicolon. -/
def Named : List Piece → Prop
  | [] => True
  | p :: ps => Named ps ∧ (p.isWord "package" = true →
      ∃ names s rest, ps = names ++ s :: rest ∧ Dotted names ∧ s.isSymbol ';' = true)

theorem Named.append {qs : List Piece} (hp : Named ps) (hq : Named qs) : Named (ps ++ qs) := by
  induction ps with
  | nil => exact hq
  | cons p ps ih =>
    refine ⟨ih hp.1, fun hk => ?_⟩
    obtain ⟨names, s, rest, rfl, hnames, hs⟩ := hp.2 hk
    exact ⟨names, s, rest ++ qs, by simp, hnames, hs⟩

theorem Named.of_other (h : ∀ p ∈ ps, p.isWord "package" = false) : Named ps := by
  induction ps with
  | nil => trivial
  | cons p ps ih =>
    rw [List.forall_mem_cons] at h
    exact ⟨ih h.2, fun hk => by simp [h.1] at hk⟩

theorem dotted_name (h : Parses grammar Node.name ts) : Dotted (piecesOf ts) := by
  obtain ⟨us, vs, hu, hv, rfl⟩ := Parses.seq_iff.mp h
  obtain ⟨l, hl, rfl⟩ := Parses.token_iff.mp hu
  obtain ⟨tss, htss, rfl⟩ := Parses.many_iff.mp hv
  clear h hu hv
  induction tss generalizing l with
  | nil => exact .last (admits_identifier hl)
  | cons us tss ih =>
    rw [List.forall_mem_cons] at htss
    obtain ⟨_, _, hdot, hname, rfl⟩ := Parses.seq_iff.mp htss.1
    obtain ⟨d, hd, rfl⟩ := Parses.token_iff.mp hdot
    obtain ⟨m, hm, rfl⟩ := Parses.token_iff.mp hname
    simpa using Dotted.dot (admits_identifier hl) (admits_symbol hd) (ih m hm htss.2)

theorem isWord_package_of_header (h : isHeader p = true) : p.isWord "package" = false := by
  cases hw : p.isWord "package" with
  | false => rfl
  | true =>
    have hname := isName_of_isWord hw (by decide)
    have hword := word_of_isWord hw
    rw [isName] at hname
    simp only [isWord, decide_eq_true_eq] at hw
    simp [isHeader, hname, isGroup_word hword, isSymbol_word hword, isWord, hw, headerWords,
      primitive] at h

theorem packageDeclaration_named (h : Parses grammar (Node.rule .packageDeclaration) ts) :
    Named (piecesOf ts) := by
  obtain ⟨us, _, hus, h1, rfl⟩ := Parses.seq_iff.mp h
  obtain ⟨_, _, hk, h2, rfl⟩ := Parses.seq_iff.mp h1
  obtain ⟨names, _, hnames, hend, rfl⟩ := Parses.seq_iff.mp h2
  obtain ⟨k, -, rfl⟩ := Parses.token_iff.mp hk
  obtain ⟨s, hs, rfl⟩ := Parses.token_iff.mp hend
  have hdotted := dotted_name hnames
  have hfront : Named (piecesOf us) := .of_other fun p hp =>
    isWord_package_of_header (header hus (by decide) p hp)
  have hback : Named (piecesOf names ++ [lexeme s]) := .of_other fun p hp => by
    rcases List.mem_append.mp hp with hp | hp
    · rcases hdotted.linked.parts p hp with h | h
      · exact isWord_of_isName h (by decide)
      · obtain ⟨c, -, h⟩ := isSymbol_of_isLink h
        exact isWord_false (word_symbol h)
    · rw [List.mem_singleton.mp hp]
      exact isWord_false (word_symbol (admits_symbol hs))
  have hline : Named (lexeme k :: (piecesOf names ++ [lexeme s])) :=
    ⟨hback, fun _ => ⟨_, _, [], rfl, hdotted, admits_symbol hs⟩⟩
  simpa using hfront.append hline

def packageTest : Rule.Test Terminal Node where
  token t := t ≠ .word "package"
  group _ := true
  angles := true
  node _ := true

theorem packageTest_shows : packageTest.Shows grammar Named where
  nil := trivial
  append := .append
  token {t l} ht hl := .of_other fun p hp => by
    obtain rfl := List.mem_singleton.mp hp
    cases hw : (lexeme l).isWord "package" with
    | false => rfl
    | true => exact absurd (word_of_admits hl hw (by decide)) (of_decide_eq_true ht)
  group _ _ _ := .of_other (by simp [isWord, word?])
  angles {a b _} _ ha hp hb := by
    have ha' : Named [lexeme a] := .of_other (by simpa using isWord_false (word_symbol ha))
    have hb' : Named [lexeme b] := .of_other (by simpa using isWord_false (word_symbol hb))
    exact (ha'.append hp).append hb'
  node {n} _ := by
    by_cases hn : n = .packageDeclaration
    · subst hn
      exact .inr fun _ => packageDeclaration_named
    · exact .inl (by revert hn; cases n <;> decide)

theorem isWord_respace (e : Respacing) (k : Nat) (p : Piece) (w : String) :
    (p.respace e k).isWord w = p.isWord w := by
  cases p <;> rfl

theorem isSymbol_respace (e : Respacing) (k : Nat) (p : Piece) (c : Char) :
    (p.respace e k).isSymbol c = p.isSymbol c := by
  cases p <;> rfl

theorem Dotted.regapFirst {names : List Piece} (h : Dotted names) (gap : List Trivia) :
    Dotted (Piece.regapFirst gap names) := by
  have hname {p : Piece} (hp : isName p = true) : isName (p.regap gap) = true := by
    cases p <;> exact hp
  cases h with
  | last hp => exact .last (hname hp)
  | dot hp hdot h => exact .dot (hname hp) hdot h

theorem packageName_dotted {names rest : List Piece} {s : Piece} (hp : p.isWord "package" = true)
    (hnames : Dotted names) (hs : s.isSymbol ';' = true) :
    packageName? (p :: (names ++ s :: rest)) = some (spell names) := by
  obtain ⟨q, ws, hq, hws, rfl⟩ := hnames.links
  exact packageName_line hp hq hws hs

/-- The line with other gaps names the same package if no gap in the name changes. -/
theorem packageName_line_respaces {names rest : List Piece} {s : Piece}
    (hp : p.isWord "package" = true) (hnames : Dotted names) (hs : s.isSymbol ';' = true)
    (h : e.Keeps (List.range' (k + 2) (names.length - 1))) :
    packageName? (Piece.respaces e k (p :: (names ++ s :: rest))) =
      packageName? (p :: (names ++ s :: rest)) := by
  obtain ⟨ls, rfl, -⟩ := hnames.linked.flat
  cases ls with
  | nil => cases hnames
  | cons l ls =>
    have hone : p.lexemes.length = 1 := by
      cases p with
      | lexeme => rfl
      | group => cases hp
    have hkept : e.Keeps (List.range' (k + 1 + 1) ls.length) := by simpa using h
    rw [Piece.respaces, hone, Piece.respaces_append, respaces_first hkept, Piece.respaces,
      packageName_dotted (by rwa [isWord_respace]) (hnames.regapFirst _) (by rwa [isSymbol_respace]),
      packageName_dotted hp hnames hs, spell_regapFirst]

/-- With other gaps elsewhere the package has the same name. -/
theorem packageName_respaces (hn : Named ps) (h : e.Keeps (packageGaps k ps)) :
    packageName? (Piece.respaces e k ps) = packageName? ps := by
  induction ps generalizing k with
  | nil => rfl
  | cons p ps ih =>
    rw [packageGaps] at h
    split at h
    · next hp =>
      obtain ⟨names, s, rest, rfl, hnames, hs⟩ := hn.2 hp
      have hother : ∀ q ∈ names, (!q.isSymbol ';') = true := fun q hq => by
        rcases hnames.linked.parts q hq with h | h
        · simp [isSymbol_word (word_of_isName h)]
        · simp only [isLink, Bool.or_eq_true] at h
          rcases h with h | h <;> simp [isSymbol_false h]
      rw [List.takeWhile_append_of_pos hother, List.takeWhile_cons_of_neg (by simp [hs]),
        List.append_nil] at h
      exact packageName_line_respaces hp hnames hs h
    · next hp =>
      simp only [Piece.respaces, packageName?, isWord_respace, hp, Bool.false_and]
      exact ih hn.1 h

end

end Scaffold.Source.Java
