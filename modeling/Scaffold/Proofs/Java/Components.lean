import Scaffold.Proofs.Java.Members

/-!
# The components of a record

Every component with a name behind its type gives a field. One of variable
arity has dots there, and a receiver ends with `this`: they give none.
-/

namespace Scaffold.Source.Java

open Piece Source.Tree Rule

variable {p : Piece} {ps qs rest : List Piece} {ts : Trees}

/-- What stands in a parameter, outside of type arguments and initialisers. -/
def closingTest : Test Terminal Node where
  token t := t ≠ .symbol '<' && t ≠ .symbol '>'
  group _ := true
  angles := false
  node n := n.inTypes || n ∈ [.modifiers, .variableDeclarator, .formalParameter, .spreadParameter,
    .receiverParameter]

theorem closingTest_shows : closingTest.Shows grammar Closing where
  nil := .nil
  append := .append
  token {t l} ht hl := by
    simp only [closingTest, Bool.and_eq_true, decide_eq_true_eq] at ht
    have hsymbol {c : Char} (hc : t ≠ .symbol c) : (lexeme l).isSymbol c = false := by
      cases hs : (lexeme l).isSymbol c with
      | false => rfl
      | true => exact absurd (symbol_of_admits hl hs) hc
    exact .piece (hsymbol ht.1) (hsymbol ht.2)
  group inner _ he :=
    .piece (isSymbol_group (isGroup_encloses he inner) _)
      (isSymbol_group (isGroup_encloses he inner) _)
  angles h := by cases h
  node {n} hn := by
    cases n
    case typeArguments | typeParameters =>
      exact .inr fun ts h => .arguments (h.shown argumentTest_shows (by decide))
    case variableDeclarator => exact .inr fun ts h => (declarator_inv h).elim (·.closing)
    all_goals first | exact .inl (by decide) | cases hn

/-- The field that one component gives. -/
def componentField? (part : List Piece) : Option Field :=
  let typed := readType (dropModifiers .outside part)
  match typed.1, typed.2 with
  | [], _ => none
  | type, p :: more =>
    if more.head?.any (·.isSymbol '.') then none
    else (name? p).map fun name => ⟨name, Piece.spell type⟩
  | _, [] => none

theorem componentFields_eq (ps : List Piece) :
    componentFields ps = (splitCommas 0 ps).filterMap componentField? := rfl

theorem componentField_typed {ms type : List Piece} (hms : Dropped ms)
    (hs : Settled (type ++ p :: rest)) (ht : Typed type) (hu : Untyped (p :: rest))
    (hd : Undimensioned (p :: rest)) :
    componentField? (ms ++ (type ++ p :: rest)) =
      if rest.head?.any (·.isSymbol '.') then none
      else (name? p).map fun name => ⟨name, Piece.spell type⟩ := by
  rw [componentField?, hms _ _ hs .outside trivial, ht.readType_append hu hd]
  cases type with
  | nil => exact absurd rfl ht.ne_nil
  | cons => rfl

theorem formalParameter_read (h : Parses grammar (Node.rule .formalParameter) ts) :
    componentField? (piecesOf ts) =
      Option.some ⟨nameOf ts, spelled (child .unannotatedType ts)⟩ := by
  obtain ⟨ms, _, hms, hbehind, rfl⟩ := Parses.seq_iff.mp h
  obtain ⟨_, _, hnode, hdeclared, rfl⟩ := Parses.seq_iff.mp hbehind
  obtain ⟨type, htype, rfl⟩ := Parses.node_iff.mp hnode
  obtain ⟨l, ds, hl, hds, rfl⟩ := declared_inv hdeclared
  have hname := admits_identifier hl
  have hword := word_of_isName hname
  obtain ⟨ht, hf⟩ : Typed (piecesOf type) ∧ Fronted (piecesOf type) :=
    shape (n := .unannotatedType) htype
  have hms' : Modifiers (piecesOf ms) := modifiers_opt hms.decomposed
  have hchildren : children .unannotatedType ms = [] ∧ children .identifier ms = [] := by
    rcases Parses.opt_iff.mp hms with hms | rfl
    · obtain ⟨us, -, rfl⟩ := Parses.node_iff.mp hms
      exact ⟨rfl, rfl⟩
    · exact ⟨rfl, rfl⟩
  have hdot : (piecesOf ds).head?.any (·.isSymbol '.') = false := by
    have : Dimensions (piecesOf ds) := by
      rcases hds with rfl | ⟨us, hus, rfl⟩
      · exact ⟨[], by simp, by simp⟩
      · have hds : Dimensions (piecesOf us) := shape (n := .dimensions) hus
        simpa using hds
    rcases this.head with he | ⟨q, qs, he, hq | hq⟩ <;> rw [he]
    · rfl
    · simpa using isSymbol_group hq _
    · simpa using isSymbol_false hq (by decide)
  have hpieces : piecesOf (ms ++ ([.node .unannotatedType type] ++
      (.node .identifier [.leaf l] :: ds))) =
        piecesOf ms ++ (piecesOf type ++ lexeme l :: piecesOf ds) := by
    simp
  rw [hpieces, componentField_typed hms'.dropped
    (hf.settled (by simpa using isSymbol_word hword _)) ht (untyped_word hword)
    (undimensioned_word hword), if_neg (by simp [hdot]), name_of_identifier hname]
  simp [nameOf, child, hchildren, children_other, spelled]

theorem spreadParameter_read (h : Parses grammar (Node.rule .spreadParameter) ts) :
    componentField? (piecesOf ts) = none := by
  obtain ⟨ms, hms, _, ⟨type, htype, _, ⟨_, ⟨_, ⟨d, hd, rfl⟩, _, ⟨_, ⟨e, he, rfl⟩, _, ⟨f, hf, rfl⟩, rfl⟩,
    rfl⟩, _, ⟨as, has, ps, hps, rfl⟩, rfl⟩, rfl⟩, hts⟩ := h.decomposed
  obtain ⟨ht, hfronted⟩ := language_shape htype
  have hd : (lexeme d).isSymbol '.' = true := admits_symbol hd
  have he : (lexeme e).isSymbol '.' = true := admits_symbol he
  have hpieces : piecesOf ts = ms ++ (type ++ lexeme d :: lexeme e :: (lexeme f :: (as ++ ps))) := by
    rw [hts]
    simp
  rw [hpieces, componentField_typed (modifiers_opt hms).dropped
    (hfronted.settled (by simpa using isSymbol_false hd (by decide))) ht
    (.cons (isSymbol_false hd (by decide)) (.inr (by
      simpa using ⟨isTypeWord_of_word (word_symbol he), isSymbol_false he (by decide)⟩)))
    (.cons (isGroup_symbol hd _) (isSymbol_false hd (by decide))), if_pos (by simp [he])]

theorem receiverParameter_read (h : Parses grammar (Node.rule .receiverParameter) ts) :
    componentField? (piecesOf ts) = none := by
  obtain ⟨as, has, _, ⟨type, htype, _, ⟨_, ⟨pss, hpss, rfl⟩, _, ⟨l, hl, rfl⟩, rfl⟩, rfl⟩, hts⟩ :=
    h.decomposed
  obtain ⟨ht, hf⟩ := language_shape htype
  have hthis := admits_word hl
  have hnone : name? (lexeme l) = none := by
    simpa [isName] using isName_of_isWord hthis (by decide)
  rw [hts]
  cases pss with
  | nil =>
    have hword := word_of_isWord hthis
    rw [List.flatten_nil, List.nil_append, componentField_typed (.annotations (annotations_read has).1)
      (hf.settled (by simpa using isSymbol_word hword _)) ht (untyped_word hword)
      (undimensioned_word hword), if_neg (by simp), hnone]
    rfl
  | cons qs pss =>
    obtain ⟨_, ⟨n, hn, rfl⟩, _, ⟨d, hd, rfl⟩, rfl⟩ := hpss qs List.mem_cons_self
    have hword := word_of_isName (admits_identifier hn)
    simp only [List.flatten_cons, List.cons_append, List.nil_append]
    rw [componentField_typed (.annotations (annotations_read has).1)
      (hf.settled (by simpa using isSymbol_word hword _)) ht (untyped_word hword)
      (undimensioned_word hword), if_pos (by simp [admits_symbol hd])]

/-- What stands between the commas of a parameter list, with the field of a component. -/
structure Part (ts : Trees) : Prop where
  loose : Angled isLoose (piecesOf ts)
  closing : Closing (piecesOf ts)
  read : (componentField? (piecesOf ts)).toList = (children .formalParameter ts).map fun us =>
    ⟨nameOf us, spelled (child .unannotatedType us)⟩

theorem Part.nil : Part [] := ⟨.nil, .nil, rfl⟩

theorem part_read {n : Node} (hn : n ∈ [.formalParameter, .spreadParameter, .receiverParameter])
    (h : Parses grammar (node n) ts) : Part ts := by
  have hpasses : expressionTest.node n = true ∧ closingTest.node n = true :=
    (by decide : ∀ n ∈ [Node.formalParameter, .spreadParameter, .receiverParameter],
      expressionTest.node n = true ∧ closingTest.node n = true) n hn
  have hoperands := h.shown expressionTest_shows hpasses.1
  refine ⟨hoperands.mono fun p hp => ?_, h.shown closingTest_shows hpasses.2, ?_⟩
  · simp only [isOperand, Bool.and_eq_true] at hp
    exact hp.1
  · obtain ⟨us, hus, rfl⟩ := Parses.node_iff.mp h
    simp only [List.mem_cons, List.not_mem_nil, or_false] at hn
    rcases hn with rfl | rfl | rfl
    · simp [formalParameter_read hus]
    · simp [spreadParameter_read hus, children_other]
    · simp [receiverParameter_read hus, children_other]

theorem parts_read {us : Trees} {vs : List (Lexeme × Trees)} (hu : Part us)
    (hvs : ∀ v ∈ vs, (lexeme v.1).isSymbol ',' = true ∧ Part v.2) :
    componentFields (piecesOf (us ++ listed vs)) =
      (children .formalParameter (us ++ listed vs)).map fun us =>
        ⟨nameOf us, spelled (child .unannotatedType us)⟩ := by
  rw [componentFields_eq, splitCommas_listed hu.loose fun v hv =>
    ⟨(hvs v hv).1, (hvs v hv).2.loose, (hvs v hv).2.closing⟩]
  exact filterMap_listed hu.read fun v hv => (hvs v hv).2.read

/-- The fields that the parameters of a record give. -/
theorem components_read (h : Parses grammar Node.parameters ts) :
    componentFields (piecesOf ts) = (children .formalParameter ts).map fun us =>
      ⟨nameOf us, spelled (child .unannotatedType us)⟩ := by
  have hpart {us : Trees} (h : Parses grammar (oneOf [node .formalParameter,
      node .spreadParameter]) us) : Part us := by
    obtain ⟨r, hr, hp⟩ := Parses.of_oneOf (by simp) h
    simp only [List.mem_cons, List.not_mem_nil, or_false] at hr
    rcases hr with rfl | rfl <;> exact part_read (by decide) hp
  have hlist {us : Trees} (h : Parses grammar (opt (Node.commas (oneOf [node .formalParameter,
      node .spreadParameter]))) us) : ∃ us' vs, us = us' ++ listed vs ∧ Part us' ∧
        ∀ v ∈ vs, (lexeme v.1).isSymbol ',' = true ∧ Part v.2 := by
    rcases Parses.opt_iff.mp h with h | rfl
    · obtain ⟨us, vs, hu, hvs, rfl⟩ := commas_inv h
      exact ⟨us, vs, rfl, hpart hu, fun v hv => ⟨(hvs v hv).1, hpart (hvs v hv).2⟩⟩
    · exact ⟨[], [], rfl, .nil, by simp⟩
  rcases Parses.alt_iff.mp h with h | h
  · have hnone := List.forall_mem_nil fun v : Lexeme × Trees =>
      (lexeme v.1).isSymbol ',' = true ∧ Part v.2
    simpa [listed] using parts_read (part_read (by decide) h) hnone
  · obtain ⟨front, _, hfront, hrest, rfl⟩ := Parses.seq_iff.mp h
    obtain ⟨us, vs, rfl, hu, hvs⟩ := hlist hrest
    rcases Parses.opt_iff.mp hfront with hfront | rfl
    · obtain ⟨receiver, _, hreceiver, hcomma, rfl⟩ := Parses.seq_iff.mp hfront
      obtain ⟨c, hc, rfl⟩ := Parses.token_iff.mp hcomma
      have hlisted : ∀ v ∈ (c, us) :: vs, (lexeme v.1).isSymbol ',' = true ∧ Part v.2 :=
        List.forall_mem_cons.mpr ⟨⟨admits_symbol hc, hu⟩, hvs⟩
      simpa [listed] using parts_read (part_read (by decide) hreceiver) hlisted
    · exact parts_read hu hvs

end Scaffold.Source.Java
