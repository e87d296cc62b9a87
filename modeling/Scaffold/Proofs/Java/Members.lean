import Scaffold.Proofs.Java.Shapes

/-!
# The members of a body

A body is cut into its members, whatever they hold, and a member gives the
fields that its node declares: one for each declarator of a field or constant,
none for anything else.
-/

namespace Scaffold.Source.Java

open Piece Source.Tree Rule

variable {p : Piece} {ps qs rest current : List Piece} {ts : Trees} {assigned : Bool}

-- ---------------------------------------------------------------------------
-- Where members end
-- ---------------------------------------------------------------------------

theorem members_calm (h : ∀ p ∈ ps, isCalm p = true) :
    members current assigned (ps ++ rest) = members (ps.reverse ++ current) assigned rest := by
  induction ps generalizing current with
  | nil => rfl
  | cons p ps ih =>
    have hp := h p List.mem_cons_self
    simp only [isCalm, Bool.and_eq_true, Bool.not_eq_true'] at hp
    obtain ⟨⟨⟨hs, he⟩, hg⟩, hd⟩ := hp
    rw [List.cons_append, members, if_neg (by simp [hs]), if_neg (by simp [hg]), he,
      startsDefault, hd, Bool.false_and, Bool.or_false, Bool.or_false,
      ih fun q hq => h q (List.mem_cons_of_mem _ hq)]
    simp

theorem members_modifiers (h : Modifiers ps) :
    members [] assigned (ps ++ rest) = members ps.reverse assigned rest := by
  obtain ⟨pss, hpss, rfl⟩ := h
  -- the modifiers read so far are dropped again when a `default` is looked at
  have hrun (before : List Piece) (hb : Dropped before) :
      members before.reverse assigned (pss.flatten ++ rest) =
        members (before ++ pss.flatten).reverse assigned rest := by
    induction pss generalizing before with
    | nil => simp
    | cons qs pss ih =>
      obtain ⟨hdropped, hqs⟩ := hpss qs List.mem_cons_self
      have hstep : members before.reverse assigned (qs ++ (pss.flatten ++ rest)) =
          members (before ++ qs).reverse assigned (pss.flatten ++ rest) := by
        rcases hqs with hcalm | ⟨q, hq, rfl⟩
        · rw [members_calm hcalm, List.reverse_append]
        · have hword := word_of_isWord hq
          have hnone : dropModifiers .outside before = [] := by
            simpa using hb [] [] (fun s _ => by cases s <;> rfl) .outside trivial
          rw [List.singleton_append, members, if_neg (by simp [isSymbol_word hword]),
            if_neg (by simp [isGroup_word hword]), isSymbol_word hword, startsDefault,
            List.reverse_reverse, hnone]
          simp
      rw [List.flatten_cons, List.append_assoc, hstep,
        ih (fun rs hr => hpss rs (List.mem_cons_of_mem _ hr)) _ (hb.append hdropped)]
      simp
  simpa using hrun [] .nil

theorem members_block (hp : p.isGroup '\x7b' = true) :
    members current false (p :: rest) = (p :: current).reverse :: members [] false rest := by
  rw [members, if_neg (by simp [isSymbol_group hp]), if_pos (by simp [hp])]

theorem members_semicolon (hp : p.isSymbol ';' = true) :
    members current assigned (p :: rest) = current.reverse :: members [] false rest := by
  rw [members, if_pos hp]

/-- Behind an assignment braces end no member. -/
theorem members_assigned (h : ∀ p ∈ ps, p.isSymbol ';' = false) :
    members current true (ps ++ rest) = members (ps.reverse ++ current) true rest := by
  induction ps generalizing current with
  | nil => rfl
  | cons p ps ih =>
    rw [List.cons_append, members, if_neg (by simp [h p List.mem_cons_self]), if_neg (by simp),
      Bool.true_or, Bool.true_or, ih fun q hq => h q (List.mem_cons_of_mem _ hq)]
    simp

/-- The pieces end no member. -/
def Going (ps : List Piece) : Prop :=
  ∀ current assigned rest, ∃ assigned', members current assigned (ps ++ rest) =
    members (ps.reverse ++ current) assigned' rest

namespace Going

theorem calm (h : ∀ p ∈ ps, isCalm p = true) : Going ps :=
  fun _ assigned _ => ⟨assigned, members_calm h⟩

theorem append (hp : Going ps) (hq : Going qs) : Going (ps ++ qs) := by
  intro current assigned rest
  obtain ⟨assigned', he⟩ := hp current assigned (qs ++ rest)
  obtain ⟨assigned'', he'⟩ := hq (ps.reverse ++ current) assigned' rest
  exact ⟨assigned'', by rw [List.append_assoc, he, he']; simp⟩

theorem assignment (hp : p.isSymbol '=' = true) (h : ∀ q ∈ ps, q.isSymbol ';' = false) :
    Going (p :: ps) := by
  intro current assigned rest
  refine ⟨true, ?_⟩
  rw [List.cons_append, members, if_neg (by simp [isSymbol_false hp]),
    if_neg (by simp [isGroup_symbol hp]), hp, Bool.or_true, Bool.true_or, members_assigned h]
  simp

end Going

-- ---------------------------------------------------------------------------
-- What a member begins with
-- ---------------------------------------------------------------------------

theorem Fronted.skipAngles_append (h : Fronted ps) : skipAngles 0 (ps ++ rest) = ps ++ rest := by
  obtain ⟨p, tail, rfl, hw, -, -⟩ := h
  exact skipAngles_zero (by simpa using isSymbol_word (word_of_isTypeWord hw) _)

theorem Bracketed.skipAngles_append (h : Bracketed ps) : skipAngles 0 (ps ++ rest) = rest := by
  obtain ⟨a, inner, b, ha, hi, hb, rfl⟩ := h
  rw [List.append_assoc]
  exact (hi.mono fun _ => isStraight_of_isArgument).skipAngles_block ha hb

theorem Bracketed.settled (h : Bracketed ps) : Settled (ps ++ rest) := by
  obtain ⟨a, inner, b, ha, -, -, rfl⟩ := h
  have hword := word_symbol ha
  exact .cons (.inl (isSymbol_false ha (by decide))) (isSymbol_false ha (by decide))
    (isGroup_symbol ha _) (by simp [modifierWords, isWord_false hword])
    (.inl (isWord_false hword))

theorem untyped_word (h : p.word?.isSome = true) : Untyped (p :: ps) :=
  .cons (isSymbol_word h _) (.inl (isSymbol_word h _))

theorem undimensioned_word (h : p.word?.isSome = true) : Undimensioned (p :: ps) :=
  .cons (isGroup_word h _) (isSymbol_word h _)

theorem untyped_group {c : Char} (h : p.isGroup c = true) : Untyped (p :: ps) :=
  .cons (isSymbol_group h _) (.inl (isSymbol_group h _))

theorem undimensioned_group {c : Char} (h : p.isGroup c = true) (hc : c ≠ '[') :
    Undimensioned (p :: ps) :=
  .cons (isGroup_false h hc) (isSymbol_group h _)

theorem Typed.ne_nil (h : Typed ps) : ps ≠ [] := by
  obtain ⟨base, dimensions, hb, -, rfl⟩ := h
  simp [hb.ne_nil]

theorem memberFields_modified {ms : List Piece} (hm : Dropped ms) (hs : Settled ps) :
    memberFields (ms ++ ps) = memberFields ps := by
  have hdrop : dropModifiers .outside (ms ++ ps) = ps := hm _ _ hs .outside trivial
  rw [memberFields, memberFields, hdrop, hs .outside trivial]

theorem memberFields_typed {type : List Piece} (hs : Settled ps)
    (hskip : skipAngles 0 ps = type ++ p :: rest) (ht : Typed type) (hu : Untyped (p :: rest))
    (hd : Undimensioned (p :: rest)) :
    memberFields ps =
      if p.isGroup '(' || (skipAngles 0 rest).head?.any (·.isGroup '(') then []
      else declarators type (p :: rest) := by
  rw [memberFields, hs .outside trivial, hskip, ht.readType_append hu hd]
  cases type with
  | nil => exact absurd rfl ht.ne_nil
  | cons => rfl

/-- A member that begins with no type declares no fields. -/
theorem memberFields_untyped (hs : Settled (p :: ps)) (hlt : p.isSymbol '<' = false)
    (hword : isTypeWord p = false) (hat : p.isSymbol '@' = false) :
    memberFields (p :: ps) = [] := by
  have hskip : skipAngles 0 (p :: ps) = p :: ps := skipAngles_zero (by simpa using hlt)
  have htype : readType (p :: ps) = ([], p :: ps) := by
    rw [readType, splitType]
    simp [hword, hat]
  rw [memberFields, hs .outside trivial, hskip, htype]

-- ---------------------------------------------------------------------------
-- Declarators
-- ---------------------------------------------------------------------------

/-- What follows the first of some things with commas between them. -/
def listed (vs : List (Lexeme × Trees)) : Trees :=
  vs.flatMap fun v => .leaf v.1 :: v.2

theorem commas_inv {r : Rule Terminal Node} (h : Parses grammar (Node.commas r) ts) :
    ∃ (us : Trees) (vs : List (Lexeme × Trees)), Parses grammar r us ∧
      (∀ v ∈ vs, (lexeme v.1).isSymbol ',' = true ∧ Parses grammar r v.2) ∧
      ts = us ++ listed vs := by
  obtain ⟨us, _, hu, hmany, rfl⟩ := Parses.seq_iff.mp h
  obtain ⟨tss, htss, rfl⟩ := Parses.many_iff.mp hmany
  have htail : ∃ vs : List (Lexeme × Trees),
      (∀ v ∈ vs, (lexeme v.1).isSymbol ',' = true ∧ Parses grammar r v.2) ∧
        tss.flatten = listed vs := by
    clear h hmany
    induction tss with
    | nil => exact ⟨[], by simp, rfl⟩
    | cons ts tss ih =>
      obtain ⟨vs, hvs, he⟩ := ih fun us hu => htss us (List.mem_cons_of_mem _ hu)
      obtain ⟨_, us, hsep, hr, rfl⟩ := Parses.seq_iff.mp (htss _ List.mem_cons_self)
      obtain ⟨c, hc, rfl⟩ := Parses.token_iff.mp hsep
      exact ⟨(c, us) :: vs, by simpa using ⟨⟨admits_symbol hc, hr⟩, by simpa using hvs⟩,
        by simp [he, listed]⟩
  obtain ⟨vs, hvs, he⟩ := htail
  exact ⟨us, vs, hu, hvs, by rw [he]⟩

theorem splitCommas_listed {us : Trees} {vs : List (Lexeme × Trees)}
    (hu : Angled isLoose (piecesOf us)) (hvs : ∀ v ∈ vs, (lexeme v.1).isSymbol ',' = true ∧
      Angled isLoose (piecesOf v.2) ∧ Closing (piecesOf v.2)) :
    splitCommas 0 (piecesOf (us ++ listed vs)) = piecesOf us :: vs.map fun v => piecesOf v.2 := by
  have hpieces (vs : List (Lexeme × Trees)) : piecesOf (listed vs) =
      (vs.map fun v => (lexeme v.1, piecesOf v.2)).flatMap fun w => w.1 :: w.2 := by
    induction vs with
    | nil => exact piecesOf_nil
    | cons v vs ih =>
      rw [listed, List.flatMap_cons, ← listed, List.cons_append, piecesOf_cons, piecesOf_append, ih]
      simp
  rw [piecesOf_append, hpieces, splitCommas_joined hu ?_ (.inl rfl)]
  · simp
  · intro w hw
    obtain ⟨v, hv, rfl⟩ := List.mem_map.mp hw
    exact hvs v hv

/-- What is read off the parts between commas is what their nodes of one kind give. -/
theorem filterMap_listed {n : Node} {f : List Piece → Option Field} {g : Trees → Field}
    {us : Trees} {vs : List (Lexeme × Trees)}
    (hu : (f (piecesOf us)).toList = (children n us).map g)
    (hvs : ∀ v ∈ vs, (f (piecesOf v.2)).toList = (children n v.2).map g) :
    (piecesOf us :: vs.map fun v => piecesOf v.2).filterMap f =
      (children n (us ++ listed vs)).map g := by
  have htail : (vs.map fun v => piecesOf v.2).filterMap f = (children n (listed vs)).map g := by
    induction vs with
    | nil => rfl
    | cons v vs ih =>
      rw [listed, List.flatMap_cons, ← listed, List.cons_append, children_leaf, children_append,
        List.map_append, ← ih fun w hw => hvs w (List.mem_cons_of_mem _ hw),
        ← hvs v List.mem_cons_self, List.map_cons, List.filterMap_cons]
      cases f (piecesOf v.2) <;> rfl
  rw [children_append, List.map_append, ← htail, ← hu, List.filterMap_cons]
  cases f (piecesOf us) <;> rfl

/-- A declared name with the dimensions behind it. -/
theorem declared_inv (h : Parses grammar Node.declared ts) :
    ∃ l ds, grammar.admits .identifier l = true ∧
      (ds = [] ∨ ∃ us, Parses grammar (Node.rule .dimensions) us ∧ ds = [.node .dimensions us]) ∧
      ts = .node .identifier [.leaf l] :: ds := by
  obtain ⟨_, ds, hi, hd, rfl⟩ := Parses.seq_iff.mp h
  obtain ⟨_, hn, rfl⟩ := Parses.node_iff.mp hi
  obtain ⟨l, hl, rfl⟩ := Parses.token_iff.mp hn
  refine ⟨l, ds, hl, ?_, rfl⟩
  rcases Parses.opt_iff.mp hd with hd | hd
  · exact .inr (Parses.node_iff.mp hd)
  · exact .inl hd

theorem name_of_identifier {l : Lexeme} (h : isName (lexeme l) = true) :
    name? (lexeme l) = some l.text := by
  obtain ⟨w, hw, hr, hd⟩ := isName_iff.mp h
  have : l.text = w := by
    simp only [word?] at hw
    split at hw
    · simpa using hw
    · cases hw
  rw [name?, hw, this, Option.filter_some, if_pos (by simp [hr, hd])]

/-- The field that one declarator gives. -/
def declaratorField? (type : List Piece) : List Piece → Option Field
  | [] => none
  | p :: rest =>
    (name? p).map fun name =>
      ⟨name, Piece.spell type ++ Piece.spell (splitDimensions .outside [] [] rest).1⟩

theorem declarators_eq (type ps : List Piece) :
    declarators type ps = (splitCommas 0 ps).filterMap (declaratorField? type) := by
  rw [declarators]
  congr 1

/-- A declarator: its name, its dimensions and its initialiser. -/
structure Declarator (d : Trees) where
  name : Lexeme
  dimensions : List Piece
  initialiser : List Piece
  pieces : piecesOf d = .lexeme name :: dimensions ++ initialiser
  isName : isName (.lexeme name) = true
  named : nameOf d = name.text
  dimensional : Dimensions dimensions
  spelled : spelled (child .dimensions d) = spell dimensions
  calm : ∀ p ∈ dimensions, isCalm p = true
  arguments : Angled isArgument dimensions
  operands : Angled isOperand (dimensions ++ initialiser)
  initialised : initialiser = [] ∨ ∃ e more, e.isSymbol '=' = true ∧ initialiser = e :: more

theorem declarator_inv {d : Trees} (h : Parses grammar (Node.rule .variableDeclarator) d) :
    Nonempty (Declarator d) := by
  have hoperands := h.shown expressionTest_shows (by decide)
  obtain ⟨_, init, hdeclared, hinit, rfl⟩ := Parses.seq_iff.mp h
  obtain ⟨l, ds, hl, hds, rfl⟩ := declared_inv hdeclared
  have hname := admits_identifier hl
  have hinitialised : (piecesOf init = [] ∨ ∃ e more, e.isSymbol '=' = true ∧
      piecesOf init = e :: more) ∧ children .dimensions init = [] := by
    rcases Parses.opt_iff.mp hinit with hinit | rfl
    · obtain ⟨_, _, heq, hv, rfl⟩ := Parses.seq_iff.mp hinit
      obtain ⟨e, he, rfl⟩ := Parses.token_iff.mp heq
      obtain ⟨vs, -, rfl⟩ := Parses.node_iff.mp hv
      exact ⟨.inr ⟨.lexeme e, piecesOf vs, admits_symbol he, by simp⟩, rfl⟩
    · exact ⟨.inl rfl, rfl⟩
  have hdimensions : child .dimensions (.node .identifier [.leaf l] :: ds ++ init) =
      child .dimensions ds := by
    rw [child, children_append, hinitialised.2, List.append_nil]
    rfl
  have htail : Angled isOperand (piecesOf ds ++ piecesOf init) := by
    simp only [piecesOf_append, piecesOf_cons, pieces_node, pieces_leaf, piecesOf_nil,
      List.append_nil, List.cons_append] at hoperands
    exact hoperands.tail (isSymbol_word (word_of_isName hname) _)
  rcases hds with rfl | ⟨us, hus, rfl⟩
  · exact ⟨⟨l, [], piecesOf init, by simp, hname, rfl, ⟨[], by simp, rfl⟩,
      by rw [hdimensions]; rfl, by simp, .nil, htail, hinitialised.1⟩⟩
  · exact ⟨⟨l, piecesOf us, piecesOf init, by simp, hname, rfl, shape (n := .dimensions) hus,
      by rw [hdimensions]; rfl, calm hus (by decide), hus.shown argumentTest_shows (by decide),
      by simpa using htail, hinitialised.1⟩⟩

namespace Declarator

variable {d : Trees} (h : Declarator d)

include h

theorem loose : Angled isLoose (piecesOf d) := by
  rw [h.pieces]
  refine .cons (by simp [isLoose, isSymbol_word (word_of_isName h.isName)]) (h.operands.mono ?_)
  intro p hp
  simp only [isOperand, Bool.and_eq_true] at hp
  exact hp.1

theorem closing : Closing (piecesOf d) := by
  have hword := word_of_isName h.isName
  have hname : Closing [Piece.lexeme h.name] :=
    .piece (isSymbol_word hword _) (isSymbol_word hword _)
  rw [h.pieces, List.cons_append, ← List.singleton_append]
  refine hname.append ((Closing.arguments h.arguments).append ?_)
  rcases h.initialised with he | ⟨e, more, he, hi⟩
  · rw [he]
    exact .nil
  · rw [hi]
    have hother : isArgument e = false := by
      have hc (c : Char) (h : '=' ≠ c) : e.isSymbol c = false := isSymbol_false he h
      simp [isArgument, hc, word_symbol he, isGroup_symbol he, isArrow_symbol he]
    exact .stop (isSymbol_false he (by decide)) (isSymbol_false he (by decide)) hother

theorem going : Going (piecesOf d) := by
  rw [h.pieces]
  have hname : isCalm (lexeme h.name) = true :=
    isCalm_of_word (word_of_isName h.isName) (isWord_of_isName h.isName (by decide))
  have hfront : Going (lexeme h.name :: h.dimensions) :=
    .calm (by simpa using ⟨hname, h.calm⟩)
  refine hfront.append ?_
  rcases h.initialised with he | ⟨e, more, he, hi⟩
  · rw [he]
    exact .calm (by simp)
  · have hsemicolon := operands_no_semicolon h.operands
    rw [hi] at hsemicolon ⊢
    exact .assignment he fun q hq => hsemicolon q (by simp [hq])

/-- The field that the declarator gives is read off it. -/
theorem read (type : Trees) :
    declaratorField? (piecesOf type) (piecesOf d) = Option.some (entry type d) := by
  have hrest : Undimensioned h.initialiser := by
    rcases h.initialised with he | ⟨e, more, he, hi⟩
    · rw [he]
      exact .nil
    · rw [hi]
      exact .cons (isGroup_symbol he _) (isSymbol_false he (by decide))
  rw [h.pieces, List.cons_append, declaratorField?, name_of_identifier h.isName,
    h.dimensional.splitDimensions_eq hrest, entry, h.named, h.spelled]
  rfl

end Declarator

/-- Declarators give their fields in order, and the member goes on behind them. -/
theorem declarators_read (type : Trees) (h : Parses grammar Node.declarators ts) :
    declarators (piecesOf type) (piecesOf ts) =
        (children .variableDeclarator ts).map (entry type) ∧
      Going (piecesOf ts) ∧ ∃ p more, piecesOf ts = p :: more ∧ isName p = true ∧
        ∀ q ∈ more.head?, q.isSymbol '<' = false ∧ q.isGroup '(' = false := by
  obtain ⟨us, vs, hu, hvs, rfl⟩ := commas_inv h
  have hdeclarator {us : Trees} (h : Parses grammar (.node .variableDeclarator) us) :
      ∃ d, Nonempty (Declarator d) ∧ us = [.node .variableDeclarator d] := by
    obtain ⟨d, hd, rfl⟩ := Parses.node_iff.mp h
    exact ⟨d, declarator_inv hd, rfl⟩
  have hread {us : Trees} (h : Parses grammar (.node .variableDeclarator) us) :
      Angled isLoose (piecesOf us) ∧ Closing (piecesOf us) ∧ Going (piecesOf us) := by
    obtain ⟨d, ⟨hd⟩, rfl⟩ := hdeclarator h
    simpa using ⟨hd.loose, hd.closing, hd.going⟩
  have hgoing {vs : List (Lexeme × Trees)} (hvs : ∀ v ∈ vs, (lexeme v.1).isSymbol ',' = true ∧
      Parses grammar (.node .variableDeclarator) v.2) : Going (piecesOf (listed vs)) := by
    induction vs with
    | nil => exact .calm (by simp [listed])
    | cons v vs ih =>
      obtain ⟨hc, hv⟩ := hvs v List.mem_cons_self
      have hcomma : Going [lexeme v.1] :=
        .calm (by simpa using isCalm_of_symbol hc (by decide) (by decide))
      simpa [listed] using
        hcomma.append ((hread hv).2.2.append (ih fun w hw => hvs w (List.mem_cons_of_mem _ hw)))
  refine ⟨?_, ?_, ?_⟩
  · rw [declarators_eq, splitCommas_listed (hread hu).1 fun v hv =>
      ⟨(hvs v hv).1, (hread (hvs v hv).2).1, (hread (hvs v hv).2).2.1⟩]
    refine filterMap_listed ?_ fun v hv => ?_
    · obtain ⟨d, ⟨hd⟩, rfl⟩ := hdeclarator hu
      simp [hd.read type]
    · obtain ⟨d, ⟨hd⟩, he⟩ := hdeclarator (hvs v hv).2
      simp [he, hd.read type]
  · rw [piecesOf_append]
    exact (hread hu).2.2.append (hgoing hvs)
  · obtain ⟨d, ⟨hd⟩, rfl⟩ := hdeclarator hu
    refine ⟨lexeme hd.name, hd.dimensions ++ hd.initialiser ++ piecesOf (listed vs),
      by simp [hd.pieces], hd.isName, fun q hq => ?_⟩
    rw [List.head?_append, List.head?_append, Option.mem_def, Option.or_eq_some_iff,
      Option.or_eq_some_iff] at hq
    have hsymbol {c : Char} (h : q.isSymbol c = true) (hc : c ≠ '<') :
        q.isSymbol '<' = false ∧ q.isGroup '(' = false :=
      ⟨isSymbol_false h hc, isGroup_symbol h _⟩
    rcases hq with (hq | ⟨-, hq⟩) | ⟨-, hq⟩
    · rcases hd.dimensional.head with he | ⟨p, qs, he, hp | hp⟩ <;> rw [he] at hq <;> cases hq
      · exact ⟨isSymbol_group hp _, isGroup_false hp (by decide)⟩
      · exact hsymbol hp (by decide)
    · rcases hd.initialised with he | ⟨e, more, heq, he⟩ <;> rw [he] at hq <;> cases hq
      exact hsymbol heq (by decide)
    · cases vs with
      | nil => cases hq
      | cons v vs =>
        simp only [listed, List.flatMap_cons, List.cons_append, piecesOf_cons, pieces_leaf,
          List.head?_cons, Option.some.injEq] at hq
        subst hq
        exact hsymbol (hvs v List.mem_cons_self).1 (by decide)

-- ---------------------------------------------------------------------------
-- The kinds of members
-- ---------------------------------------------------------------------------

theorem calm_nil : ∀ p ∈ ([] : List Piece), isCalm p = true := by
  simp

theorem calm_cons (hp : isCalm p = true) (h : ∀ q ∈ ps, isCalm q = true) :
    ∀ q ∈ p :: ps, isCalm q = true := by
  simpa using ⟨hp, h⟩

/-- The pieces are cut off a body as one member, which declares the fields. -/
def Member (ps : List Piece) (fields : List Field) : Prop :=
  ∃ m, memberFields m = fields ∧
    ∀ rest, members [] false (ps ++ rest) = m :: members [] false rest

namespace Member

variable {ms : List Piece}

/-- A member that ends with its block. -/
theorem block (hm : Modifiers ms) (hc : ∀ p ∈ ps, isCalm p = true) (hp : p.isGroup '\x7b' = true) :
    Member (ms ++ (ps ++ [p])) (memberFields (ms ++ (ps ++ [p]))) := by
  refine ⟨_, rfl, fun rest => ?_⟩
  simp only [List.append_assoc]
  rw [members_modifiers hm, members_calm hc, List.singleton_append, members_block hp]
  simp

/-- A member that ends with a semicolon. -/
theorem semicolon (hm : Modifiers ms) (hg : Going ps) (hp : p.isSymbol ';' = true) :
    Member (ms ++ (ps ++ [p])) (memberFields (ms ++ ps)) := by
  refine ⟨_, rfl, fun rest => ?_⟩
  simp only [List.append_assoc]
  obtain ⟨assigned, he⟩ := hg ms.reverse false (p :: rest)
  rw [members_modifiers hm, List.singleton_append, he, members_semicolon hp]
  simp

end Member

theorem Modifiers.dropped (h : Modifiers ps) : Dropped ps := by
  obtain ⟨pss, hpss, rfl⟩ := h
  exact .flatten fun qs hq => (hpss qs hq).1

/-- Methods, constructors with type parameters and nested records: behind a name or a type comes a
name with parameters. -/
theorem memberFields_called {ms front type : List Piece} (hm : Modifiers ms)
    (hfront : front = [] ∨ ∃ parameters as, Bracketed parameters ∧ Annotations as ∧
      front = parameters ++ as)
    (ht : Typed type) (hf : Fronted type) (hp : p.word?.isSome = true)
    (hcall : (skipAngles 0 rest).head?.any (·.isGroup '(') = true) :
    memberFields (ms ++ (front ++ (type ++ p :: rest))) = [] := by
  have hdash : (p :: rest).head?.any (·.isSymbol '-') = false := by
    simpa using isSymbol_word hp _
  rcases hfront with rfl | ⟨parameters, as, hparameters, has, rfl⟩
  · have hs : Settled (type ++ p :: rest) := hf.settled hdash
    rw [List.nil_append, memberFields_modified hm.dropped hs,
      memberFields_typed hs hf.skipAngles_append ht (untyped_word hp) (undimensioned_word hp),
      if_pos (by simp [hcall])]
  · have hs : Settled (parameters ++ as ++ (type ++ p :: rest)) := by
      rw [List.append_assoc]
      exact hparameters.settled
    have hskip : skipAngles 0 (parameters ++ as ++ (type ++ p :: rest)) =
        as ++ type ++ p :: rest := by
      rw [List.append_assoc, hparameters.skipAngles_append, List.append_assoc]
    rw [memberFields_modified hm.dropped hs, memberFields_typed hs hskip (ht.annotated has)
      (untyped_word hp) (undimensioned_word hp), if_pos (by simp [hcall])]

-- What the parts of a member look like.

theorem language_shape {n : Node} (h : grammar.Language n ps) : Shape n ps := by
  obtain ⟨ts, h, rfl⟩ := h
  exact shape h

theorem language_calm {n : Node} (hn : calmTest.node n = true) (h : grammar.Language n ps) :
    ∀ p ∈ ps, isCalm p = true := by
  obtain ⟨ts, h, rfl⟩ := h
  simpa using calm (.node h) hn

theorem language_group {n : Node} {c : Char} {r : Rule Terminal Node}
    (hr : grammar.rule n = .group c r) (h : grammar.Language n ps) :
    ∃ g : Piece, g.isGroup c = true ∧ ps = [g] := by
  obtain ⟨ts, h, rfl⟩ := h
  rw [hr] at h
  obtain ⟨o, us, e, he, -, rfl⟩ := Parses.group_iff.mp h
  exact ⟨.group o (piecesOf us) (.some e), isGroup_encloses he _, by simp⟩

theorem modifiers_opt (h : (opt (node .modifiers)).Yields grammar grammar.Language ps) :
    Modifiers ps := by
  rcases h with h | rfl
  · exact language_shape h
  · exact ⟨[], by simp, rfl⟩

theorem calm_opt {n : Node} (hn : calmTest.node n = true)
    (h : (opt (node n)).Yields grammar grammar.Language ps) : ∀ p ∈ ps, isCalm p = true := by
  rcases h with h | rfl
  · exact language_calm hn h
  · simp

theorem calm_append (hp : ∀ p ∈ ps, isCalm p = true) (hq : ∀ p ∈ qs, isCalm p = true) :
    ∀ p ∈ ps ++ qs, isCalm p = true :=
  fun p h => (List.mem_append.mp h).elim (hp p) (hq p)

theorem annotations_read (h : Node.annotations.Yields grammar grammar.Language ps) :
    Annotations ps ∧ ∀ p ∈ ps, isCalm p = true := by
  obtain ⟨pss, hpss, rfl⟩ := h
  refine ⟨⟨pss, fun qs hq => language_shape (hpss qs hq), rfl⟩, fun p hp => ?_⟩
  obtain ⟨qs, hq, hp⟩ := List.mem_flatten.mp hp
  exact language_calm rfl (hpss qs hq) p hp

theorem typeParameters_read
    (h : (opt (inOrder [node .typeParameters, Node.annotations])).Yields grammar grammar.Language
      ps) :
    (ps = [] ∨ ∃ parameters as, Bracketed parameters ∧ Annotations as ∧ ps = parameters ++ as) ∧
      ∀ p ∈ ps, isCalm p = true := by
  rcases h with ⟨parameters, hparameters, as, has, rfl⟩ | rfl
  · obtain ⟨has, hcalm⟩ := annotations_read has
    exact ⟨.inr ⟨_, _, language_shape hparameters, has, rfl⟩,
      calm_append (language_calm rfl hparameters) hcalm⟩
  · exact ⟨.inl rfl, by simp⟩

theorem skipAngles_group {c : Char} (hp : p.isGroup c = true) :
    skipAngles 0 (p :: ps) = p :: ps :=
  skipAngles_zero (by simpa using isSymbol_group hp _)

theorem isCalm_name (h : isName p = true) : isCalm p = true :=
  isCalm_of_word (word_of_isName h) (isWord_of_isName h (by decide))

theorem method_read (h : Parses grammar (Node.rule .methodDeclaration) ts) :
    Member (piecesOf ts) [] := by
  obtain ⟨ms, hms, _, ⟨front, hfront, _, ⟨type, htype, _, ⟨_, hname, _, ⟨_, hparameters, _,
    ⟨ds, hds, _, ⟨throws, hthrows, last, hlast, rfl⟩, rfl⟩, rfl⟩, rfl⟩, rfl⟩, rfl⟩, he⟩ := h.decomposed
  obtain ⟨p, hp, rfl⟩ := language_shape hname
  obtain ⟨g, hg, rfl⟩ := language_group rfl hparameters
  obtain ⟨hfronts, hcalm⟩ := typeParameters_read hfront
  obtain ⟨ht, hf⟩ := language_shape htype
  have hms := modifiers_opt hms
  have hfields (rest : List Piece) :
      memberFields (ms ++ (front ++ (type ++ p :: g :: rest))) = [] :=
    memberFields_called hms hfronts ht hf (word_of_isName hp)
      (by rw [skipAngles_group hg]; simpa using hg)
  have hall : ∀ q ∈ front ++ type ++ p :: g :: (ds ++ throws), isCalm q = true :=
    calm_append (calm_append hcalm (language_calm rfl htype)) <|
      calm_cons (isCalm_name hp) <| calm_cons (isCalm_of_group hg (by decide)) <|
      calm_append (calm_opt rfl hds) (calm_opt rfl hthrows)
  rw [he]
  rcases hlast with hlast | ⟨s, hs, rfl⟩
  · obtain ⟨b, hb, rfl⟩ := language_group rfl hlast
    have hread := Member.block hms hall hb
    simp only [List.append_assoc, List.cons_append, List.nil_append] at hread ⊢
    rwa [hfields] at hread
  · have hread := Member.semicolon hms (.calm hall) (admits_symbol hs)
    simp only [List.append_assoc, List.cons_append, List.nil_append] at hread ⊢
    rwa [hfields] at hread

theorem constructor_read (h : Parses grammar (Node.rule .constructorDeclaration) ts) :
    Member (piecesOf ts) [] := by
  obtain ⟨ms, hms, _, ⟨front, hfront, _, ⟨_, ⟨l, hl, rfl⟩, _, ⟨_, hparameters, _,
    ⟨throws, hthrows, _, hbody, rfl⟩, rfl⟩, rfl⟩, rfl⟩, he⟩ := h.decomposed
  obtain ⟨g, hg, rfl⟩ := language_group rfl hparameters
  obtain ⟨b, hb, rfl⟩ := language_group (c := '\x7b') rfl hbody
  have hname := (admits_typeIdentifier hl).1
  have hms := modifiers_opt hms
  have hfields (rest : List Piece) : memberFields (ms ++ (front ++ lexeme l :: g :: rest)) = [] := by
    have hs : Settled (front ++ lexeme l :: g :: rest) := by
      rcases hfront with hfront | rfl
      · exact (language_shape (n := .typeParameters) hfront).settled
      · exact (fronted_typeIdentifier hl).settled (by simpa using isSymbol_group hg _)
    have hskip : skipAngles 0 (front ++ lexeme l :: g :: rest) = [lexeme l] ++ g :: rest := by
      rcases hfront with hfront | rfl
      · exact (language_shape (n := .typeParameters) hfront).skipAngles_append
      · exact (fronted_typeIdentifier hl).skipAngles_append
    rw [memberFields_modified hms.dropped hs, memberFields_typed hs hskip
      (.word (isTypeWord_of_isName hname)) (untyped_group hg) (undimensioned_group hg (by decide)),
      if_pos (by simp [hg])]
  have hread := Member.block (p := b) hms
    (calm_append (calm_opt rfl hfront) <| calm_cons (isCalm_name hname) <|
      calm_cons (isCalm_of_group hg (by decide)) (calm_opt rfl hthrows)) hb
  rw [he]
  simp only [List.append_assoc, List.cons_append, List.nil_append] at hread ⊢
  rwa [hfields] at hread

theorem compactConstructor_read (h : Parses grammar (Node.rule .compactConstructor) ts) :
    Member (piecesOf ts) [] := by
  obtain ⟨ms, hms, _, ⟨_, ⟨l, hl, rfl⟩, _, hbody, rfl⟩, he⟩ := h.decomposed
  obtain ⟨b, hb, rfl⟩ := language_group (c := '\x7b') rfl hbody
  have hname := (admits_typeIdentifier hl).1
  have hms := modifiers_opt hms
  have hs : Settled ([lexeme l] ++ [b]) :=
    (fronted_typeIdentifier hl).settled (by simpa using isSymbol_group hb _)
  have hsplit : splitCommas 0 [b] = [[b]] := by
    simp [splitCommas, isSymbol_group hb]
  have hfields : memberFields (ms ++ ([lexeme l] ++ [b])) = [] := by
    rw [memberFields_modified hms.dropped hs, memberFields_typed hs
      (fronted_typeIdentifier hl).skipAngles_append (.word (isTypeWord_of_isName hname))
      (untyped_group hb) (undimensioned_group hb (by decide)),
      if_neg (by simp [isGroup_false hb (d := '(') (by decide), skipAngles]), declarators_eq, hsplit]
    simp [declaratorField?, name?, word_group hb]
  have hread := Member.block hms (calm_cons (isCalm_name hname) calm_nil) hb
  rw [he]
  rwa [hfields] at hread

theorem initializer_read {ms : List Piece} (hms : Modifiers ms) (hp : p.isGroup '\x7b' = true) :
    Member (ms ++ [p]) [] := by
  have hs : Settled [p] := .cons (.inl (isSymbol_group hp _)) (isSymbol_group hp _)
    (isGroup_false hp (by decide)) (by simp [modifierWords, isWord_false (word_group hp)])
    (.inl (isWord_false (word_group hp)))
  have hread := Member.block hms calm_nil hp
  rwa [List.nil_append, memberFields_modified hms.dropped hs, memberFields_untyped hs
    (isSymbol_group hp _) (isTypeWord_of_word (word_group hp)) (isSymbol_group hp _)] at hread

theorem block_read (h : Parses grammar (Node.rule .block) ts) : Member (piecesOf ts) [] := by
  obtain ⟨b, hb, he⟩ := language_group (c := '\x7b') (n := .block) rfl ⟨ts, h, rfl⟩
  rw [he]
  have hnone : Modifiers [] := ⟨[], by simp, rfl⟩
  exact initializer_read hnone hb

theorem staticInitializer_read (h : Parses grammar (Node.rule .staticInitializer) ts) :
    Member (piecesOf ts) [] := by
  obtain ⟨_, ⟨l, hl, rfl⟩, _, hbody, he⟩ := h.decomposed
  obtain ⟨b, hb, rfl⟩ := language_group (c := '\x7b') rfl hbody
  have hstatic := admits_word hl
  have hcalm : isCalm (lexeme l) = true := by
    refine isCalm_of_word (word_of_isWord hstatic) ?_
    simp only [Piece.isWord, decide_eq_true_eq] at hstatic
    simp [Piece.isWord, hstatic]
  have hms : Modifiers [lexeme l] :=
    ⟨[[lexeme l]],
      by simpa using ⟨.word (List.any_eq_true.mpr ⟨_, by decide, hstatic⟩), .inl hcalm⟩, rfl⟩
  rw [he]
  exact initializer_read hms hb

theorem field_read {n : Node} (hn : n = .fieldDeclaration ∨ n = .constantDeclaration)
    (h : Parses grammar n.rule ts) : Member (piecesOf ts) (entries (.node n ts)) := by
  have hrule : n.rule = inOrder [opt (node .modifiers), node .unannotatedType, Node.declarators,
      Node.sym ';'] := by
    rcases hn with rfl | rfl <;> rfl
  rw [hrule] at h
  obtain ⟨ms, _, hms, hbehind, rfl⟩ := Parses.seq_iff.mp h
  obtain ⟨_, _, hnode, htail, rfl⟩ := Parses.seq_iff.mp hbehind
  obtain ⟨type, htype, rfl⟩ := Parses.node_iff.mp hnode
  obtain ⟨ds, _, hds, hend, rfl⟩ := Parses.seq_iff.mp htail
  obtain ⟨s, hs, rfl⟩ := Parses.token_iff.mp hend
  obtain ⟨hfields, hgoing, p, more, hpieces, hp, hmore⟩ := declarators_read type hds
  obtain ⟨ht, hf⟩ : Typed (piecesOf type) ∧ Fronted (piecesOf type) :=
    shape (n := .unannotatedType) htype
  have hms' : Modifiers (piecesOf ms) := modifiers_opt hms.decomposed
  have hentries : entries (.node n (ms ++ ([.node .unannotatedType type] ++ (ds ++ [.leaf s])))) =
      (children .variableDeclarator ds).map (entry type) := by
    have hchildren : children .unannotatedType ms = [] ∧ children .variableDeclarator ms = [] := by
      rcases Parses.opt_iff.mp hms with hms | rfl
      · obtain ⟨us, -, rfl⟩ := Parses.node_iff.mp hms
        exact ⟨rfl, rfl⟩
      · exact ⟨rfl, rfl⟩
    have hall (us : Trees) : children .variableDeclarator
        (ms ++ ([.node .unannotatedType type] ++ (us ++ [.leaf s]))) =
          children .variableDeclarator us := by
      simp [hchildren.2, children_other]
    have htype : child .unannotatedType
        (ms ++ ([.node .unannotatedType type] ++ (ds ++ [.leaf s]))) = type := by
      simp [child, hchildren.1]
    rcases hn with rfl | rfl <;> rw [entries, hall, htype]
  have hmember : memberFields (piecesOf ms ++ (piecesOf type ++ piecesOf ds)) =
      declarators (piecesOf type) (piecesOf ds) := by
    have hword := word_of_isName hp
    have hs : Settled (piecesOf type ++ piecesOf ds) :=
      hf.settled (by simpa [hpieces] using isSymbol_word hword _)
    have hskip : skipAngles 0 more = more := by
      cases more with
      | nil => rfl
      | cons q more => exact skipAngles_zero (by simpa using (hmore q rfl).1)
    rw [memberFields_modified hms'.dropped hs, hpieces, memberFields_typed (hpieces ▸ hs)
      hf.skipAngles_append ht (untyped_word hword) (undimensioned_word hword), hskip, if_neg]
    rw [isGroup_word hword, Bool.false_or, Option.any_eq_true]
    rintro ⟨q, hq, hg⟩
    rw [(hmore q hq).2] at hg
    cases hg
  have hread := Member.semicolon (p := lexeme s) hms'
    (.append (.calm (calm htype (by decide))) hgoing) (admits_symbol hs)
  rw [hmember, hfields] at hread
  rw [hentries]
  simpa using hread

theorem annotationElement_read (h : Parses grammar (Node.rule .annotationElement) ts) :
    Member (piecesOf ts) [] := by
  obtain ⟨ms, hms, _, ⟨type, htype, _, ⟨_, hname, _, ⟨_, ⟨o, inner, e, henclosed, -, rfl⟩, _,
    ⟨ds, hds, _, ⟨value, hvalue, _, ⟨s, hs, rfl⟩, rfl⟩, rfl⟩, rfl⟩, rfl⟩, rfl⟩, he⟩ := h.decomposed
  obtain ⟨p, hp, rfl⟩ := language_shape hname
  obtain ⟨ht, hf⟩ := language_shape htype
  have hg := isGroup_encloses henclosed inner
  generalize group o inner (Option.some e) = g at he hg
  have hms := modifiers_opt hms
  have hfields (rest : List Piece) : memberFields (ms ++ (type ++ p :: g :: rest)) = [] := by
    have hcall : (skipAngles 0 (g :: rest)).head?.any (·.isGroup '(') = true := by
      rw [skipAngles_group hg]
      simpa using hg
    simpa using memberFields_called hms (.inl rfl) ht hf (word_of_isName hp) hcall
  have hcalm : ∀ q ∈ type ++ p :: g :: ds, isCalm q = true :=
    calm_append (language_calm rfl htype) <| calm_cons (isCalm_name hp) <|
      calm_cons (isCalm_of_group hg (by decide)) (calm_opt rfl hds)
  have hs := admits_symbol hs
  rcases hvalue with ⟨_, ⟨d, hd, rfl⟩, value, ⟨vs, hvs, rfl⟩, rfl⟩ | rfl
  · have hd := admits_word hd
    have hword := word_of_isWord hd
    have hvalue := operands_no_semicolon
      (by simpa using (Parses.node hvs).shown expressionTest_shows (by decide))
    have hsettled : Settled (type ++ p :: g :: ds) :=
      hf.settled (by simpa using isSymbol_word (word_of_isName hp) _)
    have hstarts : startsDefault ((type ++ p :: g :: ds).reverse ++ ms.reverse) (lexeme d) = true := by
      have hdrop : dropModifiers .outside (ms ++ (type ++ p :: g :: ds)) = type ++ p :: g :: ds :=
        hms.dropped _ _ hsettled .outside trivial
      rw [startsDefault, hd, ← List.reverse_append, List.reverse_reverse, hdrop]
      simp
    refine ⟨ms ++ (type ++ p :: g :: (ds ++ lexeme d :: piecesOf vs)), hfields _, fun rest => ?_⟩
    have hread : piecesOf ts ++ rest =
        ms ++ ((type ++ p :: g :: ds) ++ lexeme d :: (piecesOf vs ++ lexeme s :: rest)) := by
      rw [he]
      simp
    rw [hread, members_modifiers hms, members_calm hcalm, members,
      if_neg (by simp [isSymbol_word hword]), if_neg (by simp [isGroup_word hword]), hstarts,
      Bool.or_true, members_assigned hvalue, members_semicolon hs]
    simp
  · have hread := Member.semicolon hms (.calm hcalm) hs
    rw [hfields] at hread
    rw [he]
    simpa using hread

/-- Nested types that a reserved word introduces. -/
theorem keyword_read {ms : List Piece} {k : String} {g : Piece} (hms : Modifiers ms)
    (hp : p.isWord k = true) (hk : k ∈ ["class", "interface", "enum"])
    (hcalm : ∀ q ∈ ps, isCalm q = true) (hg : g.isGroup '\x7b' = true) :
    Member (ms ++ (p :: ps ++ [g])) [] := by
  have hword := word_of_isWord hp
  have hother {w : String} (h : w ∉ ["class", "interface", "enum"]) : p.isWord w = false := by
    simp only [Piece.isWord, decide_eq_true_eq] at hp
    simp only [Piece.isWord, hp, Option.some.injEq, decide_eq_false_iff_not]
    rintro rfl
    exact h hk
  have hreserved : k ∈ reserved :=
    (by decide : ∀ k ∈ ["class", "interface", "enum"], k ∈ reserved) k hk
  have htype : isTypeWord p = false := by
    rw [isTypeWord, ← isName, isName_of_isWord hp hreserved, Bool.false_or, List.any_eq_false]
    intro w hw
    simpa using hother ((by decide : ∀ w ∈ primitive, w ∉ ["class", "interface", "enum"]) w hw)
  have hsettled : Settled (p :: (ps ++ [g])) :=
    .cons (.inl (isSymbol_word hword _)) (isSymbol_word hword _) (isGroup_word hword _)
      (List.any_eq_false.mpr fun w hw => by
        simpa using
          hother ((by decide : ∀ w ∈ modifierWords, w ∉ ["class", "interface", "enum"]) w hw))
      (.inl (hother (by decide)))
  have hread := Member.block hms (calm_cons (isCalm_of_word hword (hother (by decide))) hcalm) hg
  rwa [List.cons_append, memberFields_modified hms.dropped hsettled, memberFields_untyped hsettled
    (isSymbol_word hword _) htype (isSymbol_word hword _)] at hread

theorem class_read (h : Parses grammar (Node.rule .classDeclaration) ts) :
    Member (piecesOf ts) [] := by
  obtain ⟨ms, hms, _, ⟨_, ⟨l, hl, rfl⟩, _, ⟨name, hname, _, ⟨ps, hps, _, ⟨qs, hqs, _, ⟨rs, hrs, _,
    ⟨ss, hss, _, hbody, rfl⟩, rfl⟩, rfl⟩, rfl⟩, rfl⟩, rfl⟩, he⟩ := h.decomposed
  obtain ⟨g, hg, rfl⟩ := language_group rfl hbody
  have hcalm : ∀ q ∈ name ++ (ps ++ (qs ++ (rs ++ ss))), isCalm q = true :=
    calm_append (language_calm rfl hname) <| calm_append (calm_opt rfl hps) <|
      calm_append (calm_opt rfl hqs) <| calm_append (calm_opt rfl hrs) (calm_opt rfl hss)
  rw [he]
  simpa using keyword_read (modifiers_opt hms) (admits_word hl) (by decide) hcalm hg

theorem interface_read (h : Parses grammar (Node.rule .interfaceDeclaration) ts) :
    Member (piecesOf ts) [] := by
  obtain ⟨ms, hms, _, ⟨_, ⟨l, hl, rfl⟩, _, ⟨name, hname, _, ⟨ps, hps, _, ⟨qs, hqs, _, ⟨rs, hrs, _,
    hbody, rfl⟩, rfl⟩, rfl⟩, rfl⟩, rfl⟩, he⟩ := h.decomposed
  obtain ⟨g, hg, rfl⟩ := language_group rfl hbody
  have hcalm : ∀ q ∈ name ++ (ps ++ (qs ++ rs)), isCalm q = true :=
    calm_append (language_calm rfl hname) <| calm_append (calm_opt rfl hps) <|
      calm_append (calm_opt rfl hqs) (calm_opt rfl hrs)
  rw [he]
  simpa using keyword_read (modifiers_opt hms) (admits_word hl) (by decide) hcalm hg

theorem enum_read (h : Parses grammar (Node.rule .enumDeclaration) ts) :
    Member (piecesOf ts) [] := by
  obtain ⟨ms, hms, _, ⟨_, ⟨l, hl, rfl⟩, _, ⟨name, hname, _, ⟨ps, hps, _, hbody, rfl⟩, rfl⟩, rfl⟩,
    he⟩ := h.decomposed
  obtain ⟨g, hg, rfl⟩ := language_group rfl hbody
  have hcalm : ∀ q ∈ name ++ ps, isCalm q = true :=
    calm_append (language_calm rfl hname) (calm_opt rfl hps)
  rw [he]
  simpa using keyword_read (modifiers_opt hms) (admits_word hl) (by decide) hcalm hg

theorem record_read (h : Parses grammar (Node.rule .recordDeclaration) ts) :
    Member (piecesOf ts) [] := by
  obtain ⟨ms, hms, _, ⟨_, ⟨l, hl, rfl⟩, _, ⟨_, hname, _, ⟨ps, hps, _, ⟨_, hparameters, _, ⟨qs, hqs,
    _, hbody, rfl⟩, rfl⟩, rfl⟩, rfl⟩, rfl⟩, he⟩ := h.decomposed
  obtain ⟨p, hp, rfl⟩ := language_shape hname
  obtain ⟨g, hg, rfl⟩ := language_group rfl hparameters
  obtain ⟨b, hb, rfl⟩ := language_group rfl hbody
  have hl := admits_word hl
  have hword := word_of_isWord hl
  have hother {w : String} (h : w ≠ "record") : (lexeme l).isWord w = false := by
    simp only [Piece.isWord, decide_eq_true_eq] at hl
    simp [Piece.isWord, hl, h.symm]
  have htype : isTypeWord (lexeme l) = true := by
    simp only [Piece.isWord, decide_eq_true_eq] at hl
    refine isTypeWord_of_isName (isName_iff.mpr ⟨_, hl, by decide, by decide⟩)
  have hfronted : Fronted [lexeme l] :=
    ⟨_, [], rfl, htype, List.any_eq_false.mpr fun w hw => by
      simpa using hother (by rintro rfl; exact absurd hw (by decide)), rfl⟩
  have hskip (rest : List Piece) : skipAngles 0 (ps ++ g :: rest) = g :: rest := by
    rcases hps with hps | rfl
    · exact (language_shape (n := .typeParameters) hps).skipAngles_append
    · exact skipAngles_group hg
  have hfields (rest : List Piece) : memberFields (ms ++ (lexeme l :: p :: (ps ++ g :: rest))) = [] := by
    have hcall : (skipAngles 0 (ps ++ g :: rest)).head?.any (·.isGroup '(') = true := by
      rw [hskip]
      simpa using hg
    simpa using memberFields_called (modifiers_opt hms) (.inl rfl) (.word htype) hfronted
      (word_of_isName hp) hcall
  have hread := Member.block (modifiers_opt hms)
    (calm_cons (isCalm_of_word hword (hother (by decide))) <| calm_cons (isCalm_name hp) <|
      calm_append (calm_opt rfl hps) <| calm_cons (isCalm_of_group hg (by decide))
        (calm_opt rfl hqs)) hb
  rw [he]
  simp only [List.append_assoc, List.cons_append, List.nil_append] at hread ⊢
  rwa [hfields] at hread

theorem annotationType_read (h : Parses grammar (Node.rule .annotationTypeDeclaration) ts) :
    Member (piecesOf ts) [] := by
  obtain ⟨ms, hms, _, ⟨_, ⟨_, ⟨a, ha, rfl⟩, _, ⟨l, hl, rfl⟩, rfl⟩, _, ⟨_, hname, _, hbody, rfl⟩, rfl⟩,
    he⟩ := h.decomposed
  obtain ⟨p, hp, rfl⟩ := language_shape hname
  obtain ⟨g, hg, rfl⟩ := language_group rfl hbody
  have ha := admits_symbol ha
  have hl := admits_word hl
  have hword := word_of_isWord hl
  have hpword := word_of_isName hp
  have hname : isName (lexeme l) = false := isName_of_isWord hl (by decide)
  have hsettled : Settled (lexeme a :: lexeme l :: p :: [g]) :=
    .cons (.inr (by simpa using hl)) (isSymbol_false ha (by decide)) (isGroup_symbol ha _)
      (by simp [modifierWords, isWord_false (word_symbol ha)])
      (.inl (isWord_false (word_symbol ha)))
  have htype : readType (lexeme a :: lexeme l :: p :: [g]) =
      ([lexeme a], lexeme l :: p :: [g]) := by
    rw [isName] at hname
    simp [readType, splitType, isTypeWord_of_word (word_symbol ha), ha, hname, splitDimensions,
      isSymbol_word hword, isGroup_word hword]
  have hsplit : splitCommas 0 (lexeme l :: p :: [g]) = [[lexeme l, p, g]] := by
    simp [splitCommas, isSymbol_word hword, isSymbol_word hpword, isSymbol_group hg]
  have hfields : memberFields (ms ++ (lexeme a :: lexeme l :: p :: [g])) = [] := by
    have hskip (q : Piece) (qs : List Piece) (h : q.isSymbol '<' = false) :
        skipAngles 0 (q :: qs) = q :: qs := skipAngles_zero (by simpa using h)
    rw [memberFields_modified (modifiers_opt hms).dropped hsettled, memberFields,
      hsettled .outside trivial, hskip _ _ (isSymbol_false ha (by decide)), htype]
    simp only [hskip _ _ (isSymbol_word hpword _), List.head?_cons, Option.any_some,
      isGroup_word hword, isGroup_word hpword, Bool.or_self, Bool.false_eq_true, if_false]
    rw [isName, Option.isSome_eq_false_iff, Option.isNone_iff_eq_none] at hname
    simp [declarators_eq, hsplit, declaratorField?, hname]
  have hread := Member.block (p := g) (modifiers_opt hms)
    (calm_cons (isCalm_of_symbol ha (by decide) (by decide)) <|
      calm_cons (isCalm_of_word hword (by
        simp only [Piece.isWord, decide_eq_true_eq] at hl
        simp [Piece.isWord, hl])) <|
      calm_cons (isCalm_name hp) calm_nil) hg
  rw [he]
  simp only [List.cons_append, List.nil_append] at hread ⊢
  rwa [hfields] at hread

-- ---------------------------------------------------------------------------
-- Bodies
-- ---------------------------------------------------------------------------

/-- Every member of a class, an interface or an annotation type declares what its node declares. -/
theorem member_read {n : Node}
    (hn : n ∈ Node.members ∨ n ∈ Node.interfaceMembers ∨ n ∈ Node.annotationMembers)
    (h : Parses grammar n.rule ts) : Member (piecesOf ts) (entries (.node n ts)) := by
  cases n
  case fieldDeclaration => exact field_read (.inl rfl) h
  case constantDeclaration => exact field_read (.inr rfl) h
  case methodDeclaration => exact method_read h
  case constructorDeclaration => exact constructor_read h
  case compactConstructor => exact compactConstructor_read h
  case block => exact block_read h
  case staticInitializer => exact staticInitializer_read h
  case annotationElement => exact annotationElement_read h
  case classDeclaration => exact class_read h
  case interfaceDeclaration => exact interface_read h
  case enumDeclaration => exact enum_read h
  case recordDeclaration => exact record_read h
  case annotationTypeDeclaration => exact annotationType_read h
  all_goals exact absurd hn (by decide)

theorem memberFields_nil : memberFields [] = [] := rfl

/-- The fields of a body are those of its members, in order. -/
theorem body_read {kinds : List Node}
    (hkinds : kinds = Node.members ∨ kinds = Node.interfaceMembers ∨ kinds = Node.annotationMembers)
    (h : Parses grammar (Node.membersOf kinds) ts) :
    bodyFields (piecesOf ts) = ts.flatMap entries := by
  have hitem {us : Trees} (h : Parses grammar (oneOf (Node.sym ';' :: kinds.map node)) us) :
      Member (piecesOf us) (us.flatMap entries) := by
    obtain ⟨r, hr, hp⟩ := Parses.of_oneOf (by simp) h
    rcases List.mem_cons.mp hr with rfl | hr
    · obtain ⟨l, hl, rfl⟩ := Parses.token_iff.mp hp
      refine ⟨[], memberFields_nil, fun rest => ?_⟩
      have hread : members [] false (lexeme l :: rest) = [] :: members [] false rest :=
        members_semicolon (admits_symbol hl)
      simpa using hread
    · obtain ⟨n, hn, rfl⟩ := List.mem_map.mp hr
      obtain ⟨us, hu, rfl⟩ := Parses.node_iff.mp hp
      simpa using member_read (by rcases hkinds with rfl | rfl | rfl <;> simp [hn]) hu
  obtain ⟨tss, htss, rfl⟩ := Parses.many_iff.mp h
  clear h
  induction tss with
  | nil => rfl
  | cons us tss ih =>
    obtain ⟨m, hm, hcut⟩ := hitem (htss us List.mem_cons_self)
    rw [bodyFields] at ih ⊢
    rw [List.flatten_cons, piecesOf_append, hcut, List.flatMap_cons, hm, List.flatMap_append,
      ih fun vs hv => htss vs (List.mem_cons_of_mem _ hv)]

end Scaffold.Source.Java
