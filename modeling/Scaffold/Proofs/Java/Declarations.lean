import Scaffold.Proofs.Java.Components

/-!
# Type declarations

A declaration is read off its pieces as its tree says, up to its last piece:
its name, the fields of its components if it is a record, and those of its
members.
-/

namespace Scaffold.Source.Java

open Piece Source.Tree Rule

variable {p : Piece} {ps qs rest : List Piece} {ts : Trees}

-- ---------------------------------------------------------------------------
-- Headers
-- ---------------------------------------------------------------------------

/-- A piece that may stand between the name of a declaration and its body. -/
def isHeader (p : Piece) : Bool :=
  !p.isGroup '\x7b' && ((name? p).isSome || headerWords.any p.isWord || primitive.any p.isWord ||
    p.isGroup '(' || p.isGroup '[' || ['.', ',', '<', '>', '?', '&', '@'].any p.isSymbol)

theorem findBody_header (h : ∀ p ∈ ps, isHeader p = true) :
    findBody? (ps ++ rest) = findBody? rest := by
  induction ps with
  | nil => rfl
  | cons p ps ih =>
    have hp := h p List.mem_cons_self
    rw [isHeader, Bool.and_eq_true, Bool.not_eq_true'] at hp
    have hbrace : p.group? '\x7b' = none := by simpa [isGroup] using hp.1
    rw [List.cons_append, findBody?, hbrace]
    simp only []
    rw [if_pos hp.2, ih fun q hq => h q (List.mem_cons_of_mem _ hq)]

theorem findBody_body {body : List Piece} (h : p.group? '\x7b' = some body) :
    findBody? (p :: rest) = some (body, rest) := by
  rw [findBody?, h]

theorem isHeader_name (h : isName p = true) : isHeader p = true := by
  rw [isName] at h
  simp [isHeader, isGroup_word (word_of_isName h), h]

theorem isHeader_word {w : String} (h : p.isWord w = true) (hw : w ∈ headerWords ++ primitive) :
    isHeader p = true := by
  have : headerWords.any p.isWord || primitive.any p.isWord := by
    rw [← List.any_append]
    exact List.any_eq_true.mpr ⟨w, hw, h⟩
  rw [isHeader, isGroup_word (word_of_isWord h), Bool.or_assoc (name? p).isSome, this]
  simp

theorem isHeader_symbol {c : Char} (h : p.isSymbol c = true)
    (hc : c ∈ ['.', ',', '<', '>', '?', '&', '@']) : isHeader p = true := by
  have : ['.', ',', '<', '>', '?', '&', '@'].any p.isSymbol = true := List.any_eq_true.mpr ⟨c, hc, h⟩
  rw [isHeader, isGroup_symbol h, this]
  simp

theorem isHeader_group {c : Char} (h : p.isGroup c = true) (hc : c = '(' ∨ c = '[') :
    isHeader p = true := by
  rcases hc with rfl | rfl <;> simp [isHeader, isGroup_false h, h]

def headerTest : Test Terminal Node where
  token
    | .identifier | .typeIdentifier => true
    | .word w => w ∈ headerWords ++ primitive || w = "permits"
    | .symbol c => c ∈ ['.', ',', '<', '>', '?', '&', '@']
    | .arrow | .decrement | .number | .character | .string .. => false
  group c := c = '(' || c = '['
  angles := true
  node n := n.inTypes || n ∈ [.superclass, .superInterfaces, .extendsInterfaces, .permits]

theorem header {r : Rule Terminal Node} (h : Parses grammar r ts)
    (hr : r.passes headerTest = true) : ∀ p ∈ piecesOf ts, isHeader p = true := by
  refine h.shown (shows_all ?_ ?_ ?_ ?_) hr
  · intro t l ht hl
    cases t with
    | identifier => exact isHeader_name (admits_identifier hl)
    | typeIdentifier => exact isHeader_name (admits_typeIdentifier hl).1
    | symbol c => exact isHeader_symbol (admits_symbol hl) (by simpa [headerTest] using ht)
    | word w =>
      have hw := admits_word hl
      rcases Bool.or_eq_true_iff.mp ht with ht | ht
      · exact isHeader_word hw (of_decide_eq_true ht)
      · obtain rfl := of_decide_eq_true ht
        simp only [Piece.isWord, decide_eq_true_eq] at hw
        exact isHeader_name (isName_iff.mpr ⟨_, hw, by decide, by decide⟩)
    | arrow | decrement | number | character | string => cases ht
  · intro c p hc hp
    exact isHeader_group hp (by simpa [headerTest] using hc)
  · rintro - p (hp | hp)
    · exact isHeader_symbol hp (by decide)
    · exact isHeader_symbol hp (by decide)
  · intro n hn
    cases n <;> first | decide | cases hn

theorem header_append (hp : ∀ p ∈ ps, isHeader p = true) (hq : ∀ p ∈ qs, isHeader p = true) :
    ∀ p ∈ ps ++ qs, isHeader p = true :=
  fun p h => (List.mem_append.mp h).elim (hp p) (hq p)

theorem header_opt {n : Node} (hn : headerTest.node n = true)
    (h : Parses grammar (opt (node n)) ts) : ∀ p ∈ piecesOf ts, isHeader p = true :=
  header h (by simpa [opt, passes] using hn)

-- ---------------------------------------------------------------------------
-- Declarations
-- ---------------------------------------------------------------------------

/-- From the keyword on, a declaration is read up to its body. -/
theorem typeDeclaration_read (kind : TypeKind) (rest : List Piece) {ms tail : List Piece}
    {name : String}
    {header body : List Piece} {b : Piece} (hms : Modifiers ms) (hs : Settled tail)
    (hkeyword : typeKeyword? tail = some (kind, p :: (header ++ b :: rest)))
    (hkind : kind ≠ .record) (hname : name? p = some name)
    (hheader : ∀ q ∈ header, isHeader q = true) (hb : b.group? '\x7b' = some body) :
    typeDeclaration? (ms ++ tail) = some (⟨name, fieldsOf kind [] body⟩, rest) := by
  have hdrop : dropModifiers .outside (ms ++ tail) = tail := hms.dropped _ _ hs .outside trivial
  simp [typeDeclaration?, introduced?, hdrop, hkeyword, hname, hkind, findBody_header hheader,
    findBody_body hb]

theorem recordDeclaration_read (rest : List Piece) {ms tail : List Piece} {name : String} {q b : Piece}
    {parameters header body : List Piece} (hms : Modifiers ms) (hs : Settled tail)
    (hkeyword : typeKeyword? tail = some (.record, p :: (ps ++ q :: (header ++ b :: rest))))
    (hname : name? p = some name) (hps : ps = [] ∨ Bracketed ps)
    (hq : q.group? '(' = some parameters) (hheader : ∀ q ∈ header, isHeader q = true)
    (hb : b.group? '\x7b' = some body) :
    typeDeclaration? (ms ++ tail) = some (⟨name, fieldsOf .record parameters body⟩, rest) := by
  have hdrop : dropModifiers .outside (ms ++ tail) = tail := hms.dropped _ _ hs .outside trivial
  have hskip (rest : List Piece) : skipAngles 0 (ps ++ q :: rest) = q :: rest := by
    rcases hps with rfl | hps
    · exact skipAngles_group (c := '(') (by simp [isGroup, hq])
    · exact hps.skipAngles_append
  simp [typeDeclaration?, introduced?, hdrop, hkeyword, hname, hskip, hq, findBody_header hheader,
    findBody_body hb]

-- ---------------------------------------------------------------------------
-- The kinds of declarations
-- ---------------------------------------------------------------------------

/-- The declaration is read off its pieces, whatever follows them. -/
def Read (n : Node) (ts : Trees) : Prop :=
  ∀ rest, typeDeclaration? (piecesOf ts ++ rest) =
    some ((⟨n, ts⟩ : Declared).declaration, rest)

theorem children_opt {n m : Node} (h : Parses grammar (opt (node m)) ts) (hm : m ≠ n) :
    children n ts = [] := by
  rcases Parses.opt_iff.mp h with h | rfl
  · obtain ⟨us, -, rfl⟩ := Parses.node_iff.mp h
    exact children_other hm ..
  · rfl

/-- A name as a node of its own. -/
theorem identifier_inv (h : Parses grammar (node .identifier) ts) :
    ∃ l, name? (lexeme l) = some l.text ∧ isName (lexeme l) = true ∧
      ts = [.node .identifier [.leaf l]] := by
  obtain ⟨us, hu, rfl⟩ := Parses.node_iff.mp h
  obtain ⟨l, hl, rfl⟩ := Parses.token_iff.mp hu
  have hname := admits_identifier hl
  exact ⟨l, name_of_identifier hname, hname, rfl⟩

/-- A body as a node of its own. -/
theorem body_inv {n : Node} {r : Rule Terminal Node} (hr : n.rule = Node.braces r)
    (h : Parses grammar (node n) ts) : ∃ o us e, Parses grammar r us ∧
      (group o (piecesOf us) (Option.some e)).group? '\x7b' = Option.some (piecesOf us) ∧
      ts = [.node n [.group o us e]] := by
  obtain ⟨us, hu, rfl⟩ := Parses.node_iff.mp h
  rw [show grammar.rule n = Node.braces r from hr] at hu
  obtain ⟨o, us, e, he, hr, rfl⟩ := Parses.group_iff.mp hu
  exact ⟨o, us, e, hr, by simp [group?, he.bracket], rfl⟩

theorem settled_keyword {k : String} (hp : p.isWord k = true)
    (hk : k ∈ ["class", "interface", "enum", "record"]) : Settled (p :: ps) := by
  have hword := word_of_isWord hp
  have hother {w : String} (h : w ∉ ["class", "interface", "enum", "record"]) :
      p.isWord w = false := by
    simp only [Piece.isWord, decide_eq_true_eq] at hp
    simp only [Piece.isWord, hp, Option.some.injEq, decide_eq_false_iff_not]
    rintro rfl
    exact h hk
  exact .cons (.inl (isSymbol_word hword _)) (isSymbol_word hword _) (isGroup_word hword _)
    (List.any_eq_false.mpr fun w hw => by
      simpa using hother
        ((by decide : ∀ w ∈ modifierWords, w ∉ ["class", "interface", "enum", "record"]) w hw))
    (.inl (hother (by decide)))

theorem typeKeyword_word {k : String} {kind : TypeKind} (hp : p.isWord k = true)
    (hk : (k, kind) ∈ [("class", TypeKind.plain), ("interface", .plain), ("enum", .enumeration),
      ("record", .record)]) : typeKeyword? (p :: ps) = some (kind, ps) := by
  simp only [Piece.isWord, decide_eq_true_eq] at hp
  simp only [List.mem_cons, Prod.mk.injEq, List.not_mem_nil, or_false] at hk
  rcases hk with ⟨rfl, rfl⟩ | ⟨rfl, rfl⟩ | ⟨rfl, rfl⟩ | ⟨rfl, rfl⟩ <;>
    simp [typeKeyword?, Piece.isWord, hp]

theorem classDeclaration_read (h : Parses grammar (Node.rule .classDeclaration) ts) :
    Read .classDeclaration ts := by
  obtain ⟨ms, _, hms, h1, rfl⟩ := Parses.seq_iff.mp h
  obtain ⟨_, _, hk, h2, rfl⟩ := Parses.seq_iff.mp h1
  obtain ⟨_, _, hn, h3, rfl⟩ := Parses.seq_iff.mp h2
  obtain ⟨ps, _, hps, h4, rfl⟩ := Parses.seq_iff.mp h3
  obtain ⟨qs, _, hqs, h5, rfl⟩ := Parses.seq_iff.mp h4
  obtain ⟨rs, _, hrs, h6, rfl⟩ := Parses.seq_iff.mp h5
  obtain ⟨ss, _, hss, hbody, rfl⟩ := Parses.seq_iff.mp h6
  obtain ⟨k, hkeyword, rfl⟩ := Parses.token_iff.mp hk
  obtain ⟨l, hname, -, rfl⟩ := identifier_inv hn
  obtain ⟨o, us, e, hu, hb, rfl⟩ := body_inv rfl hbody
  intro rest
  have hheader : ∀ q ∈ piecesOf ps ++ (piecesOf qs ++ (piecesOf rs ++ piecesOf ss)),
      isHeader q = true :=
    header_append (header_opt rfl hps) <| header_append (header_opt rfl hqs) <|
      header_append (header_opt rfl hrs) (header_opt rfl hss)
  have hread := typeDeclaration_read .plain rest (modifiers_opt hms.decomposed)
    (settled_keyword (admits_word hkeyword) (by decide))
    (typeKeyword_word (admits_word hkeyword) (by decide)) (by decide) hname hheader hb
  have hdeclaration : Declared.declaration ⟨.classDeclaration, ms ++ ([.leaf k] ++
      ([.node .identifier [.leaf l]] ++ (ps ++ (qs ++ (rs ++ (ss ++
        [.node .classBody [.group o us e]]))))))⟩ = ⟨l.text, us.flatMap entries⟩ := by
    simp [Declared.declaration, nameOf, fieldsIn, membersIn, child, between,
      children_opt hms, children_opt hps, children_opt hqs, children_opt hrs, children_opt hss,
      children_other]
  rw [hdeclaration, ← body_read (.inl rfl) hu]
  simpa [fieldsOf] using hread

theorem interfaceDeclaration_read (h : Parses grammar (Node.rule .interfaceDeclaration) ts) :
    Read .interfaceDeclaration ts := by
  obtain ⟨ms, _, hms, h1, rfl⟩ := Parses.seq_iff.mp h
  obtain ⟨_, _, hk, h2, rfl⟩ := Parses.seq_iff.mp h1
  obtain ⟨_, _, hn, h3, rfl⟩ := Parses.seq_iff.mp h2
  obtain ⟨ps, _, hps, h4, rfl⟩ := Parses.seq_iff.mp h3
  obtain ⟨qs, _, hqs, h5, rfl⟩ := Parses.seq_iff.mp h4
  obtain ⟨rs, _, hrs, hbody, rfl⟩ := Parses.seq_iff.mp h5
  obtain ⟨k, hkeyword, rfl⟩ := Parses.token_iff.mp hk
  obtain ⟨l, hname, -, rfl⟩ := identifier_inv hn
  obtain ⟨o, us, e, hu, hb, rfl⟩ := body_inv rfl hbody
  intro rest
  have hheader : ∀ q ∈ piecesOf ps ++ (piecesOf qs ++ piecesOf rs), isHeader q = true :=
    header_append (header_opt rfl hps) <| header_append (header_opt rfl hqs) (header_opt rfl hrs)
  have hread := typeDeclaration_read .plain rest (modifiers_opt hms.decomposed)
    (settled_keyword (admits_word hkeyword) (by decide))
    (typeKeyword_word (admits_word hkeyword) (by decide)) (by decide) hname hheader hb
  have hdeclaration : Declared.declaration ⟨.interfaceDeclaration, ms ++ ([.leaf k] ++
      ([.node .identifier [.leaf l]] ++ (ps ++ (qs ++ (rs ++
        [.node .interfaceBody [.group o us e]])))))⟩ = ⟨l.text, us.flatMap entries⟩ := by
    simp [Declared.declaration, nameOf, fieldsIn, membersIn, child, between,
      children_opt hms, children_opt hps, children_opt hqs, children_opt hrs, children_other]
  rw [hdeclaration, ← body_read (.inr (.inl rfl)) hu]
  simpa [fieldsOf] using hread

theorem annotationTypeDeclaration_read
    (h : Parses grammar (Node.rule .annotationTypeDeclaration) ts) :
    Read .annotationTypeDeclaration ts := by
  obtain ⟨ms, _, hms, h1, rfl⟩ := Parses.seq_iff.mp h
  obtain ⟨_, _, hk, h2, rfl⟩ := Parses.seq_iff.mp h1
  obtain ⟨_, _, hn, hbody, rfl⟩ := Parses.seq_iff.mp h2
  obtain ⟨_, _, hat, hinterface, rfl⟩ := Parses.seq_iff.mp hk
  obtain ⟨a, ha, rfl⟩ := Parses.token_iff.mp hat
  obtain ⟨k, hkeyword, rfl⟩ := Parses.token_iff.mp hinterface
  obtain ⟨l, hname, -, rfl⟩ := identifier_inv hn
  obtain ⟨o, us, e, hu, hb, rfl⟩ := body_inv rfl hbody
  have ha := admits_symbol ha
  have hword : (lexeme a).word? = none := word_symbol ha
  have hsettled (rest : List Piece) : Settled (lexeme a :: lexeme k :: rest) :=
    .cons (.inr (by simpa using admits_word hkeyword)) (isSymbol_false ha (by decide))
      (isGroup_symbol ha _) (by simp [modifierWords, isWord_false hword]) (.inl (isWord_false hword))
  have htype (rest : List Piece) : typeKeyword? (lexeme a :: lexeme k :: rest) =
      some (.plain, rest) := by
    simp [typeKeyword?, isWord_false hword, ha, admits_word hkeyword]
  intro rest
  have hread := typeDeclaration_read .plain rest
    (modifiers_opt hms.decomposed) (hsettled _) (htype _) (by decide) hname (List.forall_mem_nil _) hb
  have hdeclaration : Declared.declaration ⟨.annotationTypeDeclaration, ms ++ ([.leaf a] ++
      [.leaf k] ++ ([.node .identifier [.leaf l]] ++
        [.node .annotationTypeBody [.group o us e]]))⟩ = ⟨l.text, us.flatMap entries⟩ := by
    simp [Declared.declaration, nameOf, fieldsIn, membersIn, child, between, children_opt hms,
      children_other]
  rw [hdeclaration, ← body_read (.inr (.inr rfl)) hu]
  simpa [fieldsOf] using hread

theorem recordDeclaration_found (h : Parses grammar (Node.rule .recordDeclaration) ts) :
    Read .recordDeclaration ts := by
  obtain ⟨ms, _, hms, h1, rfl⟩ := Parses.seq_iff.mp h
  obtain ⟨_, _, hk, h2, rfl⟩ := Parses.seq_iff.mp h1
  obtain ⟨_, _, hn, h3, rfl⟩ := Parses.seq_iff.mp h2
  obtain ⟨ps, _, hps, h4, rfl⟩ := Parses.seq_iff.mp h3
  obtain ⟨_, _, hnode, h5, rfl⟩ := Parses.seq_iff.mp h4
  obtain ⟨rs, _, hrs, hbody, rfl⟩ := Parses.seq_iff.mp h5
  obtain ⟨k, hkeyword, rfl⟩ := Parses.token_iff.mp hk
  obtain ⟨l, hname, -, rfl⟩ := identifier_inv hn
  obtain ⟨o, us, e, hu, hb, rfl⟩ := body_inv rfl hbody
  obtain ⟨_, hparameters, rfl⟩ := Parses.node_iff.mp hnode
  obtain ⟨o', vs, e', henclosed, hv, rfl⟩ := Parses.group_iff.mp hparameters
  intro rest
  have hgroup : (Piece.group o' (piecesOf vs) (Option.some e')).group? '(' =
      Option.some (piecesOf vs) := by
    simp [group?, henclosed.bracket]
  have hbracketed : piecesOf ps = [] ∨ Bracketed (piecesOf ps) := by
    rcases Parses.opt_iff.mp hps with hps | rfl
    · obtain ⟨us, hus, rfl⟩ := Parses.node_iff.mp hps
      exact .inr (by simpa using bracketed hus (by decide))
    · exact .inl piecesOf_nil
  have hread := recordDeclaration_read rest (modifiers_opt hms.decomposed)
    (settled_keyword (admits_word hkeyword) (by decide))
    (typeKeyword_word (admits_word hkeyword) (by decide)) hname hbracketed hgroup
    (header_opt rfl hrs) hb
  have hdeclaration : Declared.declaration ⟨.recordDeclaration, ms ++ ([.leaf k] ++
      ([.node .identifier [.leaf l]] ++ (ps ++ ([.node .formalParameters [.group o' vs e']] ++
        (rs ++ [.node .classBody [.group o us e]])))))⟩ =
      ⟨l.text, ((children .formalParameter vs).map fun us =>
        ⟨nameOf us, spelled (child .unannotatedType us)⟩) ++ us.flatMap entries⟩ := by
    simp [Declared.declaration, nameOf, fieldsIn, membersIn, components, child, between,
      children_opt hms, children_opt hps, children_opt hrs, children_other]
  rw [hdeclaration, ← body_read (.inl rfl) hu, ← components_read hv]
  simpa [fieldsOf] using hread

-- The constants of an enumeration end at the first semicolon, whatever they hold.

def constantTest : Test Terminal Node where
  token t := t ≠ .symbol ';'
  group _ := true
  angles := false
  node n := n ∈ [.enumConstant, .modifiers, .annotationUse, .identifier, .argumentList, .classBody]

theorem constants_unended {r : Rule Terminal Node} (h : Parses grammar r ts)
    (hr : r.passes constantTest = true) : ∀ p ∈ piecesOf ts, p.isSymbol ';' = false := by
  refine h.shown (shows_all ?_ ?_ ?_ ?_) hr
  · intro t l ht hl
    cases hs : (lexeme l).isSymbol ';' with
    | false => rfl
    | true => exact absurd (symbol_of_admits hl hs) (of_decide_eq_true ht)
  · intro c p _ hp
    exact isSymbol_group hp _
  · intro h
    cases h
  · intro n hn
    cases n <;> first | decide | cases hn

theorem behindConstants_append (h : ∀ p ∈ ps, p.isSymbol ';' = false) :
    behindConstants (ps ++ rest) = behindConstants rest := by
  rw [behindConstants, List.dropWhile_append_of_pos fun p hp => by simp [h p hp]]
  rfl

theorem children_commas {n m : Node} (h : Parses grammar (Node.commas (node m)) ts)
    (hm : m ≠ n) : children n ts = [] := by
  have hnode {us : Trees} (h : Parses grammar (node m) us) : children n us = [] := by
    obtain ⟨us, -, rfl⟩ := Parses.node_iff.mp h
    exact children_other hm ..
  obtain ⟨us, vs, hu, hvs, rfl⟩ := commas_inv h
  have hlisted : children n (listed vs) = [] := by
    clear h
    induction vs with
    | nil => rfl
    | cons v vs ih =>
      rw [listed, List.flatMap_cons, ← listed, List.cons_append, children_leaf, children_append,
        hnode (hvs v List.mem_cons_self).2, ih fun w hw => hvs w (List.mem_cons_of_mem _ hw)]
      rfl
  rw [children_append, hnode hu, hlisted]
  rfl

theorem enumDeclaration_read (h : Parses grammar (Node.rule .enumDeclaration) ts) :
    Read .enumDeclaration ts := by
  obtain ⟨ms, _, hms, h1, rfl⟩ := Parses.seq_iff.mp h
  obtain ⟨_, _, hk, h2, rfl⟩ := Parses.seq_iff.mp h1
  obtain ⟨_, _, hn, h3, rfl⟩ := Parses.seq_iff.mp h2
  obtain ⟨ps, _, hps, hbody, rfl⟩ := Parses.seq_iff.mp h3
  obtain ⟨k, hkeyword, rfl⟩ := Parses.token_iff.mp hk
  obtain ⟨l, hname, -, rfl⟩ := identifier_inv hn
  obtain ⟨o, us, e, hu, hb, rfl⟩ := body_inv rfl hbody
  obtain ⟨cs, _, hcs, h4, rfl⟩ := Parses.seq_iff.mp hu
  obtain ⟨ds, vs, hds, hvs, rfl⟩ := Parses.seq_iff.mp h4
  intro rest
  have hread := typeDeclaration_read .enumeration rest (modifiers_opt hms.decomposed)
    (settled_keyword (admits_word hkeyword) (by decide))
    (typeKeyword_word (admits_word hkeyword) (by decide)) (by decide) hname
    (header_opt rfl hps) hb
  have hchildren : children .enumBodyDeclarations (cs ++ ds) = [] := by
    have hcs' : children .enumBodyDeclarations cs = [] := by
      rcases Parses.opt_iff.mp hcs with hcs | rfl
      · exact children_commas hcs (by decide)
      · rfl
    rcases Parses.opt_iff.mp hds with hds | rfl
    · obtain ⟨c, -, rfl⟩ := Parses.token_iff.mp hds
      simpa using hcs'
    · simpa using hcs'
  have hconstants : ∀ p ∈ piecesOf (cs ++ ds), p.isSymbol ';' = false :=
    constants_unended (.seq hcs hds) (by decide)
  have hbodyFields : bodyFields (behindConstants (piecesOf (cs ++ (ds ++ vs)))) =
      (child .enumBodyDeclarations (cs ++ (ds ++ vs))).flatMap entries := by
    rw [← List.append_assoc, piecesOf_append, behindConstants_append hconstants]
    rcases Parses.opt_iff.mp hvs with hvs | rfl
    · obtain ⟨_, hnode, rfl⟩ := Parses.node_iff.mp hvs
      obtain ⟨_, us, hend, hmembers, rfl⟩ := Parses.seq_iff.mp hnode
      obtain ⟨s, hs, rfl⟩ := Parses.token_iff.mp hend
      have hs := admits_symbol hs
      have hbehind : behindConstants (piecesOf [.node .enumBodyDeclarations ([.leaf s] ++ us)]) =
          piecesOf us := by
        simp [behindConstants, hs]
      rw [hbehind, body_read (.inl rfl) hmembers, child, children_append, hchildren]
      simp [entries]
    · rw [child, children_append, hchildren]
      rfl
  have hdeclaration : Declared.declaration ⟨.enumDeclaration, ms ++ ([.leaf k] ++
      ([.node .identifier [.leaf l]] ++ (ps ++
        [.node .enumBody [.group o (cs ++ (ds ++ vs)) e]])))⟩ =
      ⟨l.text, (child .enumBodyDeclarations (cs ++ (ds ++ vs))).flatMap entries⟩ := by
    simp [Declared.declaration, nameOf, fieldsIn, membersIn, child, between, children_opt hms,
      children_opt hps, children_other]
  rw [hdeclaration, ← hbodyFields]
  simpa [fieldsOf] using hread

/-- Every declaration is read as its tree says. -/
theorem declaration_read {n : Node} (hn : n.declares = true) (h : Parses grammar n.rule ts) :
    Read n ts := by
  cases n
  case classDeclaration => exact classDeclaration_read h
  case recordDeclaration => exact recordDeclaration_found h
  case interfaceDeclaration => exact interfaceDeclaration_read h
  case annotationTypeDeclaration => exact annotationTypeDeclaration_read h
  case enumDeclaration => exact enumDeclaration_read h
  all_goals cases hn

end Scaffold.Source.Java
