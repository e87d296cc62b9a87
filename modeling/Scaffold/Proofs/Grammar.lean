import Scaffold.Source.Piece

/-!
# Grammars over lexemes

A grammar is a table with one rule for each kind of node. A tree follows a
rule when its leaves are lexemes the rule admits and its nodes follow the
rules of their kinds. What the readers see of a tree are its pieces: the
lexemes in order, grouped by their brackets.
-/

namespace Scaffold.Source

/-- What may stand somewhere: a lexeme of some class, a node of some kind, something in brackets
or in angles, or a combination of these. -/
inductive Rule (T N : Type)
  | token (t : T)
  | node (n : N)
  | group (opening : Char) (inner : Rule T N)
  | angles (inner : Rule T N)
  | empty
  | seq (first second : Rule T N)
  | alt (left right : Rule T N)
  | many (each : Rule T N)

namespace Rule

variable {T N : Type}

def inOrder : List (Rule T N) → Rule T N
  | [] => empty
  | [r] => r
  | r :: rs => seq r (inOrder rs)

def oneOf : List (Rule T N) → Rule T N
  | [] => empty
  | [r] => r
  | r :: rs => alt r (oneOf rs)

def opt (r : Rule T N) : Rule T N := alt r empty

def some (r : Rule T N) : Rule T N := seq r (many r)

def separated (separator r : Rule T N) : Rule T N := seq r (many (seq separator r))

end Rule

structure Grammar (T N : Type) where
  admits : T → Lexeme → Bool
  rule : N → Rule T N

/-- A syntax tree. -/
inductive Tree (N : Type)
  | leaf (l : Lexeme)
  | group (opening : Lexeme) (inner : List (Tree N)) (closing : Lexeme)
  | node (n : N) (children : List (Tree N))

variable {T N : Type}

namespace Piece

mutual

def lexemes : Piece → List Lexeme
  | lexeme l => [l]
  | group opening inner closing => opening :: lexemesOf inner ++ closing.toList

def lexemesOf : List Piece → List Lexeme
  | [] => []
  | p :: ps => p.lexemes ++ lexemesOf ps

end

theorem lexemesOf_append (ps qs : List Piece) :
    lexemesOf (ps ++ qs) = lexemesOf ps ++ lexemesOf qs := by
  induction ps with
  | nil => rfl
  | cons p ps ih => simp [lexemesOf, ih]

end Piece

namespace Tree

mutual

def pieces : Tree N → List Piece
  | leaf l => [.lexeme l]
  | group opening inner closing => [.group opening (piecesOf inner) (some closing)]
  | node _ ts => piecesOf ts

def piecesOf : List (Tree N) → List Piece
  | [] => []
  | t :: ts => t.pieces ++ piecesOf ts

end

@[simp] theorem piecesOf_nil : piecesOf ([] : List (Tree N)) = [] :=
  rfl

@[simp] theorem piecesOf_cons (t : Tree N) (ts : List (Tree N)) :
    piecesOf (t :: ts) = t.pieces ++ piecesOf ts :=
  rfl

@[simp] theorem pieces_leaf (l : Lexeme) : (leaf l : Tree N).pieces = [.lexeme l] :=
  rfl

@[simp] theorem pieces_group (o e : Lexeme) (ts : List (Tree N)) :
    (group o ts e).pieces = [.group o (piecesOf ts) (some e)] :=
  rfl

@[simp] theorem pieces_node (n : N) (ts : List (Tree N)) : (node n ts).pieces = piecesOf ts :=
  rfl

@[simp] theorem piecesOf_append (ts us : List (Tree N)) :
    piecesOf (ts ++ us) = piecesOf ts ++ piecesOf us := by
  induction ts with
  | nil => rfl
  | cons t ts ih => simp [ih]

end Tree

open Source.Tree

/-- The lexemes are an opening bracket and the one that closes it. -/
structure Encloses (c : Char) (opening closing : Lexeme) : Prop where
  opens : Piece.Nesting.isOpener opening = true
  bracket : opening.text = c.toString
  closes : Piece.Nesting.isCloser closing = true
  closer : Piece.closerOf opening.text = closing.text

/-- The trees follow the rule. -/
inductive Parses (g : Grammar T N) : Rule T N → List (Tree N) → Prop
  | token {t l} : g.admits t l = true → Parses g (.token t) [.leaf l]
  | node {n ts} : Parses g (g.rule n) ts → Parses g (.node n) [.node n ts]
  | group {c r o ts e} : Encloses c o e → Parses g r ts → Parses g (.group c r) [.group o ts e]
  | angles {r a ts b} : (Piece.lexeme a).isSymbol '<' = true → Parses g r ts →
      (Piece.lexeme b).isSymbol '>' = true → Parses g (.angles r) (.leaf a :: ts ++ [.leaf b])
  | empty : Parses g .empty []
  | seq {r s ts us} : Parses g r ts → Parses g s us → Parses g (.seq r s) (ts ++ us)
  | left {r s ts} : Parses g r ts → Parses g (.alt r s) ts
  | right {r s ts} : Parses g s ts → Parses g (.alt r s) ts
  | stop {r} : Parses g (.many r) []
  | more {r ts us} : Parses g r ts → Parses g (.many r) us → Parses g (.many r) (ts ++ us)

namespace Parses

variable {g : Grammar T N} {r s : Rule T N} {ts us : List (Tree N)}

-- ---------------------------------------------------------------------------
-- What trees of a rule look like
-- ---------------------------------------------------------------------------

theorem token_iff {t : T} :
    Parses g (.token t) ts ↔ ∃ l, g.admits t l = true ∧ ts = [.leaf l] := by
  constructor
  · rintro ⟨⟩
    exact ⟨_, ‹_›, rfl⟩
  · rintro ⟨l, h, rfl⟩
    exact .token h

theorem node_iff {n : N} :
    Parses g (.node n) ts ↔ ∃ us, Parses g (g.rule n) us ∧ ts = [.node n us] := by
  constructor
  · rintro ⟨⟩
    exact ⟨_, ‹_›, rfl⟩
  · rintro ⟨us, h, rfl⟩
    exact .node h

theorem group_iff {c : Char} :
    Parses g (.group c r) ts ↔
      ∃ o us e, Encloses c o e ∧ Parses g r us ∧ ts = [.group o us e] := by
  constructor
  · rintro ⟨⟩
    exact ⟨_, _, _, ‹_›, ‹_›, rfl⟩
  · rintro ⟨o, us, e, h, hu, rfl⟩
    exact .group h hu

theorem empty_iff : Parses g .empty ts ↔ ts = [] := by
  constructor
  · rintro ⟨⟩
    rfl
  · rintro rfl
    exact .empty

theorem seq_iff :
    Parses g (.seq r s) ts ↔ ∃ us vs, Parses g r us ∧ Parses g s vs ∧ ts = us ++ vs := by
  constructor
  · rintro ⟨⟩
    exact ⟨_, _, ‹_›, ‹_›, rfl⟩
  · rintro ⟨us, vs, hu, hv, rfl⟩
    exact .seq hu hv

theorem alt_iff : Parses g (.alt r s) ts ↔ Parses g r ts ∨ Parses g s ts := by
  constructor
  · rintro ⟨⟩
    · exact .inl ‹_›
    · exact .inr ‹_›
  · rintro (h | h)
    · exact .left h
    · exact .right h

theorem many_iff :
    Parses g (.many r) ts ↔ ∃ tss : List (List (Tree N)), (∀ us ∈ tss, Parses g r us) ∧
      ts = tss.flatten := by
  constructor
  · intro h
    generalize hq : Rule.many r = q at h
    induction h with
    | stop => exact ⟨[], by simp, rfl⟩
    | @more _ us _ hu _ _ ih =>
      cases hq
      obtain ⟨tss, hs, rfl⟩ := ih rfl
      exact ⟨us :: tss, by simpa using ⟨hu, hs⟩, rfl⟩
    | _ => cases hq
  · rintro ⟨tss, hs, rfl⟩
    induction tss with
    | nil => exact .stop
    | cons us tss ih =>
      exact .more (hs us List.mem_cons_self) (ih fun vs hv => hs vs (List.mem_cons_of_mem _ hv))

theorem of_oneOf {rs : List (Rule T N)} (hrs : rs ≠ []) (h : Parses g (Rule.oneOf rs) ts) :
    ∃ r ∈ rs, Parses g r ts := by
  induction rs with
  | nil => exact absurd rfl hrs
  | cons r rs ih =>
    cases rs with
    | nil => exact ⟨r, List.mem_singleton_self r, h⟩
    | cons s rs =>
      rcases alt_iff.mp h with h | h
      · exact ⟨r, List.mem_cons_self, h⟩
      · obtain ⟨q, hq, hp⟩ := ih (by simp) h
        exact ⟨q, List.mem_cons_of_mem _ hq, hp⟩

theorem oneOf {rs : List (Rule T N)} (hr : r ∈ rs) (h : Parses g r ts) :
    Parses g (Rule.oneOf rs) ts := by
  induction rs with
  | nil => cases hr
  | cons q rs ih =>
    cases rs with
    | nil => exact List.mem_singleton.mp hr ▸ h
    | cons s rs =>
      rcases List.mem_cons.mp hr with rfl | hr
      · exact .left h
      · exact .right (ih hr)

theorem opt_iff : Parses g r.opt ts ↔ Parses g r ts ∨ ts = [] := by
  rw [Rule.opt, alt_iff, empty_iff]

end Parses

-- ---------------------------------------------------------------------------
-- Languages of pieces
-- ---------------------------------------------------------------------------

/-- The rule yields the pieces, given the pieces that each kind of node yields. -/
def Rule.Yields (g : Grammar T N) (L : N → List Piece → Prop) : Rule T N → List Piece → Prop
  | .token t, ps => ∃ l, g.admits t l = true ∧ ps = [.lexeme l]
  | .node n, ps => L n ps
  | .group c r, ps => ∃ o inner e, Encloses c o e ∧ r.Yields g L inner ∧
      ps = [.group o inner (.some e)]
  | .angles r, ps => ∃ a inner b, (Piece.lexeme a).isSymbol '<' = true ∧ r.Yields g L inner ∧
      (Piece.lexeme b).isSymbol '>' = true ∧ ps = .lexeme a :: inner ++ [.lexeme b]
  | .empty, ps => ps = []
  | .seq r s, ps => ∃ qs, r.Yields g L qs ∧ ∃ rs, s.Yields g L rs ∧ ps = qs ++ rs
  | .alt r s, ps => r.Yields g L ps ∨ s.Yields g L ps
  | .many r, ps => ∃ pss : List (List Piece), (∀ qs ∈ pss, r.Yields g L qs) ∧ ps = pss.flatten

theorem Rule.Yields.of_oneOf {g : Grammar T N} {L : N → List Piece → Prop} {rs : List (Rule T N)}
    {ps : List Piece} (hrs : rs ≠ []) (h : (oneOf rs).Yields g L ps) :
    ∃ r ∈ rs, r.Yields g L ps := by
  induction rs with
  | nil => exact absurd rfl hrs
  | cons r rs ih =>
    cases rs with
    | nil => exact ⟨r, List.mem_singleton_self r, h⟩
    | cons s rs =>
      rcases h with h | h
      · exact ⟨r, List.mem_cons_self, h⟩
      · obtain ⟨q, hq, hy⟩ := ih (by simp) h
        exact ⟨q, List.mem_cons_of_mem _ hq, hy⟩

/-- Languages that hold what the rules of the nodes yield from them hold the pieces of every
tree. -/
theorem Parses.yields {g : Grammar T N} {L : N → List Piece → Prop}
    (hL : ∀ n ts, Parses g (g.rule n) ts → (g.rule n).Yields g L (piecesOf ts) →
      L n (piecesOf ts))
    {r : Rule T N} {ts : List (Tree N)} (h : Parses g r ts) : r.Yields g L (piecesOf ts) := by
  induction h with
  | token ha => exact ⟨_, ha, by simp⟩
  | node h ih => simpa [Rule.Yields] using hL _ _ h ih
  | group he _ ih => exact ⟨_, _, _, he, ih, by simp⟩
  | angles ha _ hb ih => exact ⟨_, _, _, ha, ih, hb, by simp⟩
  | empty => exact piecesOf_nil
  | seq _ _ ih1 ih2 => exact ⟨_, ih1, _, ih2, by simp⟩
  | left _ ih => exact .inl ih
  | right _ ih => exact .inr ih
  | stop => exact ⟨[], by simp, by simp⟩
  | more _ _ ih1 ih2 =>
    obtain ⟨pss, hpss, he⟩ := ih2
    exact ⟨_ :: pss, by simpa using ⟨ih1, hpss⟩, by simp [he]⟩

/-- The pieces of the trees of one kind. -/
def Grammar.Language (g : Grammar T N) (n : N) (ps : List Piece) : Prop :=
  ∃ ts, Parses g (g.rule n) ts ∧ piecesOf ts = ps

theorem Parses.decomposed {g : Grammar T N} {r : Rule T N} {ts : List (Tree N)}
    (h : Parses g r ts) : r.Yields g g.Language (piecesOf ts) :=
  h.yields fun _ ts h _ => ⟨ts, h, rfl⟩

-- ---------------------------------------------------------------------------
-- Properties of the pieces
-- ---------------------------------------------------------------------------

namespace Rule

/-- A test of rules: which of what may stand outside brackets is let through. -/
structure Test (T N : Type) where
  token : T → Bool
  group : Char → Bool
  angles : Bool
  node : N → Bool

/-- Everything outside brackets is let through. -/
def passes (test : Test T N) : Rule T N → Bool
  | token t => test.token t
  | node n => test.node n
  | group c _ => test.group c
  | angles r => test.angles && r.passes test
  | empty => true
  | seq r s | alt r s => r.passes test && s.passes test
  | many r => r.passes test

/-- Every token is let through, inside brackets as well. -/
def tokens (test : T → Bool) : Rule T N → Bool
  | token t => test t
  | node _ | empty => true
  | group _ r | angles r | many r => r.tokens test
  | seq r s | alt r s => r.tokens test && s.tokens test

/-- There may be no pieces at all, given the kinds of nodes of which that holds. -/
def nullable (hollow : N → Bool) : Rule T N → Bool
  | token _ | group .. | angles _ => false
  | node n => hollow n
  | empty | many _ => true
  | seq r s => r.nullable hollow && s.nullable hollow
  | alt r s => r.nullable hollow || s.nullable hollow

/-- Whatever comes first is let through. -/
def starts (hollow : N → Bool) (test : Test T N) : Rule T N → Bool
  | token t => test.token t
  | node n => test.node n
  | group c _ => test.group c
  | angles _ => test.angles
  | empty => true
  | seq r s => r.starts hollow test && (!r.nullable hollow || s.starts hollow test)
  | alt r s => r.starts hollow test && s.starts hollow test
  | many r => r.starts hollow test

/-- What passes the test has a property that pieces have together when they have it apart. A kind
of node may be known to have it otherwise than by its rule. -/
structure Test.Shows (test : Test T N) (g : Grammar T N) (P : List Piece → Prop) : Prop where
  nil : P []
  append {ps qs} : P ps → P qs → P (ps ++ qs)
  token {t l} : test.token t = true → g.admits t l = true → P [.lexeme l]
  group {c o e} (inner) : test.group c = true → Encloses c o e → P [.group o inner (.some e)]
  angles {a b ps} : test.angles = true → (Piece.lexeme a).isSymbol '<' = true → P ps →
    (Piece.lexeme b).isSymbol '>' = true → P (.lexeme a :: ps ++ [.lexeme b])
  node {n} : test.node n = true → (g.rule n).passes test = true ∨
    ∀ ts, Parses g (g.rule n) ts → P (piecesOf ts)

/-- What passes the test has a property that depends on the first piece only, unless the node is
known to have it otherwise. -/
structure Test.Leads (test : Test T N) (g : Grammar T N) (hollow : N → Bool)
    (P : List Piece → Prop) : Prop where
  nullable {n} : (g.rule n).nullable hollow = true → hollow n = true
  token {t l} (rest) : test.token t = true → g.admits t l = true → P (.lexeme l :: rest)
  group {c o e} (inner rest) : test.group c = true → Encloses c o e →
    P (.group o inner (.some e) :: rest)
  angles {a} (rest) : test.angles = true → (Piece.lexeme a).isSymbol '<' = true →
    P (.lexeme a :: rest)
  node {n} : test.node n = true → (g.rule n).starts hollow test = true ∨
    ∀ ts, Parses g (g.rule n) ts → ∀ rest, P (piecesOf ts ++ rest)

end Rule

namespace Parses

variable {g : Grammar T N} {r : Rule T N} {ts : List (Tree N)} {P : List Piece → Prop}
  {test : Rule.Test T N} {hollow : N → Bool}

theorem shown (hs : test.Shows g P) (h : Parses g r ts) (hr : r.passes test = true) :
    P (piecesOf ts) := by
  induction h with
  | token ha => simpa using hs.token hr ha
  | node h ih =>
    rcases hs.node hr with hp | hp
    · simpa using ih hp
    · simpa using hp _ h
  | group he _ _ => simpa using hs.group _ hr he
  | angles ha _ hb ih =>
    simp only [Rule.passes, Bool.and_eq_true] at hr
    simpa using hs.angles hr.1 ha (ih hr.2) hb
  | empty => simpa using hs.nil
  | seq _ _ ih1 ih2 =>
    simp only [Rule.passes, Bool.and_eq_true] at hr
    simpa using hs.append (ih1 hr.1) (ih2 hr.2)
  | left _ ih =>
    simp only [Rule.passes, Bool.and_eq_true] at hr
    exact ih hr.1
  | right _ ih =>
    simp only [Rule.passes, Bool.and_eq_true] at hr
    exact ih hr.2
  | stop => simpa using hs.nil
  | more _ _ ih1 ih2 => simpa using hs.append (ih1 hr) (ih2 hr)

theorem nullable_of_nil (hh : ∀ n, (g.rule n).nullable hollow = true → hollow n = true)
    (h : Parses g r ts) (hn : piecesOf ts = []) : r.nullable hollow = true := by
  induction h with
  | token | group => simp at hn
  | angles => simp at hn
  | empty | stop | more => rfl
  | node _ ih => exact hh _ (ih (by simpa using hn))
  | seq _ _ ih1 ih2 =>
    simp only [piecesOf_append, List.append_eq_nil_iff] at hn
    simp [Rule.nullable, ih1 hn.1, ih2 hn.2]
  | left _ ih => simp [Rule.nullable, ih hn]
  | right _ ih => simp [Rule.nullable, ih hn]

/-- What follows matters only where there are no pieces. -/
theorem led (hs : test.Leads g hollow P) (h : Parses g r ts) (hr : r.starts hollow test = true) :
    ∀ {rest}, (piecesOf ts = [] → P rest) → P (piecesOf ts ++ rest) := by
  induction h with
  | token ha =>
    intro rest _
    simpa using hs.token rest hr ha
  | node h ih =>
    intro rest hrest
    rw [piecesOf_cons, pieces_node, piecesOf_nil, List.append_nil] at hrest ⊢
    rcases hs.node hr with hp | hp
    · exact ih hp hrest
    · exact hp _ h rest
  | group he _ _ =>
    intro rest _
    simpa using hs.group _ rest hr he
  | angles ha _ _ _ =>
    intro rest _
    simpa using hs.angles _ hr ha
  | empty | stop => simp
  | @seq r s ts us h1 _ ih1 ih2 =>
    intro rest hrest
    simp only [Rule.starts, Bool.and_eq_true] at hr
    rw [piecesOf_append, List.append_assoc]
    refine ih1 hr.1 fun hn => ?_
    have hs' := hr.2
    rw [h1.nullable_of_nil (fun _ => hs.nullable) hn, Bool.not_true, Bool.false_or] at hs'
    exact ih2 hs' fun hn' => hrest (by simp [hn, hn'])
  | left _ ih =>
    simp only [Rule.starts, Bool.and_eq_true] at hr
    exact ih hr.1
  | right _ ih =>
    simp only [Rule.starts, Bool.and_eq_true] at hr
    exact ih hr.2
  | more _ _ ih1 ih2 =>
    intro rest hrest
    rw [piecesOf_append, List.append_assoc]
    exact ih1 hr fun hn => ih2 hr fun hn' => hrest (by simp [hn, hn'])

end Parses

end Scaffold.Source
