import Scaffold.Proofs.Kotlin.Properties
import Scaffold.Proofs.Preorders

/-!
# Classes of Kotlin

A class is read with whatever type parameters, constructor, supertypes and
constraints it has. Its fields are the variables that its constructor binds and
those of the properties in its body.
-/

namespace Scaffold

namespace Source.Kotlin

open Piece

/-- No statement ends in front of the piece. -/
def Joined (p : Piece) : Prop := ∀ ps, endsStatement (p :: ps) = false

/-- A supertype has been read, perhaps with its arguments or what it is delegated to. -/
def HeaderState.isSupertype : HeaderState → Bool
  | supertype _ | called | delegate _ => true
  | _ => false

/-- A constraint follows: the first behind `where`, another behind a comma. -/
def HeaderState.takesConstraint (w : Piece) : HeaderState → Bool
  | named | supertype _ | called | delegate _ => w.isWord "where"
  | bound _ => w.isSymbol ','
  | _ => false

/-- The expression that a supertype is delegated to, which may end behind the pieces or not. It goes
on in a new line where an operand has to follow. -/
inductive Delegate : Bool → List Piece → Prop
  | nil : Delegate false []
  | piece {complete ps p} : Delegate complete ps → p.isSymbol '<' = false →
      (complete = true → Joined p ∧ p.isSymbol ',' = false ∧ p.isWord "where" = false) →
      Delegate (completes complete p) (ps ++ [p])
  | applied {complete ps a inner b} : Delegate complete ps → a.isSymbol '<' = true →
      Angled isArgument inner → b.isSymbol '>' = true →
      Delegate true (ps ++ (a :: inner ++ [b]))

/-- Supertypes and constraints of a class, in the state of a reader behind them. -/
inductive Heritage : HeaderState → List Piece → Prop
  | nil : Heritage .named []
  | first {type d ts} : d.isSymbol ':' = true → Spells type ts →
      Heritage (.supertype type) (d :: ts)
  | further {state type ps d ts} : Heritage state ps → state.isSupertype = true →
      d.isSymbol ',' = true → Spells type ts → Heritage (.supertype type) (ps ++ d :: ts)
  | called {ps g} : Heritage (.supertype .named) ps → g.isGroup '(' = true →
      g.startsLine = false → Heritage .called (ps ++ [g])
  | delegated {type ps d es} : Heritage (.supertype type) ps → d.isWord "by" = true →
      Delegate true es → Heritage (.delegate true) (ps ++ d :: es)
  | constrained {state type mark ps w ms p d ts} : Heritage state ps →
      state.takesConstraint w = true → Marks [] mark ms → isName p = true →
      d.isSymbol ':' = true → Spells type ts →
      Heritage (.bound type) (ps ++ w :: (ms ++ p :: d :: ts))

/-- Nothing that goes on with a class without a body. -/
def EndsClass (rest : List Piece) : Prop :=
  endsStatement rest = true ∧
    (∀ p ∈ rest.head?, p.isWord "by" = false ∧ p.isWord "where" = false) ∧
    (dropModifiers rest).head?.any (·.isWord "constructor") = false

/-- What stands behind supertypes and constraints, with the pieces of the body in front of it.
Braces behind an expression that a supertype is delegated to belong to the expression, and a line
that runs on behind its braces is an expression as a whole. -/
inductive Bodied : HeaderState → List Piece → List Piece → Prop
  | braces {state g inner rest} : g.group? '\x7b' = some inner → g.isClosed = true →
      state.takesBody = true → runsOn g rest = false → Bodied state (g :: rest) inner
  | bodiless {state rest} : EndsClass rest → Bodied state rest []

/-- A primary constructor with the pieces of its parameters. -/
inductive Constructor : List Piece → List Piece → Prop
  | nil : Constructor [] []
  | bare {g inner} : g.group? '(' = some inner → Constructor [g] inner
  | worded {mark ms k g inner} : Marks modifierWords mark ms → k.isWord "constructor" = true →
      g.group? '(' = some inner → Constructor (ms ++ [k, g]) inner

/-- The keywords of a class. -/
inductive Keywords : List Piece → Prop
  | single {k} : k.isWord "class" = true ∨ k.isWord "interface" = true → Keywords [k]
  | functional {k l} : k.isWord "fun" = true → l.isWord "interface" = true → Keywords [k, l]

/-- A class as it is declared. -/
structure DeclaredClass where
  name : String
  /-- The variables that the primary constructor binds. -/
  parameters : List Variable
  /-- The properties that stand directly in the body. -/
  properties : List Property

/-- The pieces from a class on. -/
inductive DeclaresClass : List Piece → DeclaredClass → Prop
  | intro {mark ms ks p name ts cs inner parameters state hs tail body properties} :
      Marks modifierWords mark ms → Keywords ks → name? p = some name → TypeParameters ts →
      Constructor cs inner → Parameters inner parameters → Heritage state hs →
      Bodied state tail body → Body body properties →
      DeclaresClass (ms ++ (ks ++ p :: (ts ++ (cs ++ (hs ++ tail))))) ⟨name, parameters, properties⟩

variable {mark : AnnotationState} {state : HeaderState} {p q a b : Piece}
  {ps qs inner rest : List Piece}

-- ---------------------------------------------------------------------------
-- Supertypes and constraints
-- ---------------------------------------------------------------------------

theorem splitBody_cons (state : HeaderState) (p : Piece) (ps : List Piece) :
    splitBody state (p :: ps) =
      match state.next? p ps with
      | some next => splitBody next ps
      | none => if state.takesBody && p.isGroup '\x7b' then (some p, ps) else (none, p :: ps) :=
  rfl

theorem splitBody_next {next : HeaderState} (h : state.next? p ps = some next) :
    splitBody state (p :: ps) = splitBody next ps := by
  rw [splitBody_cons, h]

namespace HeaderState

theorem next?_supertype (type : TypeState) (p : Piece) (ps : List Piece) :
    next? (.supertype type) p ps =
      match type.next? p with
      | some next => some (.supertype next)
      | none =>
        if !type.isEnded then none
        else if type = .named ∧ p.isGroup '(' ∧ !p.startsLine then some .called
        else behindSupertype? p :=
  rfl

theorem next?_bound (type : TypeState) (p : Piece) (ps : List Piece) :
    next? (.bound type) p ps =
      match type.next? p with
      | some next => some (.bound next)
      | none => if type.isEnded && p.isSymbol ',' then some (.parameter .outside) else none :=
  rfl

theorem next?_parameter (mark : AnnotationState) (p : Piece) (ps : List Piece) :
    next? (.parameter mark) p ps =
      match mark.next? (!·.startsLine) p with
      | some next => some (.parameter next)
      | none => if mark.isComplete && isName p then some .constrained else none :=
  rfl

theorem next?_delegate (complete : Bool) (p : Piece) (ps : List Piece) :
    next? (.delegate complete) p ps =
      if complete && p.isSymbol ',' then some (.supertype (.expected .outside))
      else if complete && p.isWord "where" then some (.parameter .outside)
      else if complete && endsStatement (p :: ps) then none
      else if p.isSymbol '<' && typeArgumentsFollow 1 ps then some (.delegateArguments 1)
      else some (.delegate (completes complete p)) :=
  rfl

end HeaderState

/-- Where each piece is read alike whatever follows, so are several. -/
theorem splitBody_run {σ : Type} {next? : σ → Piece → Option σ} {within : σ → HeaderState}
    (hnext : ∀ s p next ps, next? s p = some next →
      (within s).next? p ps = some (within next)) {s s' : σ} (h : run? next? s ps = some s') :
    splitBody (within s) (ps ++ rest) = splitBody (within s') rest := by
  induction ps generalizing s with
  | nil =>
    cases h
    rfl
  | cons p ps ih =>
    rw [run?_cons, Option.bind_eq_some_iff] at h
    obtain ⟨next, hp, hrun⟩ := h
    rw [List.cons_append, splitBody_next (hnext _ _ _ _ hp)]
    exact ih hrun

theorem Spells.splitBody_supertype (h : Spells type ps) :
    splitBody (.supertype (.expected .outside)) (ps ++ rest) =
      splitBody (.supertype type) rest := by
  refine splitBody_run (fun s p next ps hnext => ?_) (h.run?_expected rfl nofun)
  rw [HeaderState.next?_supertype, hnext]

theorem Spells.splitBody_bound (h : Spells type ps) :
    splitBody (.bound (.expected .outside)) (ps ++ rest) = splitBody (.bound type) rest := by
  refine splitBody_run (fun s p next ps hnext => ?_) (h.run?_expected rfl nofun)
  rw [HeaderState.next?_bound, hnext]

theorem Marks.splitBody_parameter (h : Marks [] mark ps) :
    splitBody (.parameter .outside) (ps ++ rest) = splitBody (.parameter mark) rest := by
  have hrun : run? (AnnotationState.next? (!·.startsLine)) .outside ps = some mark := by
    induction h with
    | nil => rfl
    | word _ hp => cases hp
    | annotated hps hqs ih =>
      rw [run?_append, ih, Option.bind_some, hqs.run?_complete hps.isComplete]
  refine splitBody_run (fun s p next ps hnext => ?_) hrun
  rw [HeaderState.next?_parameter, hnext]

theorem endsStatement_angle (ha : a.isSymbol '<' = true) : endsStatement (a :: ps) = false := by
  have hcontinues : continuesLine a ps = true := by simp [continuesLine, ha]
  simp [endsStatement, hcontinues, isSymbol_false ha (d := ';') (by decide)]

theorem splitBody_delegateArguments (hi : Angled isArgument inner) (hb : b.isSymbol '>' = true) :
    splitBody (.delegateArguments 1) (inner ++ b :: rest) = splitBody (.delegate true) rest := by
  let next? (state : HeaderState) (p : Piece) : Option HeaderState :=
    match state with
    | .delegateArguments _ => state.next? p []
    | _ => none
  have hcounts : Counts next? .delegateArguments (.delegate true) := ⟨fun _ _ => rfl⟩
  have hstep (s : HeaderState) (p : Piece) (next : HeaderState) (ps : List Piece)
      (hnext : next? s p = some next) : (id s).next? p ps = some (id next) := by
    cases s with
    | delegateArguments => exact hnext
    | _ => cases hnext
  simpa using splitBody_run hstep (hcounts.run_close hi hb)

theorem Delegate.splitBody_append {complete : Bool} (h : Delegate complete ps) :
    splitBody (.delegate false) (ps ++ rest) = splitBody (.delegate complete) rest := by
  induction h generalizing rest with
  | nil => rfl
  | @piece complete ps p _ hangle hp ih =>
    have hnext : HeaderState.next? (.delegate complete) p rest =
        some (.delegate (completes complete p)) := by
      rw [HeaderState.next?_delegate]
      cases complete with
      | false => simp [hangle]
      | true =>
        obtain ⟨hjoined, hcomma, hwhere⟩ := hp rfl
        simp [hjoined rest, hcomma, hwhere, hangle]
    rw [List.append_assoc, ih, List.singleton_append, splitBody_next hnext]
  | @applied complete ps a inner b _ ha hi hb ih =>
    have hlt : b.isSymbol '<' = false := isSymbol_false hb (by decide)
    have hfollow : typeArgumentsFollow 1 (inner ++ b :: rest) = true := by
      rw [hi.typeArgumentsFollow_append fun _ => id, typeArgumentsFollow, if_neg (by simp [hlt]),
        if_pos hb, if_pos (by omega)]
    have hnext : HeaderState.next? (.delegate complete) a (inner ++ b :: rest) =
        some (.delegateArguments 1) := by
      rw [HeaderState.next?_delegate, isSymbol_false ha (by decide), isWord_false (word_symbol ha),
        endsStatement_angle ha]
      simp [ha, hfollow]
    rw [List.append_assoc, ih, List.append_assoc, List.singleton_append]
    exact (splitBody_next hnext).trans (splitBody_delegateArguments hi hb)

/-- The states behind a header that may end here. -/
def HeaderState.Complete : HeaderState → Prop
  | named | called => True
  | supertype type | bound type => type.isEnded = true
  | delegate complete => complete = true
  | _ => False

theorem Heritage.complete (h : Heritage state ps) : state.Complete := by
  cases h with
  | nil | called => trivial
  | first _ hts | further _ _ _ hts | constrained _ _ _ _ _ hts => exact hts.isEnded
  | delegated => rfl

/-- What belongs to no type goes on behind it. -/
theorem next?_behind {type : TypeState} (hs : type.isEnded = true) (harrow : p.isArrow = false)
    (hgroup : p.isGroup '(' = false) (hp : ∀ c ∈ ['<', '.', '&', '?'], p.isSymbol c = false)
    (ps : List Piece) :
    HeaderState.next? (.supertype type) p ps = HeaderState.behindSupertype? p := by
  rw [HeaderState.next?_supertype, TypeState.next?_other hs harrow hp]
  simp [hs, hgroup]

theorem next?_behind_word {type : TypeState} (hs : type.isEnded = true) (hp : p.word?.isSome = true)
    (ps : List Piece) :
    HeaderState.next? (.supertype type) p ps = HeaderState.behindSupertype? p :=
  next?_behind hs (isArrow_word hp) (isGroup_word hp _) (fun c _ => isSymbol_word hp c) ps

theorem next?_comma (hs : state.Complete) (hsup : state.isSupertype = true)
    (hp : p.isSymbol ',' = true) (ps : List Piece) :
    state.next? p ps = some (.supertype (.expected .outside)) := by
  have hbehind : HeaderState.behindSupertype? p = some (.supertype (.expected .outside)) :=
    if_pos hp
  cases state with
  | supertype type =>
    have hother : ∀ c ∈ ['<', '.', '&', '?'], p.isSymbol c = false := fun c hc =>
      isSymbol_false hp (by rintro rfl; simp at hc)
    exact (next?_behind hs (isArrow_symbol hp) (isGroup_symbol hp _) hother ps).trans hbehind
  | called => exact hbehind
  | delegate complete =>
    obtain rfl : complete = true := hs
    exact if_pos (by simp [hp])
  | _ => cases hsup

theorem next?_constraint (hs : state.Complete) (hw : state.takesConstraint p = true)
    (ps : List Piece) : state.next? p ps = some (.parameter .outside) := by
  have hbehind (hp : p.isWord "where" = true) :
      HeaderState.behindSupertype? p = some (.parameter .outside) := by
    simp [HeaderState.behindSupertype?, isSymbol_word (word_of_isWord hp), isWord_unique hp, hp]
  cases state with
  | named => exact (if_neg (by simp [isSymbol_word (word_of_isWord hw)])).trans (if_pos hw)
  | supertype type => exact (next?_behind_word hs (word_of_isWord hw) ps).trans (hbehind hw)
  | called => exact hbehind hw
  | delegate complete =>
    obtain rfl : complete = true := hs
    rw [HeaderState.next?_delegate, isSymbol_word (word_of_isWord hw)]
    exact if_pos hw
  | bound type =>
    have hother : ∀ c ∈ ['<', '.', '&', '?'], p.isSymbol c = false := fun c hc =>
      isSymbol_false hw (by rintro rfl; simp at hc)
    rw [HeaderState.next?_bound, TypeState.next?_other hs (isArrow_symbol hw) hother]
    exact if_pos (by rw [hs]; exact hw)
  | _ => cases hw

theorem Heritage.splitBody_append (h : Heritage state ps) :
    splitBody .named (ps ++ rest) = splitBody state rest := by
  induction h generalizing rest with
  | nil => rfl
  | first hd hts =>
    have hnext (ps : List Piece) :
        HeaderState.next? .named _ ps = some (.supertype (.expected .outside)) := if_pos hd
    rw [List.cons_append, splitBody_next (hnext _), hts.splitBody_supertype]
  | further hps hsup hd hts ih =>
    rw [List.append_assoc, ih, List.cons_append,
      splitBody_next (next?_comma hps.complete hsup hd _), hts.splitBody_supertype]
  | @called ps g hps hg hline ih =>
    have hnone : TypeState.next? .named g = none :=
      TypeState.next?_other rfl (isArrow_group hg) fun c _ => isSymbol_group hg c
    have hnext (qs : List Piece) : HeaderState.next? (.supertype .named) g qs = some .called := by
      rw [HeaderState.next?_supertype, hnone]
      simp [TypeState.isEnded, hg, hline]
    rw [List.append_assoc, ih, List.singleton_append, splitBody_next (hnext rest)]
  | @delegated type ps d es hps hd hes ih =>
    have hby : HeaderState.behindSupertype? d = some (.delegate false) := by
      simp [HeaderState.behindSupertype?, isSymbol_word (word_of_isWord hd), hd]
    rw [List.append_assoc, ih, List.cons_append,
      splitBody_next ((next?_behind_word hps.complete (word_of_isWord hd) _).trans hby),
      hes.splitBody_append]
  | @constrained state type mark ps w ms p d ts hps hw hms hp hd hts ih =>
    have hparameter (qs : List Piece) :
        HeaderState.next? (.parameter mark) p qs = some .constrained := by
      rw [HeaderState.next?_parameter,
        AnnotationState.next?_word hms.isComplete (word_of_isName hp)]
      simp [hms.isComplete, hp]
    have hcolon (qs : List Piece) :
        HeaderState.next? .constrained d qs = some (.bound (.expected .outside)) := if_pos hd
    rw [List.append_assoc, ih, List.cons_append,
      splitBody_next (next?_constraint hps.complete hw _), List.append_assoc,
      hms.splitBody_parameter, List.cons_append, splitBody_next (hparameter _), List.cons_append,
      splitBody_next (hcolon _), hts.splitBody_bound]

-- ---------------------------------------------------------------------------
-- Bodies
-- ---------------------------------------------------------------------------

theorem isGroup_of_group {c : Char} (h : p.group? c = some inner) : p.isGroup c = true := by
  simp [isGroup, h]

/-- What a statement ends with goes on with no header. -/
theorem endsStatement_head (h : endsStatement (p :: ps) = true) :
    p.isArrow = false ∧ (∀ c ∈ ['\x7b', '('], p.isGroup c = false) ∧
      (∀ c ∈ [',', '.', ':', '<', '?', '&'], p.isSymbol c = false) ∧
      (p.startsLine = true ∨ isName p = false) := by
  rw [endsStatement, Bool.or_eq_true, Bool.and_eq_true, Bool.not_eq_true'] at h
  rcases h with h | ⟨hline, h⟩
  · have hother {c : Char} (hc : ';' ≠ c) := isSymbol_false h hc
    simp [isArrow_symbol h, isGroup_symbol h, hother, isName_of_word (word_symbol h)]
  · simp only [continuesLine, Bool.or_eq_false_iff, List.any_cons] at h
    simp [h, hline]

/-- Nothing more belongs to a header that may end where a statement ends. -/
theorem next?_none (hs : state.Complete) (h : endsStatement (p :: ps) = true)
    (hby : p.isWord "by" = false) (hwhere : p.isWord "where" = false) :
    state.next? p ps = none := by
  obtain ⟨harrow, hgroup, hsymbol, -⟩ := endsStatement_head h
  have hother : ∀ c ∈ ['<', '.', '&', '?'], p.isSymbol c = false := fun c hc =>
    hsymbol c ((by simp : ['<', '.', '&', '?'] ⊆ [',', '.', ':', '<', '?', '&']) hc)
  simp only [List.forall_mem_cons] at hgroup hsymbol
  have hbehind : HeaderState.behindSupertype? p = none := by
    simp [HeaderState.behindSupertype?, hsymbol, hby, hwhere]
  cases state with
  | named =>
    exact (if_neg (by simp [hsymbol])).trans (if_neg (by simp [hwhere]))
  | supertype type => exact (next?_behind hs harrow hgroup.2.1 hother ps).trans hbehind
  | called => exact hbehind
  | delegate complete =>
    obtain rfl : complete = true := hs
    simp [HeaderState.next?_delegate, hsymbol, hwhere, h]
  | bound type =>
    rw [HeaderState.next?_bound, TypeState.next?_other hs harrow hother]
    simp [hsymbol]
  | _ => cases hs

/-- Braces belong to no supertype and no constraint. -/
theorem next?_braces (hs : state.takesBody = true) (hp : p.isGroup '\x7b' = true)
    (ps : List Piece) : state.next? p ps = none := by
  have harrow := isArrow_group hp
  have hparenthesis : p.isGroup '(' = false := isGroup_false hp (by decide)
  have hword {w : String} : p.isWord w = false := isWord_false (word_group hp)
  have hother : ∀ c ∈ ['<', '.', '&', '?'], p.isSymbol c = false := fun c _ => isSymbol_group hp c
  have hbehind : HeaderState.behindSupertype? p = none := by
    simp [HeaderState.behindSupertype?, isSymbol_group hp, hword]
  cases state with
  | named => exact (if_neg (by simp [isSymbol_group hp])).trans (if_neg (by simp [hword]))
  | supertype type => exact (next?_behind hs harrow hparenthesis hother ps).trans hbehind
  | called => exact hbehind
  | bound type =>
    rw [HeaderState.next?_bound, TypeState.next?_other hs harrow hother]
    simp [isSymbol_group hp]
  | _ => cases hs

theorem Bodied.splitBody_eq {tail body : List Piece} (h : Bodied state tail body)
    (hs : state.Complete) : ∃ braces behind, splitBody state tail = (braces, behind) ∧
      (braces.bind (·.group? '\x7b')).getD [] = body ∧
      (braces.any fun g => !g.isClosed || runsOn g behind) = false := by
  cases h with
  | @braces g _ rest hg hclosed hbody hruns =>
    have hgroup := isGroup_of_group hg
    refine ⟨some g, rest, ?_, by simp [hg], by simp [hclosed, hruns]⟩
    rw [splitBody_cons, next?_braces hbody hgroup]
    simp [hbody, hgroup]
  | bodiless h =>
    obtain ⟨hends, hhead, -⟩ := h
    refine ⟨none, tail, ?_, rfl, rfl⟩
    cases tail with
    | nil => rfl
    | cons p ps =>
      obtain ⟨hby, hwhere⟩ := hhead p rfl
      have hbrace : p.isGroup '\x7b' = false := (endsStatement_head hends).2.1 _ (by simp)
      rw [splitBody_cons, next?_none hs hends hby hwhere]
      simp [hbrace]

-- ---------------------------------------------------------------------------
-- Classes
-- ---------------------------------------------------------------------------

/-- What a class may go on with behind its name and its type parameters. -/
structure Unconstructed (ps : List Piece) : Prop where
  no_angle : ps.head?.any (·.isSymbol '<') = false
  no_parenthesis : ps.head?.any (·.isGroup '(') = false
  no_word : (dropModifiers ps).head?.any (·.isWord "constructor") = false

theorem Unconstructed.splitConstructor_eq (h : Unconstructed ps) :
    splitConstructor ps = ([], ps) := by
  have hbare : ps.head?.bind (·.group? '(') = none := by
    cases ps with
    | nil => rfl
    | cons p ps => simpa [isGroup] using h.no_parenthesis
  have hword := h.no_word
  unfold splitConstructor
  dsimp only
  split
  · next heq =>
    simp only [heq, List.head?_cons, Option.any_some] at hword
    rw [hword, hbare]
    rfl
  · rw [hbare]

/-- A piece that is no modifier and no annotation, with which no constructor begins. -/
theorem Unconstructed.cons (hangle : p.isSymbol '<' = false) (hgroup : p.isGroup '(' = false)
    (hat : p.isSymbol '@' = false)
    (hword : ∀ w ∈ "constructor" :: modifierWords, p.isWord w = false) :
    Unconstructed (p :: ps) := by
  rw [List.forall_mem_cons] at hword
  have hmodifier : modifierWords.any p.isWord = false :=
    List.any_eq_false.mpr fun w hw => by simp [hword.2 w hw]
  have hdrop : dropModifiers (p :: ps) = p :: ps := by
    simp [dropModifiers, dropMarks, AnnotationState.next?, hat, hmodifier]
  exact ⟨by simpa using hangle, by simpa using hgroup, by simpa [hdrop] using hword.1⟩

theorem Bodied.unconstructed {tail body : List Piece} (h : Bodied state tail body) :
    Unconstructed tail := by
  cases h with
  | braces hg =>
    have hgroup := isGroup_of_group hg
    exact .cons (isSymbol_group hgroup _) (isGroup_false hgroup (by decide))
      (isSymbol_group hgroup _) fun w _ => isWord_false (word_group hgroup)
  | bodiless h =>
    obtain ⟨hends, -, hword⟩ := h
    cases tail with
    | nil => exact ⟨rfl, rfl, rfl⟩
    | cons p ps =>
      obtain ⟨-, hgroup, hsymbol, -⟩ := endsStatement_head hends
      exact ⟨by simpa using hsymbol '<' (by simp), by simpa using hgroup '(' (by simp), hword⟩

/-- What stands behind the constructor begins with a colon or with `where`. -/
theorem Heritage.head (h : Heritage state ps) : state = .named ∧ ps = [] ∨
    ∃ d qs, ps = d :: qs ∧ (d.isSymbol ':' = true ∨ d.isWord "where" = true) := by
  have hmore {state : HeaderState} {ps : List Piece} (qs : List Piece)
      (ih : state = .named ∧ ps = [] ∨
        ∃ d qs, ps = d :: qs ∧ (d.isSymbol ':' = true ∨ d.isWord "where" = true))
      (hne : state ≠ .named) :
      ∃ d rs, ps ++ qs = d :: rs ∧ (d.isSymbol ':' = true ∨ d.isWord "where" = true) := by
    obtain ⟨d, ps', rfl, hd⟩ := ih.resolve_left fun h => hne h.1
    exact ⟨d, ps' ++ qs, rfl, hd⟩
  induction h with
  | nil => exact .inl ⟨rfl, rfl⟩
  | first hd => exact .inr ⟨_, _, rfl, .inl hd⟩
  | further _ hsup _ _ ih => exact .inr (hmore _ ih fun he => by rw [he] at hsup; cases hsup)
  | called _ _ _ ih | delegated _ _ _ ih => exact .inr (hmore _ ih nofun)
  | @constrained state _ _ _ w _ _ _ _ _ hw _ _ _ _ ih =>
    by_cases hs : state = .named
    · subst hs
      obtain ⟨-, rfl⟩ | ⟨d, qs, rfl, hd⟩ := ih
      · exact .inr ⟨w, _, rfl, .inr hw⟩
      · exact .inr ⟨d, _, rfl, hd⟩
    · exact .inr (hmore _ ih hs)

theorem Heritage.unconstructed {tail body : List Piece} (h : Heritage state ps)
    (ht : Bodied state tail body) : Unconstructed (ps ++ tail) := by
  have hcolon {d : Piece} {ps : List Piece} (hd : d.isSymbol ':' = true) :
      Unconstructed (d :: ps) :=
    .cons (isSymbol_false hd (by decide)) (isGroup_symbol hd _) (isSymbol_false hd (by decide))
      fun w _ => isWord_false (word_symbol hd)
  have hwhere {w : Piece} {ps : List Piece} (hw : w.isWord "where" = true) :
      Unconstructed (w :: ps) := by
    have hword := word_of_isWord hw
    refine .cons (isSymbol_word hword _) (isGroup_word hword _) (isSymbol_word hword _) ?_
    simp [modifierWords, isWord_unique hw]
  rcases h.head with ⟨-, rfl⟩ | ⟨d, qs, rfl, hd | hd⟩
  · exact ht.unconstructed
  · exact hcolon hd
  · exact hwhere hd

theorem Constructor.splitConstructor_append (h : Constructor ps inner) (hr : Unconstructed rest) :
    splitConstructor (ps ++ rest) = (inner, rest) := by
  cases h with
  | nil => exact hr.splitConstructor_eq
  | @bare g _ hg =>
    have hgroup := isGroup_of_group hg
    have hdrop : dropModifiers (g :: rest) = g :: rest := dropMarks_group rfl hgroup nofun
    have hword : g.isWord "constructor" = false := isWord_false (word_group hgroup)
    cases rest <;> simp [splitConstructor, hdrop, hword, hg]
  | @worded mark ms k g _ hms hk hg =>
    have hword := word_of_isWord hk
    have hmodifier : modifierWords.any k.isWord = false := by
      simp [modifierWords, isWord_unique hk]
    have hdrop : dropModifiers (ms ++ [k, g] ++ rest) = k :: g :: rest := by
      rw [dropModifiers, List.append_assoc, hms.dropMarks_append]
      exact dropMarks_word hms.isComplete hword hmodifier
    simp only [splitConstructor, hdrop, hk, if_pos, hg]

/-- What stands behind type parameters does not begin with further ones. -/
theorem Constructor.no_angle (h : Constructor ps inner) (hr : Unconstructed rest) :
    (ps ++ rest).head?.any (·.isSymbol '<') = false := by
  cases h with
  | nil => exact hr.no_angle
  | bare hg => simpa using isSymbol_group (isGroup_of_group hg) _
  | worded hms hk =>
    rw [List.append_assoc]
    exact hms.no_angle (isSymbol_word (word_of_isWord hk) _)

theorem Keywords.classKeyword_append (h : Keywords ps) :
    classKeyword? (ps ++ rest) = some rest := by
  cases h with
  | single hk => rcases hk with hk | hk <;> simp [classKeyword?, hk]
  | functional hk hl => simp [classKeyword?, isWord_unique hk, hk, hl]

/-- The keywords of a class are no modifiers. -/
theorem Keywords.cons (h : Keywords ps) : ∃ k tail, ps = k :: tail ∧ k.word?.isSome = true ∧
    modifierWords.any k.isWord = false := by
  have hmodifier {k : Piece} {w : String} (hk : k.isWord w = true) (hw : w ∉ modifierWords) :
      modifierWords.any k.isWord = false :=
    List.any_eq_false.mpr fun v hv => by
      simp [isWord_unique hk (v := v) fun he => hw (he ▸ hv)]
  cases h with
  | single hk =>
    rcases hk with hk | hk <;> exact ⟨_, _, rfl, word_of_isWord hk, hmodifier hk (by decide)⟩
  | functional hk => exact ⟨_, _, rfl, word_of_isWord hk, hmodifier hk (by decide)⟩

namespace DeclaredClass

/-- The variables that the constructor binds and those of the properties in the body. -/
def boundVariables (c : DeclaredClass) : List Variable :=
  c.parameters ++ c.properties.filterMap Property.variable?

/-- What is read for them. -/
def entries (c : DeclaredClass) : List Variable :=
  c.parameters ++ c.properties.filterMap Property.read?

def declaration (c : DeclaredClass) : Declaration :=
  ⟨c.name, c.entries.map Variable.field⟩

end DeclaredClass

/-- A class is read as it is declared. -/
theorem DeclaresClass.classDeclaration_eq {c : DeclaredClass} (h : DeclaresClass ps c) :
    ∃ rest, classDeclaration? ps = some (c.declaration, rest) := by
  cases h with
  | @intro mark ms ks p name ts cs inner parameters state hs tail body properties hms hks hp hts hcs
      hparameters hhs htail hbody =>
    obtain ⟨k, behind, hcons, hword, hmodifier⟩ := hks.cons
    have hun := hhs.unconstructed htail
    obtain ⟨braces, more, hsplit, hinner, hbraces⟩ := htail.splitBody_eq hhs.complete
    have hdrop : dropModifiers (ms ++ (ks ++ p :: (ts ++ (cs ++ (hs ++ tail))))) =
        ks ++ p :: (ts ++ (cs ++ (hs ++ tail))) := by
      rw [dropModifiers, hms.dropMarks_append, hcons]
      exact dropMarks_word hms.isComplete hword hmodifier
    have hread : splitBody .named (hs ++ tail) = (braces, more) := by
      rw [hhs.splitBody_append, hsplit]
    have hskip : skipAngles 0 (ts ++ (cs ++ (hs ++ tail))) = cs ++ (hs ++ tail) :=
      hts.skipAngles_append (hcs.no_angle hun)
    refine ⟨more, ?_⟩
    simp only [classDeclaration?, hdrop, hks.classKeyword_append, List.head?_cons, hp,
      List.drop_succ_cons, List.drop_zero, hskip, hcs.splitConstructor_append hun, hread, hinner,
      hparameters.parameterFields_eq, bodyFields_eq hbody, hbraces, Option.bind_eq_bind,
      Option.bind_some]
    simp [DeclaredClass.declaration, DeclaredClass.entries]

end Source.Kotlin

end Scaffold
