import Scaffold.Proofs.Angles
import Scaffold.Source.Kotlin.Reader

/-!
# Annotations and types of Kotlin

Each is read whole, whatever follows it that does not go on with it. The text of
a type is that of its pieces, unless a comment stands in front: then it is the
comment. The dynamic type has no text of its own.
-/

namespace Scaffold.Source.Kotlin

open Piece

def isName (p : Piece) : Bool := (name? p).isSome

/-- What names an annotation: a name with type arguments, others behind dots, and in front of it
perhaps the part of the declaration that it is for. -/
inductive Naming : List Piece → Prop
  | name {p} : isName p = true → Naming [p]
  | member {ps d p} : Naming ps → d.isSymbol '.' = true → isName p = true → Naming (ps ++ [d, p])
  | target {ps d p} : Naming ps → d.isSymbol ':' = true → isName p = true → Naming (ps ++ [d, p])
  | applied {ps a inner b} : Naming ps → a.isSymbol '<' = true → Angled isArgument inner →
      b.isSymbol '>' = true → Naming (ps ++ (a :: inner ++ [b]))

/-- An annotation, or several between brackets. Behind its name a bare one may still go on. -/
inductive Annotation (isApplied : Piece → Bool) : AnnotationState → List Piece → Prop
  | bare {a ps} : a.isSymbol '@' = true → Naming ps → Annotation isApplied .name (a :: ps)
  | applied {a ps g} : a.isSymbol '@' = true → Naming ps → g.isGroup '(' = true →
      isApplied g = true → Annotation isApplied .outside (a :: ps ++ [g])
  | several {a g} : a.isSymbol '@' = true → g.isGroup '[' = true →
      Annotation isApplied .outside [a, g]
  | severalFor {a ps d g} : a.isSymbol '@' = true → Naming ps → d.isSymbol ':' = true →
      g.isGroup '[' = true → Annotation isApplied .outside (a :: ps ++ [d, g])

/-- Modifiers and annotations, in the state of a reader behind them. -/
inductive Marks (words : List String) : AnnotationState → List Piece → Prop
  | nil : Marks words .outside []
  | word {mark ps p} : Marks words mark ps → words.any p.isWord = true →
      Marks words .outside (ps ++ [p])
  | annotated {mark mark' ps qs} : Marks words mark ps → Annotation (!·.startsLine) mark' qs →
      Marks words mark' (ps ++ qs)

/-- The pieces spell a type, in the state of a reader behind them: what stands between parentheses
may still turn out to be the parameters of a function. -/
inductive Spells : TypeState → List Piece → Prop
  | name {p} : isName p = true → p.isWord "suspend" = false → Spells .named [p]
  | parenthesis {p} : p.isGroup '(' = true → Spells .closed [p]
  | suspended {state p ps} : p.isWord "suspend" = true → Spells state ps → Spells state (p :: ps)
  /-- What stands between parentheses at once behind a bare annotation would be its arguments. -/
  | annotated {mark state ps qs} : Annotation (·.first.gap = []) mark ps → Spells state qs →
      (mark = .name → ∀ p ∈ qs.head?, p.isGroup '(' = true → p.first.gap ≠ []) →
      Spells state (ps ++ qs)
  | applied {ps a inner b} : Spells .named ps → a.isSymbol '<' = true → Angled isArgument inner →
      b.isSymbol '>' = true → Spells .named (ps ++ (a :: inner ++ [b]))
  | nullable {state ps q} : Spells state ps → q.isSymbol '?' = true → Spells state (ps ++ [q])
  | joined {state state' ps d qs} : Spells state ps →
      d.isSymbol '.' = true ∨ d.isSymbol '&' = true → Spells state' qs →
      Spells state' (ps ++ d :: qs)
  | function {state ps d qs} : Spells .closed ps → d.isArrow = true → Spells state qs →
      Spells state (ps ++ d :: qs)

/-- Nothing that goes on with a type. -/
def EndsType (rest : List Piece) : Prop :=
  ∀ p ∈ rest.head?, p.isArrow = false ∧ ∀ c ∈ ['<', '.', '&', '?'], p.isSymbol c = false

variable {isApplied : Piece → Bool} {words : List String} {mark mark' : AnnotationState}
  {state state' : TypeState} {p q a b : Piece} {ps qs inner rest taken : List Piece}

-- ---------------------------------------------------------------------------
-- Names
-- ---------------------------------------------------------------------------

theorem word_of_isName (h : isName p = true) : p.word?.isSome = true := by
  rw [isName, name?, Option.isSome_filter] at h
  cases hp : p.word? with
  | none => simp [hp] at h
  | some w => rfl

theorem isName_of_word (h : p.word? = none) : isName p = false := by
  simp [isName, name?, h]

theorem isWord_of_isName {w : String} (h : isName p = true) (hw : w ∈ reserved) :
    p.isWord w = false := by
  rw [isName, name?, Option.isSome_filter, Option.any_eq_true] at h
  obtain ⟨v, hv, hname⟩ := h
  simp only [Bool.and_eq_true, decide_eq_true_eq] at hname
  simp only [isWord, hv, Option.some.injEq, decide_eq_false_iff_not]
  rintro rfl
  exact hname.1 hw

theorem isArrow_word (h : p.word?.isSome = true) : p.isArrow = false := by
  cases p with
  | group => rfl
  | lexeme l =>
    simp only [word?] at h
    split at h
    · next hs => simp [isArrow, hs]
    · cases h

-- ---------------------------------------------------------------------------
-- Runs
-- ---------------------------------------------------------------------------

section

variable {σ : Type} {next? : σ → Piece → Option σ} {s s' : σ}

/-- The state of a reader behind some pieces, if it goes on with all of them. -/
def run? (next? : σ → Piece → Option σ) (s : σ) (ps : List Piece) : Option σ := ps.foldlM next? s

theorem run?_nil : run? next? s [] = some s := rfl

theorem run?_cons (p : Piece) (ps : List Piece) :
    run? next? s (p :: ps) = (next? s p).bind (run? next? · ps) := by
  rw [run?, List.foldlM_cons]
  rfl

theorem run?_append (ps qs : List Piece) :
    run? next? s (ps ++ qs) = (run? next? s ps).bind (run? next? · qs) := by
  rw [run?, List.foldlM_append]
  rfl

/-- Type arguments are open, the outermost in the first of the states; the last is behind them. -/
structure Counts (next? : σ → Piece → Option σ) (arguments : Nat → σ) (closed : σ) : Prop where
  next (depth : Nat) (p : Piece) : next? (arguments depth) p =
    if p.isSymbol '<' then some (arguments (depth + 1))
    else if p.isSymbol '>' then some (if depth ≤ 1 then closed else arguments (depth - 1))
    else some (arguments depth)

namespace Counts

variable {arguments : Nat → σ} {closed : σ}

theorem run_inside (h : Counts next? arguments closed) (hi : Angled isArgument inner)
    (depth : Nat) :
    run? next? (arguments (depth + 1)) inner = some (arguments (depth + 1)) := by
  generalize hplain : isArgument = plain at hi
  induction hi generalizing depth with
  | nil => rfl
  | @cons plain p ps hp _ ih =>
    subst hplain
    simp only [isArgument, Bool.and_eq_true, Bool.not_eq_true'] at hp
    simp [run?_cons, h.next, hp.1, ih depth rfl]
  | @block plain a inner b ps ha _ hb _ ihi ih =>
    have hlt : b.isSymbol '<' = false := isSymbol_false hb (by decide)
    simp [run?_cons, run?_append, h.next, ha, hb, hlt, ihi _ rfl, ih depth hplain]

theorem run_close (h : Counts next? arguments closed) (hi : Angled isArgument inner)
    (hb : b.isSymbol '>' = true) : run? next? (arguments 1) (inner ++ [b]) = some closed := by
  have hlt : b.isSymbol '<' = false := isSymbol_false hb (by decide)
  simp [run?_append, h.run_inside hi 0, run?_cons, run?_nil, h.next, hlt, hb]

end Counts

end

-- ---------------------------------------------------------------------------
-- Annotations
-- ---------------------------------------------------------------------------

namespace AnnotationState

theorem next?_at (h : mark.isComplete = true) (ha : a.isSymbol '@' = true) :
    mark.next? isApplied a = some .sign := by
  cases mark with
  | outside | name => exact if_pos ha
  | sign | dot | arguments => cases h

theorem next?_sign (h : isName p = true) : next? isApplied .sign p = some .name := by
  have hgroup : ¬p.isGroup '[' = true := by simp [isGroup_word (word_of_isName h)]
  exact (if_neg hgroup).trans (if_pos h)

theorem next?_name (isApplied : Piece → Bool) (p : Piece) :
    next? isApplied .name p =
      if p.isSymbol '@' then some .sign
      else if p.isSymbol '.' then some .dot
      else if p.isSymbol ':' then some .sign
      else if p.isSymbol '<' then some (.arguments 1)
      else if p.isGroup '(' && isApplied p then some .outside
      else none :=
  rfl

theorem next?_symbol {c : Char} (h : p.isSymbol c = true) (hc : c ≠ '@') :
    next? isApplied .name p =
      if c = '.' then some .dot
      else if c = ':' then some .sign
      else if c = '<' then some (.arguments 1)
      else none := by
  have hsymbol (d : Char) : p.isSymbol d = decide (c = d) := by
    by_cases hd : c = d
    · simp [← hd, h]
    · simp [hd, isSymbol_false h hd]
  simp [next?_name, hsymbol, hc, isGroup_symbol h]

/-- A word belongs to no annotation that is complete. -/
theorem next?_word (h : mark.isComplete = true) (hp : p.word?.isSome = true) :
    mark.next? isApplied p = none := by
  cases mark with
  | outside => exact if_neg (by simp [isSymbol_word hp])
  | name => simp [next?_name, isSymbol_word hp, isGroup_word hp]
  | sign | dot | arguments => cases h

theorem next?_group (h : mark.isComplete = true) (hp : p.isGroup '(' = true)
    (hm : mark = .name → isApplied p = false) : mark.next? isApplied p = none := by
  cases mark with
  | outside => exact if_neg (by simp [isSymbol_group hp])
  | name => simp [next?_name, isSymbol_group hp, hm rfl]
  | sign | dot | arguments => cases h

theorem counts : Counts (next? isApplied) .arguments .name := ⟨fun _ _ => rfl⟩

end AnnotationState

open AnnotationState

theorem Naming.run?_sign (h : Naming ps) : run? (next? isApplied) .sign ps = some .name := by
  induction h with
  | name h => simp [run?_cons, run?_nil, next?_sign h]
  | @member ps d p _ hd hp ih =>
    have hdot : next? isApplied .dot p = some .name := if_pos hp
    simp [run?_append, ih, run?_cons, run?_nil, next?_symbol hd, hdot]
  | @target ps d p _ hd hp ih =>
    simp [run?_append, ih, run?_cons, run?_nil, next?_symbol hd, next?_sign hp]
  | @applied ps a inner b _ ha hi hb ih =>
    rw [run?_append, ih, Option.bind_some, List.cons_append, run?_cons, next?_symbol ha (by decide)]
    exact counts.run_close hi hb

theorem Annotation.run?_complete (h : Annotation isApplied mark' ps)
    (hm : mark.isComplete = true) : run? (next? isApplied) mark ps = some mark' := by
  have hseveral {g : Piece} (hg : g.isGroup '[' = true) : next? isApplied .sign g = some .outside :=
    if_pos hg
  cases h with
  | bare ha hn => simp [run?_cons, next?_at hm ha, hn.run?_sign]
  | @applied a ps g ha hn hg hi =>
    have happlied : next? isApplied .name g = some .outside := by
      simp [next?_name, isSymbol_group hg, hg, hi]
    simp [run?_cons, run?_append, run?_nil, next?_at hm ha, hn.run?_sign, happlied]
  | several ha hg => simp [run?_cons, run?_nil, next?_at hm ha, hseveral hg]
  | severalFor ha hn hd hg =>
    simp [run?_cons, run?_append, run?_nil, next?_at hm ha, hn.run?_sign, next?_symbol hd,
      hseveral hg]

theorem Annotation.isComplete (h : Annotation isApplied mark ps) : mark.isComplete = true := by
  cases h <;> rfl

theorem Annotation.cons (h : Annotation isApplied mark ps) :
    ∃ a qs, ps = a :: qs ∧ a.isSymbol '@' = true := by
  cases h with
  | bare ha | applied ha | several ha | severalFor ha => exact ⟨_, _, rfl, ha⟩

theorem Marks.isComplete (h : Marks words mark ps) : mark.isComplete = true := by
  cases h with
  | nil | word => rfl
  | annotated _ h => exact h.isComplete

theorem dropMarks_cons (accepts : Piece → Bool) (mark : AnnotationState) (p : Piece)
    (ps : List Piece) :
    dropMarks words accepts mark (p :: ps) =
      if mark.isComplete && p.isSymbol '@' && !ps.head?.any accepts then p :: ps
      else
        match mark.next? (!·.startsLine) p with
        | some next => dropMarks words accepts next ps
        | none =>
          if mark.isComplete && words.any p.isWord then dropMarks words accepts .outside ps
          else p :: ps :=
  rfl

/-- The pieces of an annotation are dropped one by one. -/
theorem dropMarks_run (h : run? (next? (!·.startsLine)) mark ps = some mark')
    (hs : mark' ≠ .sign) :
    dropMarks words (fun _ => true) mark (ps ++ rest) =
      dropMarks words (fun _ => true) mark' rest := by
  induction ps generalizing mark with
  | nil =>
    cases h
    rfl
  | cons p ps ih =>
    rw [run?_cons, Option.bind_eq_some_iff] at h
    obtain ⟨next, hnext, hrun⟩ := h
    have hfollowed : (mark.isComplete && p.isSymbol '@' &&
        !(ps ++ rest).head?.any fun _ => true) = false := by
      rw [Bool.and_eq_false_iff, Bool.and_eq_false_iff]
      by_cases hp : mark.isComplete = true ∧ p.isSymbol '@' = true
      · -- An annotation goes on behind its sign.
        rw [next?_at hp.1 hp.2, Option.some.injEq] at hnext
        subst hnext
        cases ps with
        | nil => exact absurd (Option.some.inj hrun).symm hs
        | cons => simp
      · simp only [not_and, Bool.not_eq_true] at hp
        cases hm : mark.isComplete <;> simp_all
    rw [List.cons_append, dropMarks_cons, hfollowed, if_neg (by decide), hnext]
    exact ih hrun

theorem Marks.dropMarks_append (h : Marks words mark ps) :
    dropMarks words (fun _ => true) .outside (ps ++ rest) =
      dropMarks words (fun _ => true) mark rest := by
  induction h generalizing rest with
  | nil => rfl
  | @word mark ps p hps hp ih =>
    have hword : p.word?.isSome = true := by
      obtain ⟨w, -, hw⟩ := List.any_eq_true.mp hp
      exact word_of_isWord hw
    rw [List.append_assoc, ih, List.singleton_append, dropMarks_cons, isSymbol_word hword,
      Bool.and_false, Bool.false_and, if_neg (by decide), next?_word hps.isComplete hword]
    simp [hps.isComplete, hp]
  | @annotated mark mark' ps qs hps hqs ih =>
    rw [List.append_assoc, ih]
    refine dropMarks_run (hqs.run?_complete hps.isComplete) ?_
    rintro rfl
    cases hqs

/-- No mark begins with a word that is no modifier. -/
theorem dropMarks_word (hm : mark.isComplete = true) (hp : p.word?.isSome = true)
    (hw : words.any p.isWord = false) :
    dropMarks words (fun _ => true) mark (p :: ps) = p :: ps := by
  rw [dropMarks_cons, isSymbol_word hp, Bool.and_false, Bool.false_and, if_neg (by decide),
    next?_word hm hp]
  simp [hw]

theorem dropMarks_group (hm : mark.isComplete = true) (hp : p.isGroup '(' = true)
    (hline : mark = .name → p.startsLine = true) :
    dropMarks words (fun _ => true) mark (p :: ps) = p :: ps := by
  rw [dropMarks_cons, isSymbol_group hp, Bool.and_false, Bool.false_and, if_neg (by decide),
    next?_group hm hp fun h => by simp [hline h]]
  simp [isWord_false (word_group hp)]

-- ---------------------------------------------------------------------------
-- Types
-- ---------------------------------------------------------------------------

namespace TypeState

theorem counts : Counts next? .arguments .named := ⟨fun _ _ => rfl⟩

theorem next?_expected (mark : AnnotationState) (p : Piece) :
    next? (.expected mark) p =
      match mark.next? (·.first.gap = []) p with
      | some next => some (.expected next)
      | none =>
        if !mark.isComplete then none
        else if p.isWord "suspend" then some (.expected .outside)
        else if isName p then some .named
        else if p.isGroup '(' then some .closed
        else none :=
  rfl

theorem next?_ended (hs : state.isEnded = true) (p : Piece) :
    state.next? p =
      if p.isArrow then if state = .closed then some (.expected .outside) else none
      else if p.isSymbol '<' then if state = .named then some (.arguments 1) else none
      else if p.isSymbol '.' || p.isSymbol '&' then some (.expected .outside)
      else if p.isSymbol '?' then some state
      else none := by
  cases state with
  | named | closed => rfl
  | expected | arguments => cases hs

/-- The pieces of an annotation in front of a type. -/
theorem run?_marks (h : run? (AnnotationState.next? (·.first.gap = [])) mark ps = some mark') :
    run? next? (.expected mark) ps = some (.expected mark') := by
  induction ps generalizing mark with
  | nil =>
    cases h
    rfl
  | cons p ps ih =>
    rw [run?_cons, Option.bind_eq_some_iff] at h
    obtain ⟨next, hnext, hrun⟩ := h
    rw [run?_cons, next?_expected]
    simp only [hnext, Option.bind_some]
    exact ih hrun

theorem next?_word (hm : mark.isComplete = true) (hp : p.word?.isSome = true) :
    next? (.expected mark) p =
      if p.isWord "suspend" then some (.expected .outside)
      else if isName p then some .named
      else none := by
  simp [next?_expected, AnnotationState.next?_word hm hp, hm, isGroup_word hp]

theorem next?_parenthesis (hm : mark.isComplete = true) (hp : p.isGroup '(' = true)
    (happlied : mark = .name → p.first.gap ≠ []) : next? (.expected mark) p = some .closed := by
  have hname : isName p = false := isName_of_word (word_group hp)
  have hnext : mark.next? (·.first.gap = []) p = none :=
    next?_group hm hp fun h => by simp [happlied h]
  simp [next?_expected, hnext, hm, isWord_false (word_group hp), hname, hp]

/-- What a sign behind a type goes on with. -/
theorem next?_symbol {c : Char} (hs : state.isEnded = true) (hp : p.isSymbol c = true) :
    state.next? p =
      if c = '<' then if state = .named then some (.arguments 1) else none
      else if c = '.' ∨ c = '&' then some (.expected .outside)
      else if c = '?' then some state
      else none := by
  have hsymbol (d : Char) : p.isSymbol d = decide (c = d) := by
    by_cases hd : c = d
    · simp [← hd, hp]
    · simp [hd, isSymbol_false hp hd]
  simp [next?_ended hs, isArrow_symbol hp, hsymbol]

theorem next?_arrow (hp : p.isArrow = true) : next? .closed p = some (.expected .outside) :=
  if_pos hp

/-- Nothing else belongs to a type. -/
theorem next?_other (hs : state.isEnded = true) (harrow : p.isArrow = false)
    (hp : ∀ c ∈ ['<', '.', '&', '?'], p.isSymbol c = false) : state.next? p = none := by
  simp only [List.forall_mem_cons] at hp
  simp [next?_ended hs, harrow, hp]

end TypeState

theorem Spells.isEnded (h : Spells state ps) : state.isEnded = true := by
  induction h with
  | name | parenthesis | applied => rfl
  | suspended _ _ ih | annotated _ _ _ ih | nullable _ _ ih => exact ih
  | joined _ _ _ _ ih | function _ _ _ _ ih => exact ih

theorem Spells.ne_nil (h : Spells state ps) : ps ≠ [] := by
  induction h <;> simp_all

theorem Spells.run?_expected (h : Spells state ps) (hm : mark.isComplete = true)
    (happlied : mark = .name → ∀ p ∈ ps.head?, p.isGroup '(' = true → p.first.gap ≠ []) :
    run? TypeState.next? (.expected mark) ps = some state := by
  have hhead {ps qs : List Piece} {p : Piece} (h : p ∈ ps.head?) : p ∈ (ps ++ qs).head? := by
    cases ps <;> simp_all
  have houtside : AnnotationState.outside.isComplete = true := rfl
  induction h generalizing mark with
  | name hn hs => simp [run?_cons, run?_nil, TypeState.next?_word hm (word_of_isName hn), hs, hn]
  | parenthesis hp =>
    rw [run?_cons, TypeState.next?_parenthesis hm hp fun h => happlied h _ rfl hp]
    rfl
  | suspended hp _ ih =>
    rw [run?_cons, TypeState.next?_word hm (word_of_isWord hp), if_pos hp]
    exact ih houtside nofun
  | annotated ha _ hbehind ih =>
    rw [run?_append, TypeState.run?_marks (ha.run?_complete hm)]
    exact ih ha.isComplete hbehind
  | applied hps ha hi hb ih =>
    rw [run?_append, ih hm fun h p hp => happlied h p (hhead hp), Option.bind_some,
      List.cons_append, run?_cons, TypeState.next?_symbol rfl ha]
    exact TypeState.counts.run_close hi hb
  | nullable hps hq ih =>
    rw [run?_append, ih hm fun h p hp => happlied h p (hhead hp), Option.bind_some, run?_cons,
      TypeState.next?_symbol hps.isEnded hq]
    rfl
  | joined hps hd _ ih ih' =>
    rw [run?_append, ih hm fun h p hp => happlied h p (hhead hp), Option.bind_some, run?_cons]
    rcases hd with hd | hd <;> rw [TypeState.next?_symbol hps.isEnded hd] <;>
      exact ih' houtside nofun
  | function _ hd _ ih ih' =>
    rw [run?_append, ih hm fun h p hp => happlied h p (hhead hp), Option.bind_some, run?_cons,
      TypeState.next?_arrow hd]
    exact ih' houtside nofun

theorem splitType_cons (state : TypeState) (taken : List Piece) (p : Piece) (ps : List Piece) :
    splitType state taken (p :: ps) =
      match state.next? p with
      | some next => splitType next (p :: taken) ps
      | none => (taken.reverse, p :: ps) :=
  rfl

theorem splitType_run (h : run? TypeState.next? state ps = some state') :
    splitType state taken (ps ++ rest) = splitType state' (ps.reverse ++ taken) rest := by
  induction ps generalizing state taken with
  | nil =>
    cases h
    rfl
  | cons p ps ih =>
    rw [run?_cons, Option.bind_eq_some_iff] at h
    obtain ⟨next, hnext, hrun⟩ := h
    rw [List.cons_append, splitType_cons, hnext]
    simpa using ih hrun

theorem EndsType.splitType_eq (h : EndsType rest) (hs : state.isEnded = true) :
    splitType state taken rest = (taken.reverse, rest) := by
  cases rest with
  | nil => rfl
  | cons p ps =>
    obtain ⟨harrow, hp⟩ := h p rfl
    rw [splitType_cons, TypeState.next?_other hs harrow hp]

/-- A type is read up to its end. -/
theorem Spells.splitType_eq (h : Spells state ps) (hr : EndsType rest) :
    splitType (.expected .outside) [] (ps ++ rest) = (ps, rest) := by
  have hrun : run? TypeState.next? (.expected .outside) ps = some state := h.run?_expected rfl nofun
  rw [splitType_run hrun, hr.splitType_eq h.isEnded]
  simp

-- ---------------------------------------------------------------------------
-- The text of a type
-- ---------------------------------------------------------------------------

/-- The first comment in front of some pieces. -/
def comment? (ps : List Piece) : Option String :=
  (ps.head?.bind (·.first.comment?)).map String.ofList

/-- Nothing but the word of the dynamic type. -/
def isDynamic (ps : List Piece) : Bool :=
  ps.head?.any (·.isWord "dynamic") && ps.length = 1

/-- What is read for the text of a type: a comment in front of it, for the dynamic type that of the
default value, if there is one, and else the type. -/
def readText (type default : List Piece) : String :=
  (comment? type).getD
    (if isDynamic type then if default.isEmpty then Field.noType else Piece.spell default
     else Piece.spell type)

theorem Spells.typeText_append (h : Spells state ps) (hr : EndsType rest) :
    typeText false (ps ++ rest) = readText ps [] := by
  have hsplit := h.splitType_eq hr
  obtain ⟨p, tail, rfl⟩ := List.exists_cons_of_ne_nil h.ne_nil
  rw [List.cons_append] at hsplit
  simp only [List.cons_append, typeText, hsplit, readText, comment?, isDynamic]
  cases hc : p.first.comment? with
  | some comment => simp [hc]
  | none => cases rest <;> simp [hc]

/-- What may stand behind the type of a parameter. -/
inductive Defaulted : List Piece → List Piece → Prop
  | nil : Defaulted [] []
  | value {e ps} : e.isSymbol '=' = true → ps ≠ [] → Angled isLoose ps → Defaulted ps (e :: ps)

theorem Spells.typeText_defaulted {default : List Piece} (h : Spells state ps)
    (hr : Defaulted default rest) : typeText true (ps ++ rest) = readText ps default := by
  have hends : EndsType rest := by
    cases hr with
    | nil => simp [EndsType]
    | value he =>
      have hother {c : Char} (hc : '=' ≠ c) := isSymbol_false he hc
      simp [EndsType, isArrow_symbol he, hother]
  have hsplit := h.splitType_eq hends
  obtain ⟨p, tail, rfl⟩ := List.exists_cons_of_ne_nil h.ne_nil
  rw [List.cons_append] at hsplit
  simp only [List.cons_append, typeText, hsplit, readText, comment?, isDynamic]
  cases hc : p.first.comment? with
  | some comment => simp [hc]
  | none => cases hr <;> simp_all

theorem mem_spell {c : Char} (hp : p ∈ ps) (hc : c ∈ p.first.text.toList) :
    c ∈ (Piece.spell ps).toList := by
  have hchars (p : Piece) : ∃ cs, p.chars = p.first.gapChars ++ (p.first.text.toList ++ cs) := by
    cases p with
    | lexeme l => exact ⟨[], by simp [chars, lexemeChars, first]⟩
    | group o inner e =>
      exact ⟨charsOf inner ++ (e.map lexemeChars).getD [], by simp [chars, lexemeChars, first]⟩
  cases ps with
  | nil => cases hp
  | cons q qs =>
    obtain ⟨cs, hcs⟩ := hchars q
    rw [Piece.spell, String.toList_ofList, charsOf, hcs, List.append_assoc, List.drop_left]
    rcases List.mem_cons.mp hp with rfl | hp
    · simp [hc]
    · have hmem : c ∈ charsOf qs := by
        induction qs with
        | nil => cases hp
        | cons r rs ih =>
          rw [charsOf, List.mem_append]
          rcases List.mem_cons.mp hp with rfl | hp
          · obtain ⟨ds, hds⟩ := hchars p
            exact .inl (by simp [hds, hc])
          · exact .inr (ih (List.mem_cons_of_mem _ hp) hp)
      simp [hmem]

theorem mem_text_symbol {c : Char} (h : p.isSymbol c = true) : c ∈ p.first.text.toList := by
  cases p with
  | group => cases h
  | lexeme l =>
    simp only [isSymbol, Bool.and_eq_true, decide_eq_true_eq] at h
    simp [first, h.2, Char.toString]

theorem mem_text_group {c : Char} (h : p.isGroup c = true) : c ∈ p.first.text.toList := by
  cases p with
  | lexeme => cases h
  | group o inner e =>
    simp only [isGroup, group?] at h
    split at h
    · next ho => simp [first, ho, Char.toString]
    · cases h

theorem mem_text_arrow (h : p.isArrow = true) : '-' ∈ p.first.text.toList := by
  cases p with
  | group => cases h
  | lexeme l =>
    simp only [isArrow, Bool.and_eq_true, decide_eq_true_eq] at h
    simp [first, h.2]

theorem text_of_word {w : String} (h : p.word? = some w) : p.first.text = w := by
  cases p with
  | group => cases h
  | lexeme l =>
    simp only [word?] at h
    split at h
    · exact Option.some.inj h
    · cases h

/-- A type is one name or holds a letter or a sign that is not in the text of no type. -/
theorem Spells.name_or_mem (h : Spells state ps) : (∃ p, ps = [p] ∧ isName p = true) ∨
    ∃ p ∈ ps, ∃ c ∈ p.first.text.toList, c ∉ Field.noType.toList := by
  cases h with
  | name hn => exact .inl ⟨_, rfl, hn⟩
  | parenthesis hp => exact .inr ⟨_, by simp, '(', mem_text_group hp, by decide⟩
  | @suspended _ p _ hp =>
    have htext : p.first.text = "suspend" := text_of_word (by simpa [isWord] using hp)
    exact .inr ⟨p, by simp, 's', by simp [htext], by decide⟩
  | annotated ha =>
    obtain ⟨a, tail, rfl, hat⟩ := ha.cons
    exact .inr ⟨a, by simp, '@', mem_text_symbol hat, by decide⟩
  | applied _ ha => exact .inr ⟨_, by simp, '<', mem_text_symbol ha, by decide⟩
  | nullable _ hq => exact .inr ⟨_, by simp, '?', mem_text_symbol hq, by decide⟩
  | joined _ hd =>
    rcases hd with hd | hd
    · exact .inr ⟨_, by simp, '.', mem_text_symbol hd, by decide⟩
    · exact .inr ⟨_, by simp, '&', mem_text_symbol hd, by decide⟩
  | function _ hd => exact .inr ⟨_, by simp, '-', mem_text_arrow hd, by decide⟩

/-- No type is spelled as if there were none. -/
theorem Spells.spell_ne (h : Spells state ps) : Piece.spell ps ≠ Field.noType := by
  rcases h.name_or_mem with ⟨p, rfl, hn⟩ | ⟨p, hp, c, hc, hnone⟩
  · intro he
    obtain ⟨w, hw⟩ := Option.isSome_iff_exists.mp (word_of_isName hn)
    have htext : Piece.spell [p] = w := by
      rw [← text_of_word hw]
      cases p with
      | group => cases hw
      | lexeme l => simp [Piece.spell, charsOf, chars, lexemeChars, first]
    have hnull : p.isWord "null" = true := by
      simpa [isWord, hw, Field.noType] using htext.symm.trans he
    rw [isWord_of_isName hn (by decide)] at hnull
    cases hnull
  · exact fun he => hnone (he ▸ mem_spell hp hc)

-- ---------------------------------------------------------------------------
-- Angles and commas
-- ---------------------------------------------------------------------------

/-- Neither an angle nor a comma. -/
def isPlain (p : Piece) : Bool := isStraight p && isLoose p

theorem isPlain_symbol {c : Char} (h : p.isSymbol c = true) (hc : c ∉ ['<', '>', ',']) :
    isPlain p = true := by
  simp only [List.mem_cons, List.not_mem_nil, or_false, not_or] at hc
  simp [isPlain, isStraight, isLoose, isSymbol_false h hc.1, isSymbol_false h hc.2.1,
    isSymbol_false h hc.2.2]

theorem isPlain_word (h : p.word?.isSome = true) : isPlain p = true := by
  simp [isPlain, isStraight, isLoose, isSymbol_word h]

theorem isPlain_group {c : Char} (h : p.isGroup c = true) : isPlain p = true := by
  simp [isPlain, isStraight, isLoose, isSymbol_group h]

theorem isPlain_arrow (h : p.isArrow = true) : isPlain p = true := by
  have hsymbol (c : Char) : p.isSymbol c = false := by
    cases hc : p.isSymbol c with
    | false => rfl
    | true => rw [isArrow_symbol hc] at h; cases h
  simp [isPlain, isStraight, isLoose, hsymbol]

theorem Naming.angled (h : Naming ps) : Angled isPlain ps := by
  induction h with
  | name hn => exact .cons (isPlain_word (word_of_isName hn)) .nil
  | member _ hd hp ih | target _ hd hp ih =>
    exact ih.append (.cons (isPlain_symbol hd (by decide))
      (.cons (isPlain_word (word_of_isName hp)) .nil))
  | applied _ ha hi hb ih => exact ih.append (.block ha hi hb .nil)

theorem Annotation.angled (h : Annotation isApplied mark ps) : Angled isPlain ps := by
  cases h with
  | bare ha hn => exact .cons (isPlain_symbol ha (by decide)) hn.angled
  | applied ha hn hg =>
    exact .append (.cons (isPlain_symbol ha (by decide)) hn.angled) (.cons (isPlain_group hg) .nil)
  | several ha hg => exact .cons (isPlain_symbol ha (by decide)) (.cons (isPlain_group hg) .nil)
  | severalFor ha hn hd hg =>
    exact .append (.cons (isPlain_symbol ha (by decide)) hn.angled)
      (.cons (isPlain_symbol hd (by decide)) (.cons (isPlain_group hg) .nil))

theorem Marks.angled (h : Marks words mark ps) : Angled isPlain ps := by
  induction h with
  | nil => exact .nil
  | word _ hp ih =>
    obtain ⟨w, -, hw⟩ := List.any_eq_true.mp hp
    exact ih.append (.cons (isPlain_word (word_of_isWord hw)) .nil)
  | annotated _ hq ih => exact ih.append hq.angled

theorem Spells.angled (h : Spells state ps) : Angled isPlain ps := by
  induction h with
  | name hn => exact .cons (isPlain_word (word_of_isName hn)) .nil
  | parenthesis hp => exact .cons (isPlain_group hp) .nil
  | suspended hp _ ih => exact .cons (isPlain_word (word_of_isWord hp)) ih
  | annotated ha _ _ ih => exact ha.angled.append ih
  | applied _ ha hi hb ih => exact ih.append (.block ha hi hb .nil)
  | nullable _ hq ih => exact ih.append (.cons (isPlain_symbol hq (by decide)) .nil)
  | joined _ hd _ ih ih' =>
    refine ih.append (.cons ?_ ih')
    exact hd.elim (isPlain_symbol · (by decide)) (isPlain_symbol · (by decide))
  | function _ hd _ ih ih' => exact ih.append (.cons (isPlain_arrow hd) ih')

end Scaffold.Source.Kotlin
