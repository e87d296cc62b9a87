import Scaffold.Proofs.Kotlin.Types

/-!
# Properties of Kotlin

A parameter of a primary constructor gives a field when it is bound, whatever
its marks, its type and its default value, and a body gives one for each of its
properties. A destructuring declaration has no variable that is its own: it gives
the name that it is initialised with, if that is all that its initialiser is.
-/

namespace Scaffold.Source.Kotlin

open Piece

/-- A variable as it is declared. -/
structure Variable where
  name : String
  /-- The pieces of its type, if it declares one. -/
  type : Option (List Piece)
  /-- The pieces of the default value of a parameter. -/
  default : List Piece

def Variable.field (v : Variable) : Field :=
  ⟨v.name, (v.type.map (readText · v.default)).getD Field.noType⟩

/-- A parameter of a primary constructor, with the variable that it binds. -/
inductive Parameter : List Piece → Option Variable → Prop
  | bound {mark ms b p w d state type default qs} : Marks modifierWords mark ms →
      bindsProperty b = true → name? p = some w → d.isSymbol ':' = true → Spells state type →
      Defaulted default qs →
      Parameter (ms ++ b :: p :: d :: (type ++ qs)) (some ⟨w, some type, default⟩)
  | plain {mark ms p d state type default qs} : Marks modifierWords mark ms → isName p = true →
      d.isSymbol ':' = true → Spells state type → Defaulted default qs →
      Parameter (ms ++ p :: d :: (type ++ qs)) none

/-- The parameters of a primary constructor. A comma may stand behind the last one. -/
inductive Parameters : List Piece → List Variable → Prop
  | nil : Parameters [] []
  | last {ps v?} : Parameter ps v? → Parameters ps v?.toList
  | cons {ps v? c qs vs} : Parameter ps v? → c.isSymbol ',' = true → Parameters qs vs →
      Parameters (ps ++ c :: qs) (v?.toList ++ vs)

inductive TypeParameters : List Piece → Prop
  | nil : TypeParameters []
  | block {a inner b} : a.isSymbol '<' = true → Angled isStraight inner → b.isSymbol '>' = true →
      TypeParameters (a :: inner ++ [b])

/-- The type of a receiver. Type arguments can follow a name only. -/
inductive Receiver : Bool → List Piece → Prop
  | name {p} : isName p = true → Receiver true [p]
  | parenthesis {p} : p.isGroup '(' = true → Receiver false [p]
  | applied {ps a inner b} : Receiver true ps → a.isSymbol '<' = true → Angled isArgument inner →
      b.isSymbol '>' = true → Receiver true (ps ++ (a :: inner ++ [b]))
  | nullable {named ps q} : Receiver named ps → q.isSymbol '?' = true → Receiver named (ps ++ [q])
  | member {named ps d p} : Receiver named ps → d.isSymbol '.' = true → isName p = true →
      Receiver true (ps ++ [d, p])

/-- What stands in front of the name of a variable. -/
inductive Received : List Piece → Prop
  | nil : Received []
  | dot {named ps d} : Receiver named ps → d.isSymbol '.' = true → Received (ps ++ [d])

/-- What stands behind the name of a variable, up to the end of the body, with the type in it. -/
inductive Typing : List Piece → Option (List Piece) → Prop
  | declared {d state type rest} : d.isSymbol ':' = true → Spells state type → EndsType rest →
      Typing (d :: (type ++ rest)) (some type)
  | inferred {rest} : (∀ p ∈ rest.head?, ∀ c ∈ [':', '.', '<', '?'], p.isSymbol c = false) →
      Typing rest none

/-- What stands behind a destructuring pattern, with the name that is the whole initialiser. -/
inductive Initialised : List Piece → Option String → Prop
  | bare {e p w rest} : e.isSymbol '=' = true → name? p = some w → endsStatement rest = true →
      Initialised (e :: p :: rest) (some w)
  | other {ps} : (∀ e p rest, ps = e :: p :: rest → e.isSymbol '=' = true → isName p = true →
      endsStatement rest = false) → Initialised ps none

inductive Property
  | single (v : Variable)
  /-- A destructuring declaration, with the name that is the whole initialiser. -/
  | destructured (initialiser : Option String)

/-- The variable of a property that declares a single one. -/
def Property.variable? : Property → Option Variable
  | single v => some v
  | destructured _ => none

/-- What is read for a property: for a destructuring declaration its initialiser, when that is a
bare name. -/
def Property.read? : Property → Option Variable
  | single v => some v
  | destructured initialiser => initialiser.map (⟨·, none, []⟩)

/-- A parenthesis behind a bare annotation is its argument list unless it starts a line. -/
def Unapplied (mark : AnnotationState) (ps : List Piece) : Prop :=
  mark = .name → ∀ p ∈ ps.head?, p.isGroup '(' = true → p.startsLine = true

/-- The pieces behind the binder of a property, up to the end of the body. -/
inductive Declares : List Piece → Property → Prop
  | single {ts mark ms rs p w ps type} : TypeParameters ts → Marks [] mark ms → Received rs →
      Unapplied mark (rs ++ p :: ps) → name? p = some w → Typing ps type →
      Declares (ts ++ (ms ++ (rs ++ p :: ps))) (.single ⟨w, type, []⟩)
  | destructured {mark ms g ps initialiser} : Marks [] mark ms → Unapplied mark (g :: ps) →
      g.isGroup '(' = true → (∀ p ∈ ps.head?, p.isSymbol '.' = false ∧ p.isSymbol '?' = false) →
      Initialised ps initialiser → Declares (ms ++ g :: ps) (.destructured initialiser)

/-- The pieces of a body with the properties that stand directly in it. -/
inductive Body : List Piece → List Property → Prop
  | nil : Body [] []
  | other {p ps xs} : bindsProperty p = false → Body ps xs → Body (p :: ps) xs
  | property {b ps x xs} : bindsProperty b = true → Declares ps x → Body ps xs →
      Body (b :: ps) (x :: xs)

variable {mark : AnnotationState} {words : List String} {last : Option String} {w : String}
  {named : Bool} {p q a b : Piece} {ps qs inner rest : List Piece}

-- ---------------------------------------------------------------------------
-- Parameters
-- ---------------------------------------------------------------------------

theorem bindsProperty_word (h : bindsProperty p = true) :
    p.word?.isSome = true ∧ modifierWords.any p.isWord = false := by
  rw [bindsProperty, Bool.or_eq_true] at h
  simp only [isWord, decide_eq_true_eq] at h
  rcases h with h | h <;> simp [h, modifierWords, isWord]

theorem dropModifiers_colon (hp : p.isSymbol ':' = true) :
    dropMarks modifierWords (fun _ => true) .outside (p :: ps) = p :: ps := by
  have hat : p.isSymbol '@' = false := isSymbol_false hp (by decide)
  simp [dropMarks, AnnotationState.next?, hat, isWord_false (word_symbol hp)]

theorem parameterField_none (h : (dropModifiers ps).head?.any bindsProperty = false) :
    parameterField? ps = none := by
  unfold parameterField?
  split
  · next heq =>
    simp only [heq, List.head?_cons, Option.any_some] at h
    simp [h]
  · rfl

theorem Parameter.parameterField_eq {v? : Option Variable} (h : Parameter ps v?) :
    parameterField? ps = v?.map Variable.field := by
  cases h with
  | @bound mark ms b p w d _ type default qs hms hb hp hd ht hq =>
    obtain ⟨hword, hmodifier⟩ := bindsProperty_word hb
    have hdrop : dropModifiers (ms ++ b :: p :: d :: (type ++ qs)) =
        b :: p :: d :: (type ++ qs) := by
      rw [dropModifiers, hms.dropMarks_append, dropMarks_word hms.isComplete hword hmodifier]
    simp [parameterField?, hdrop, hb, hd, hp, ht.typeText_defaulted hq, Variable.field]
  | @plain mark ms p d _ type default qs hms hp hd ht hq =>
    have hword := word_of_isName hp
    have hbinds : bindsProperty p = false := by
      simp [bindsProperty, isWord_of_isName hp (w := "val") (by decide),
        isWord_of_isName hp (w := "var") (by decide)]
    refine parameterField_none ?_
    by_cases hmodifier : modifierWords.any p.isWord = true
    · -- The name is taken for one more modifier.
      have hmarks : ms ++ p :: d :: (type ++ qs) = (ms ++ [p]) ++ d :: (type ++ qs) := by simp
      have hcolon : bindsProperty d = false := by
        simp [bindsProperty, isWord_false (word_symbol hd)]
      rw [dropModifiers, hmarks, (hms.word hmodifier).dropMarks_append, dropModifiers_colon hd]
      simpa using hcolon
    · rw [dropModifiers, hms.dropMarks_append,
        dropMarks_word hms.isComplete hword (by simpa using hmodifier)]
      simpa using hbinds

/-- The pieces up to the colon of a parameter and those behind it. -/
theorem Parameter.split {v? : Option Variable} (h : Parameter ps v?) :
    ∃ front d behind, ps = front ++ d :: behind ∧ Angled isPlain front ∧ d.isSymbol ':' = true ∧
      Angled isLoose behind := by
  have hplain : ∀ p, isPlain p = true → isLoose p = true := fun p h => by
    rw [isPlain, Bool.and_eq_true] at h
    exact h.2
  have hdefault {default qs : List Piece} (h : Defaulted default qs) : Angled isLoose qs := by
    cases h with
    | nil => exact .nil
    | value he _ hl => exact .cons (by simp [isLoose, isSymbol_false he]) hl
  cases h with
  | bound hms hb hp hd ht hq =>
    have hname := word_of_isName (by rw [isName, hp]; rfl)
    exact ⟨_, _, _, by rw [List.append_cons, List.append_cons], (hms.angled.append
      (.cons (isPlain_word (bindsProperty_word hb).1) .nil)).append
        (.cons (isPlain_word hname) .nil), hd, (ht.angled.mono hplain).append (hdefault hq)⟩
  | plain hms hp hd ht hq =>
    exact ⟨_, _, _, by rw [List.append_cons], hms.angled.append
      (.cons (isPlain_word (word_of_isName hp)) .nil), hd,
        (ht.angled.mono hplain).append (hdefault hq)⟩

theorem Parameter.angled {v? : Option Variable} (h : Parameter ps v?) : Angled isLoose ps := by
  obtain ⟨front, d, behind, rfl, hf, hd, hb⟩ := h.split
  have hfront : Angled isLoose front := hf.mono fun p hp => by
    rw [isPlain, Bool.and_eq_true] at hp
    exact hp.2
  exact hfront.append (.cons (by simp [isLoose, isSymbol_false hd]) hb)

theorem Parameter.closing {v? : Option Variable} (h : Parameter ps v?) : Closing ps := by
  obtain ⟨front, d, behind, rfl, hf, hd, -⟩ := h.split
  have hfront : Closing front := .angled (hf.mono fun p hp => by
    rw [isPlain, Bool.and_eq_true] at hp
    exact hp.1)
  have hother {c : Char} (hc : ':' ≠ c) : d.isSymbol c = false := isSymbol_false hd hc
  exact hfront.append (.stop (hother (by decide)) (hother (by decide))
    (by simp [isArgument, hother, word_symbol hd, isGroup_symbol hd, isArrow_symbol hd]))

theorem Parameters.blocks {vs : List Variable} (h : Parameters ps vs) : Blocks ps := by
  induction h with
  | nil => exact fun _ => rfl
  | last hp => simpa using hp.closing [] fun _ => rfl
  | @cons ps _ c qs _ hp hc _ ih =>
    have hcomma : Closing [c] :=
      .piece (isSymbol_false hc (by decide)) (isSymbol_false hc (by decide))
    exact hp.closing _ (hcomma _ ih)

theorem Parameters.parameterFields_eq {vs : List Variable} (h : Parameters ps vs) :
    parameterFields ps = vs.map Variable.field := by
  rw [parameterFields]
  induction h with
  | nil => rfl
  | @last ps v? hp =>
    have ho : Open 0 (ps ++ []) := .inl rfl
    obtain ⟨depth, -, hsplit⟩ := hp.angled.splitCommas_loose (fun _ => id) ho
    rw [List.append_nil] at hsplit
    rw [hsplit]
    cases v? <;> simp [splitCommas, attach, hp.parameterField_eq]
  | @cons ps v? c qs vs hp hc hqs ih =>
    have ho : Open 0 (ps ++ c :: qs) := .inl rfl
    obtain ⟨depth, ho, hsplit⟩ := hp.angled.splitCommas_loose (fun _ => id) ho
    have hcomma : Closing [c] :=
      .piece (isSymbol_false hc (by decide)) (isSymbol_false hc (by decide))
    obtain rfl := ho.eq_zero (hcomma _ hqs.blocks)
    rw [hsplit, splitCommas_comma _ hc]
    cases v? <;> simp [attach, hp.parameterField_eq, ih]

-- ---------------------------------------------------------------------------
-- Variables behind a receiver
-- ---------------------------------------------------------------------------

theorem variableName_name (h : name? p = some w) :
    variableName? none 0 (p :: ps) = variableName? (some w) 0 ps := by
  simp [variableName?, h]

theorem variableName_parenthesis (h : p.isGroup '(' = true) :
    variableName? none 0 (p :: ps) = variableName? none 0 ps := by
  have hname : name? p = none := by simp [name?, word_group h]
  simp [variableName?, hname, h]

theorem variableName_dot (h : p.isSymbol '.' = true) :
    variableName? last 0 (p :: ps) = variableName? none 0 ps := by
  have hname : name? p = none := by simp [name?, word_symbol h]
  cases last <;> simp [variableName?, hname, h]

theorem variableName_mark (h : p.isSymbol '?' = true) :
    variableName? last 0 (p :: ps) = variableName? last 0 ps := by
  have hname : name? p = none := by simp [name?, word_symbol h]
  have hdot : p.isSymbol '.' = false := isSymbol_false h (by decide)
  have hangle : p.isSymbol '<' = false := isSymbol_false h (by decide)
  cases last <;> simp [variableName?, hname, h, hdot, hangle]

theorem variableName_depth (depth : Nat) (p : Piece) (ps : List Piece) :
    variableName? last (depth + 1) (p :: ps) =
      if p.isSymbol '<' then variableName? last (depth + 2) ps
      else if p.isSymbol '>' then variableName? last depth ps
      else variableName? last (depth + 1) ps := by
  rw [variableName?]

theorem variableName_arguments (hp : Angled isArgument ps) (depth : Nat) :
    variableName? last (depth + 1) (ps ++ rest) = variableName? last (depth + 1) rest := by
  generalize hplain : isArgument = plain at hp
  induction hp generalizing depth rest with
  | nil => rfl
  | @cons plain p ps hp _ ih =>
    subst hplain
    simp only [isArgument, Bool.and_eq_true, Bool.not_eq_true'] at hp
    simp [variableName_depth, hp.1, ih]
  | @block plain a inner b ps ha _ hb _ ihi ih =>
    have hlt : b.isSymbol '<' = false := isSymbol_false hb (by decide)
    simp only [List.cons_append, List.append_assoc]
    rw [variableName_depth, if_pos ha, ihi _ rfl, variableName_depth, if_neg (by simp [hlt]),
      if_pos hb, ih _ hplain]

theorem variableName_end (h : ∀ p ∈ rest.head?, ∀ c ∈ ['.', '<', '?'], p.isSymbol c = false) :
    variableName? (some w) 0 rest = some (w, rest) := by
  cases rest with
  | nil => rfl
  | cons p ps =>
    have hp := h p rfl
    simp only [List.forall_mem_cons] at hp
    simp [variableName?, hp]

/-- Behind a receiver type its last name has been read, unless it ends with a parenthesis. -/
theorem Receiver.variableName_append (h : Receiver named ps) : ∃ last : Option String,
    last.isSome = named ∧
      ∀ rest, variableName? none 0 (ps ++ rest) = variableName? last 0 rest := by
  induction h with
  | @name p hp =>
    obtain ⟨w, hw⟩ := Option.isSome_iff_exists.mp hp
    exact ⟨some w, rfl, fun rest => variableName_name hw⟩
  | parenthesis hp => exact ⟨none, rfl, fun rest => variableName_parenthesis hp⟩
  | @applied ps a inner b _ ha hi hb ih =>
    obtain ⟨last, hlast, hread⟩ := ih
    obtain ⟨w, rfl⟩ := Option.isSome_iff_exists.mp hlast
    refine ⟨some w, rfl, fun rest => ?_⟩
    have hopen (qs : List Piece) :
        variableName? (some w) 0 (a :: qs) = variableName? (some w) 1 qs := by
      simp [variableName?, isSymbol_false ha (d := '.') (by decide), ha]
    have hlt : b.isSymbol '<' = false := isSymbol_false hb (by decide)
    rw [List.append_assoc, hread, List.append_assoc, List.cons_append, hopen,
      variableName_arguments hi, List.singleton_append, variableName_depth,
      if_neg (by simp [hlt]), if_pos hb]
  | nullable _ hq ih =>
    obtain ⟨last, hlast, hread⟩ := ih
    refine ⟨last, hlast, fun rest => ?_⟩
    rw [List.append_assoc, hread, List.singleton_append, variableName_mark hq]
  | member _ hd hp ih =>
    obtain ⟨last, -, hread⟩ := ih
    obtain ⟨w, hw⟩ := Option.isSome_iff_exists.mp hp
    refine ⟨some w, rfl, fun rest => ?_⟩
    rw [List.append_assoc, hread, List.cons_append, variableName_dot hd, List.singleton_append,
      variableName_name hw]

theorem Received.variableName_append (h : Received ps) (hp : name? p = some w) :
    variableName? none 0 (ps ++ p :: rest) = variableName? (some w) 0 rest := by
  cases h with
  | nil => exact variableName_name hp
  | dot hr hd =>
    obtain ⟨last, -, hread⟩ := hr.variableName_append
    rw [List.append_assoc, hread, List.singleton_append, variableName_dot hd, variableName_name hp]

-- ---------------------------------------------------------------------------
-- Properties
-- ---------------------------------------------------------------------------

theorem TypeParameters.skipAngles_append (h : TypeParameters ps)
    (hr : rest.head?.any (·.isSymbol '<') = false) : skipAngles 0 (ps ++ rest) = rest := by
  cases h with
  | nil => exact skipAngles_zero hr
  | block ha hi hb =>
    rw [List.append_assoc]
    exact hi.skipAngles_block ha hb

/-- A receiver type begins with a name, or with a parenthesis, behind which a sign stands. -/
theorem Receiver.cons (h : Receiver named ps) : ∃ p tail, ps = p :: tail ∧
    (isName p = true ∨ p.isGroup '(' = true ∧ (tail = [] ∧ named = false ∨
      ∃ q ∈ tail.head?, q.isSymbol '.' = true ∨ q.isSymbol '?' = true)) := by
  have hbehind {tail qs : List Piece} (h : ∃ q ∈ tail.head?, q.isSymbol '.' = true ∨
      q.isSymbol '?' = true) : ∃ q ∈ (tail ++ qs).head?, q.isSymbol '.' = true ∨
        q.isSymbol '?' = true := by
    cases tail with
    | nil => simp at h
    | cons => simpa using h
  induction h with
  | name hp => exact ⟨_, _, rfl, .inl hp⟩
  | parenthesis hp => exact ⟨_, _, rfl, .inr ⟨hp, .inl ⟨rfl, rfl⟩⟩⟩
  | applied _ _ _ _ ih =>
    obtain ⟨p, tail, rfl, hp | ⟨hp, ⟨-, hnamed⟩ | hq⟩⟩ := ih
    · exact ⟨p, _, rfl, .inl hp⟩
    · cases hnamed
    · exact ⟨p, _, rfl, .inr ⟨hp, .inr (hbehind hq)⟩⟩
  | nullable _ hq ih =>
    obtain ⟨p, tail, rfl, hp | ⟨hp, ⟨rfl, -⟩ | hq'⟩⟩ := ih
    · exact ⟨p, _, rfl, .inl hp⟩
    · exact ⟨p, _, rfl, .inr ⟨hp, .inr ⟨_, rfl, .inr hq⟩⟩⟩
    · exact ⟨p, _, rfl, .inr ⟨hp, .inr (hbehind hq')⟩⟩
  | member _ hd _ ih =>
    obtain ⟨p, tail, rfl, hp | ⟨hp, ⟨rfl, -⟩ | hq'⟩⟩ := ih
    · exact ⟨p, _, rfl, .inl hp⟩
    · exact ⟨p, _, rfl, .inr ⟨hp, .inr ⟨_, rfl, .inl hd⟩⟩⟩
    · exact ⟨p, _, rfl, .inr ⟨hp, .inr (hbehind hq')⟩⟩

/-- What stands in front of a variable and the variable begin with a name, or with a parenthesis,
behind which a sign stands. -/
theorem Received.cons (h : Received ps) (rest : List Piece) (hp : isName p = true) : ∃ q tail,
    ps ++ p :: rest = q :: tail ∧ (isName q = true ∨ q.isGroup '(' = true ∧
      tail.head?.any (fun r => r.isSymbol '.' || r.isSymbol '?') = true) := by
  cases h with
  | nil => exact ⟨p, rest, rfl, .inl hp⟩
  | @dot named ps d hr hd =>
    obtain ⟨q, tail, rfl, hq | ⟨hq, ⟨rfl, -⟩ | ⟨r, hr, hsign⟩⟩⟩ := hr.cons
    · exact ⟨q, _, rfl, .inl hq⟩
    · exact ⟨q, _, rfl, .inr ⟨hq, by simp [hd]⟩⟩
    · obtain ⟨tail, rfl⟩ := List.head?_eq_some_iff.mp hr
      exact ⟨q, _, rfl, .inr ⟨hq, by simpa using hsign⟩⟩

/-- Annotations are dropped up to a name or a parenthesis. -/
theorem Marks.dropAnnotations_append (h : Marks [] mark ps) (hu : Unapplied mark (p :: rest))
    (hp : isName p = true ∨ p.isGroup '(' = true) :
    dropAnnotations (ps ++ p :: rest) = p :: rest := by
  rw [dropAnnotations, h.dropMarks_append]
  rcases hp with hp | hp
  · exact dropMarks_word h.isComplete (word_of_isName hp) rfl
  · exact dropMarks_group h.isComplete hp fun hm => hu hm p rfl hp

theorem Marks.cons (h : Marks words mark ps) : ps = [] ∨
    ∃ q tail, ps = q :: tail ∧ (q.isSymbol '@' = true ∨ words.any q.isWord = true) := by
  induction h with
  | nil => exact .inl rfl
  | @word mark ps p _ hp ih =>
    rcases ih with rfl | ⟨q, tail, rfl, hq⟩
    · exact .inr ⟨p, [], rfl, .inr hp⟩
    · exact .inr ⟨q, _, rfl, hq⟩
  | annotated _ hqs ih =>
    rcases ih with rfl | ⟨q, tail, rfl, hq⟩
    · obtain ⟨a, tail, rfl, ha⟩ := hqs.cons
      exact .inr ⟨a, tail, rfl, .inl ha⟩
    · exact .inr ⟨q, _, rfl, hq⟩

/-- What is behind type parameters begins with no further list of them. -/
theorem Marks.no_angle (h : Marks words mark ps) (hp : p.isSymbol '<' = false) :
    (ps ++ p :: rest).head?.any (·.isSymbol '<') = false := by
  rcases h.cons with rfl | ⟨q, tail, rfl, hq | hq⟩
  · simpa using hp
  · simp [isSymbol_false hq]
  · obtain ⟨w, -, hw⟩ := List.any_eq_true.mp hq
    simp [isSymbol_word (word_of_isWord hw)]

theorem Typing.variableName_eq {type : Option (List Piece)} (h : Typing ps type) :
    variableName? (some w) 0 ps = some (w, ps) := by
  cases h with
  | declared hd =>
    have hother {c : Char} (hc : ':' ≠ c) := isSymbol_false hd hc
    exact variableName_end (by simp [hother])
  | inferred hr =>
    exact variableName_end fun p hp c hc => hr p hp c (List.mem_cons_of_mem _ hc)

theorem Typing.text_eq {type : Option (List Piece)} (h : Typing ps type) :
    (match ps with
      | colon :: behind => if colon.isSymbol ':' then typeText false behind else Field.noType
      | [] => Field.noType) = (type.map (readText · [])).getD Field.noType := by
  cases h with
  | declared hd ht hr => simp [hd, ht.typeText_append hr]
  | inferred hr =>
    cases ps with
    | nil => rfl
    | cons p ps => simp [hr p rfl ':' (by simp)]

theorem Initialised.destructuredField_eq {initialiser : Option String}
    (h : Initialised ps initialiser) :
    destructuredField? ps = (Property.destructured initialiser).read?.map Variable.field := by
  cases h with
  | bare he hp hr =>
    simp [destructuredField?, he, hp, hr, Property.read?, Variable.field]
  | other hother =>
    unfold destructuredField?
    split
    · next e p rest =>
      split
      · next hbare =>
        rw [Bool.and_eq_true] at hbare
        cases hname : name? p with
        | none => rfl
        | some w =>
          rw [hother e p rest rfl hbare.1 (by simp [isName, hname])] at hbare
          cases hbare.2
      · rfl
    · rfl

theorem Declares.propertyField_eq {x : Property} (h : Declares ps x) :
    propertyField? ps = x.read?.map Variable.field := by
  cases h with
  | @single ts mark ms rs p w ps type hts hms hrs hu hp ht =>
    have hname : isName p = true := by rw [isName, hp]; rfl
    obtain ⟨q, tail, hcons, hq⟩ := hrs.cons ps hname
    rw [hcons] at hu ⊢
    have hangle : q.isSymbol '<' = false := by
      rcases hq with hq | ⟨hq, -⟩
      · exact isSymbol_word (word_of_isName hq) _
      · exact isSymbol_group hq _
    have hread : dropAnnotations (skipAngles 0 (ts ++ (ms ++ q :: tail))) = q :: tail := by
      rw [hts.skipAngles_append (hms.no_angle hangle),
        hms.dropAnnotations_append hu (hq.imp_right And.left)]
    have hvariable : variableName? none 0 (q :: tail) = some (w, ps) := by
      rw [← hcons, hrs.variableName_append hp, ht.variableName_eq]
    have hsingle : (q.isGroup '(' &&
        !tail.head?.any fun r => r.isSymbol '.' || r.isSymbol '?') = false := by
      rcases hq with hq | ⟨-, hsign⟩
      · simp [isGroup_word (word_of_isName hq)]
      · simp [hsign]
    rw [propertyField?, hread]
    simp only [hsingle, hvariable]
    have hfield := congrArg (fun text => some (⟨w, text⟩ : Field)) ht.text_eq
    cases ps <;> exact hfield
  | @destructured mark ms g ps initialiser hms hu hg hbehind hi =>
    have hread : dropAnnotations (skipAngles 0 (ms ++ g :: ps)) = g :: ps := by
      rw [skipAngles_zero (hms.no_angle (isSymbol_group hg _)),
        hms.dropAnnotations_append hu (.inr hg)]
    have hpattern : (g.isGroup '(' &&
        !ps.head?.any fun r => r.isSymbol '.' || r.isSymbol '?') = true := by
      cases ps with
      | nil => simp [hg]
      | cons r rest =>
        have hr := hbehind r rfl
        simp [hg, hr]
    rw [propertyField?, hread]
    simp only [hpattern, if_true]
    exact hi.destructuredField_eq

/-- Members that bind nothing contribute nothing. -/
theorem Body.unbound_append {xs : List Property} (h : ∀ p ∈ ps, bindsProperty p = false)
    (hb : Body rest xs) : Body (ps ++ rest) xs := by
  induction ps with
  | nil => exact hb
  | cons p ps ih =>
    rw [List.forall_mem_cons] at h
    exact .other h.1 (ih h.2)

theorem bodyFields_eq {xs : List Property} (h : Body ps xs) :
    bodyFields ps = (xs.filterMap Property.read?).map Variable.field := by
  induction h with
  | nil => rfl
  | other hp _ ih => simp [bodyFields, hp, ih]
  | @property b ps x xs hb hx _ ih =>
    rw [bodyFields, if_pos hb, hx.propertyField_eq, ih]
    cases hf : x.read? <;> simp [hf]

end Scaffold.Source.Kotlin
