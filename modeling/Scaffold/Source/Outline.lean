import Scaffold.Entity
import Scaffold.Source.Piece

/-!
The outline of a source text is a tree of its declarations and bracketed regions. The declaration
that an artifact is made from is the first one in pre-order: outer before inner, earlier before
later.
-/
namespace Scaffold.Source

inductive Rose (α : Type)
  | node (label : α) (children : List (Rose α))

namespace Rose

variable {α : Type}

def label : Rose α → α
  | node a _ => a

def children : Rose α → List (Rose α)
  | node _ ts => ts

mutual

def size : Rose α → Nat
  | node _ ts => sizes ts + 1

def sizes : List (Rose α) → Nat
  | [] => 0
  | t :: ts => t.size + sizes ts

end

mutual

/-- The labels of a tree, each before those below it. -/
def preorder : Rose α → List α
  | node a ts => a :: preorders ts

def preorders : List (Rose α) → List α
  | [] => []
  | t :: ts => t.preorder ++ preorders ts

end

theorem sizes_append (ts us : List (Rose α)) : sizes (ts ++ us) = sizes ts + sizes us := by
  induction ts with
  | nil => simp [sizes]
  | cons t ts ih => simp [sizes, ih, Nat.add_assoc]

/-- Searches the trees of a stack. A tree that does not answer makes way for its children. -/
def findFirst (p : α → Bool) : List (Rose α) → Option (Rose α)
  | [] => none
  | node a ts :: stack =>
    if p a then some (node a ts) else findFirst p (ts ++ stack)
termination_by stack => sizes stack
decreasing_by
  rw [sizes_append, sizes, size]
  omega

end Rose

/-- A class-like declaration: its name and its fields in source order. -/
structure Declaration where
  name : String
  fields : List Field
  deriving DecidableEq, Repr

inductive Label
  | region
  | declaration (d : Declaration)
  deriving DecidableEq, Repr

def Label.declaration? : Label → Option Declaration
  | region => none
  | declaration d => some d

abbrev Outline := Rose Label

/-- What stands at the head of some pieces: how many pieces it takes, and whether the braces among
them hold members, which cannot be expressions. -/
structure Head where
  label : Label
  length : Nat
  members : Bool

/-- Tells what stands at the head of the pieces, given the piece before them and whether they are
members. -/
abbrev Recogniser := Bool → Option Piece → List Piece → Option Head

namespace Outline

mutual

/-- The outlines inside a piece. -/
def within (recognise : Recogniser) (members : Bool) : Piece → List Outline
  | .lexeme _ => []
  | .group _ inner _ => (scan recognise members false 0 none inner).2

/-- The outlines in the first `pending` pieces, which belong to a head that has been recognised,
and those of the pieces behind them. -/
def scan (recognise : Recogniser) (members pendingMembers : Bool) (pending : Nat)
    (previous : Option Piece) : List Piece → List Outline × List Outline
  | [] => ([], [])
  | p :: ps =>
    match pending with
    | pending + 1 =>
      let inner := within recognise pendingMembers p
      let rest := scan recognise members pendingMembers pending (some p) ps
      (inner ++ rest.1, rest.2)
    | 0 =>
      match recognise members previous (p :: ps) with
      | some head =>
        let inner := within recognise head.members p
        let rest := scan recognise members head.members (head.length - 1) (some p) ps
        ([], .node head.label (inner ++ rest.1) :: rest.2)
      | none =>
        let inner := within recognise false p
        let rest := scan recognise members false 0 (some p) ps
        ([], .node .region inner :: rest.2)

end

def ofPieces (recognise : Recogniser) (ps : List Piece) : List Outline :=
  (scan recognise false false 0 none ps).2

/-- The declaration that starts first. -/
def firstDeclaration? (outlines : List Outline) : Option Declaration :=
  (Rose.findFirst (·.declaration?.isSome) outlines).bind (·.label.declaration?)

end Outline

end Scaffold.Source
