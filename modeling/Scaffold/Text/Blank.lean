/-!
Blanks at the ends of a text. The blank characters are those of the property White_Space.
-/
namespace Scaffold.Text

def isBlank (c : Char) : Bool :=
  let n := c.toNat
  (9 ≤ n && n ≤ 13) || n == 0x20 || n == 0x85 || n == 0xA0 || n == 0x1680 ||
    (0x2000 ≤ n && n ≤ 0x200A) || n == 0x2028 || n == 0x2029 || n == 0x202F || n == 0x205F ||
    n == 0x3000

def dropEndWhile (p : Char → Bool) (cs : List Char) : List Char :=
  (cs.reverse.dropWhile p).reverse

def trim (cs : List Char) : List Char :=
  dropEndWhile isBlank (cs.dropWhile isBlank)

/-- Removes every copy of `suffix` that stands at the end. -/
def dropEndings (suffix s : List Char) : List Char :=
  if _h : suffix ≠ [] ∧ suffix <:+ s then
    dropEndings suffix (s.take (s.length - suffix.length))
  else s
termination_by s.length
decreasing_by
  have : 0 < suffix.length := List.length_pos_iff.2 _h.1
  have := _h.2.length_le
  simp only [List.length_take]
  omega

/-- The pieces of a text between the separators: one more than there are separators. -/
def splitOn (sep : Char) : List Char → List (List Char)
  | [] => [[]]
  | c :: cs =>
    if c = sep then [] :: splitOn sep cs
    else
      match splitOn sep cs with
      | [] => [[c]]
      | piece :: pieces => (c :: piece) :: pieces

end Scaffold.Text
