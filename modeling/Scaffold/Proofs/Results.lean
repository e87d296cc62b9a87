/-!
# Results of steps that may fail

A chain of steps succeeds when each of them does. Two results match when they
are both successes or both failures, with what they hold related.
-/

namespace Scaffold

theorem bind_ok {ε α β : Type} {x : Except ε α} {f : α → Except ε β} {b : β} :
    (x >>= f) = .ok b ↔ ∃ a, x = .ok a ∧ f a = .ok b := by
  cases x <;> simp [bind, Except.bind]

/-- Both are values that are related, or both are errors that are related. -/
inductive Matched {ε ε' α β : Type} (failure : ε → ε' → Prop) (value : α → β → Prop) :
    Except ε α → Except ε' β → Prop
  | ok {a b} : value a b → Matched failure value (.ok a) (.ok b)
  | error {e e'} : failure e e' → Matched failure value (.error e) (.error e')

theorem Matched.map {ε ε' α α' β β' : Type} {failure : ε → ε' → Prop} {value : α → β → Prop}
    {value' : α' → β' → Prop} {x : Except ε α} {y : Except ε' β} {f : α → α'} {g : β → β'}
    (h : Matched failure value x y) (hfg : ∀ a b, value a b → value' (f a) (g b)) :
    Matched failure value' (x.map f) (y.map g) := by
  cases h with
  | ok h => exact .ok (hfg _ _ h)
  | error h => exact .error h

theorem Matched.bind {ε ε' α α' β β' : Type} {failure : ε → ε' → Prop} {value : α → β → Prop}
    {value' : α' → β' → Prop} {x : Except ε α} {y : Except ε' β} {f : α → Except ε α'}
    {g : β → Except ε' β'} (h : Matched failure value x y)
    (hfg : ∀ a b, value a b → Matched failure value' (f a) (g b)) :
    Matched failure value' (x >>= f) (y >>= g) := by
  cases h with
  | ok h => exact hfg _ _ h
  | error h => exact .error h

end Scaffold
