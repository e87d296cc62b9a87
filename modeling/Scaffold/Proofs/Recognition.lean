import Scaffold.Proofs.Grammar

/-!
# Recognition

Whether trees follow a rule can be computed. The nodes of the trees say how
they are derived, so that only the combinators in between have to be tried.
-/

namespace Scaffold.Source

open Source.Tree

variable {T N : Type}

instance (c : Char) (o e : Lexeme) : Decidable (Encloses c o e) :=
  decidable_of_iff (Piece.Nesting.isOpener o = true ∧ o.text = c.toString ∧
      Piece.Nesting.isCloser e = true ∧ Piece.closerOf o.text = e.text)
    ⟨fun h => ⟨h.1, h.2.1, h.2.2.1, h.2.2.2⟩, fun h => ⟨h.opens, h.bracket, h.closes, h.closer⟩⟩

/-- What may be left of some trees behind those that follow the rule. The number bounds the depth
of the search. -/
def Grammar.rests [DecidableEq N] (g : Grammar T N) :
    Nat → Rule T N → List (Tree N) → List (List (Tree N))
  | 0, _, _ => []
  | _ + 1, .token t, .leaf l :: ts => if g.admits t l then [ts] else []
  | depth + 1, .node n, .node m us :: ts =>
    if m = n && (g.rests depth (g.rule n) us).any List.isEmpty then [ts] else []
  | depth + 1, .group c r, .group o us e :: ts =>
    if decide (Encloses c o e) && (g.rests depth r us).any List.isEmpty then [ts] else []
  | depth + 1, .angles r, .leaf a :: ts =>
    if (Piece.lexeme a).isSymbol '<' then
      (g.rests depth r ts).filterMap fun
        | .leaf b :: vs => if (Piece.lexeme b).isSymbol '>' then some vs else none
        | _ => none
    else []
  | _ + 1, .empty, ts => [ts]
  | depth + 1, .seq r s, ts => (g.rests depth r ts).flatMap fun us => g.rests depth s us
  | depth + 1, .alt r s, ts => g.rests depth r ts ++ g.rests depth s ts
  | depth + 1, .many r, ts => ts :: (g.rests depth r ts).flatMap fun us => g.rests depth (.many r) us
  | _, _, _ => []

namespace Parses

variable [DecidableEq N] {g : Grammar T N}

theorem of_rests {depth : Nat} {r : Rule T N} {ts vs : List (Tree N)}
    (h : vs ∈ g.rests depth r ts) : ∃ us, Parses g r us ∧ ts = us ++ vs := by
  have hwhole {depth : Nat} {r : Rule T N} {us : List (Tree N)}
      (ih : ∀ {vs}, vs ∈ g.rests depth r us → ∃ ws, Parses g r ws ∧ us = ws ++ vs)
      (h : (g.rests depth r us).any List.isEmpty = true) : Parses g r us := by
    obtain ⟨vs, hv, hempty⟩ := List.any_eq_true.mp h
    rw [List.isEmpty_iff] at hempty
    obtain ⟨ws, hw, rfl⟩ := ih hv
    simpa [hempty] using hw
  fun_induction Grammar.rests g depth r ts generalizing vs with
  | case1 | case3 | case5 | case7 | case9 | case14 => cases h
  | case2 depth t l ts ht =>
    obtain rfl := List.mem_singleton.mp h
    exact ⟨_, .token ht, rfl⟩
  | case4 depth n m us ts hn ih =>
    simp only [Bool.and_eq_true, decide_eq_true_eq] at hn
    obtain rfl := List.mem_singleton.mp h
    obtain ⟨rfl, hn⟩ := hn
    exact ⟨_, .node (hwhole ih hn), rfl⟩
  | case6 depth c r o us e ts he ih =>
    simp only [Bool.and_eq_true, decide_eq_true_eq] at he
    obtain rfl := List.mem_singleton.mp h
    exact ⟨_, .group he.1 (hwhole ih he.2), rfl⟩
  | case8 depth r a ts ha ih =>
    obtain ⟨ws, hw, he⟩ := List.mem_filterMap.mp h
    obtain ⟨us, hu, rfl⟩ := ih hw
    split at he
    · next b xs =>
      split at he
      · next hb =>
        cases he
        exact ⟨_, .angles ha hu hb, by simp⟩
      · cases he
    · cases he
  | case10 depth ts =>
    obtain rfl := List.mem_singleton.mp h
    exact ⟨[], .empty, rfl⟩
  | case11 depth r s ts ihs ihr =>
    obtain ⟨ws, hw, hv⟩ := List.mem_flatMap.mp h
    obtain ⟨us, hu, rfl⟩ := ihr hw
    obtain ⟨xs, hx, rfl⟩ := ihs ws hv
    exact ⟨_, .seq hu hx, by simp⟩
  | case12 depth r s ts ihr ihs =>
    rcases List.mem_append.mp h with h | h
    · obtain ⟨us, hu, rfl⟩ := ihr h
      exact ⟨us, .left hu, rfl⟩
    · obtain ⟨us, hu, rfl⟩ := ihs h
      exact ⟨us, .right hu, rfl⟩
  | case13 depth r ts ihs ihr =>
    rcases List.mem_cons.mp h with rfl | h
    · exact ⟨[], .stop, rfl⟩
    · obtain ⟨ws, hw, hv⟩ := List.mem_flatMap.mp h
      obtain ⟨us, hu, rfl⟩ := ihr hw
      obtain ⟨xs, hx, rfl⟩ := ihs ws hv
      exact ⟨_, .more hu hx, by simp⟩

end Parses

/-- A check of trees against a rule. -/
theorem Parses.of_check [DecidableEq N] {g : Grammar T N} {r : Rule T N} {ts : List (Tree N)}
    (depth : Nat) (h : (g.rests depth r ts).any List.isEmpty = true) : Parses g r ts := by
  obtain ⟨vs, hv, hempty⟩ := List.any_eq_true.mp h
  obtain ⟨us, hu, rfl⟩ := of_rests hv
  simpa [List.isEmpty_iff.mp hempty] using hu

end Scaffold.Source
