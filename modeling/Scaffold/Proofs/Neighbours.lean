import Scaffold.Proofs.Runs

/-!
# Two entities in one directory

Two entities with different names get in each other's way only when one name
is the other with `Search` at its end: the request of `OrderSearch` is the
search request of `Order`. Otherwise a run for the one is never refused for
the files of the other, and never changes them.
-/

namespace Scaffold.Scaffolder

open ProjectTree MemoryBacked

variable {σ : Type} [ProjectTree σ] [MemoryBacked σ]

theorem fileExists_eq_isSome (tree : σ) (p : Path) :
    fileExists tree p = ((memory tree).content? p).isSome := by
  rw [fileExists_eq]
  exact PathMap.contains_eq_isSome _ _

/-- A call after another one, whose targets are not its own. -/
theorem call_after_call (s : Scaffolder σ) (first second : Call)
    (hmeet : ∀ p ∈ first.targets, ∀ q ∈ second.targets, p.components ≠ q.components)
    (hfree : ∀ q ∈ second.targets, fileExists s.tree q = false) :
    (∀ paths, ((s.call first).2.call second).1 ≠ .error (.artifactsExist paths)) ∧
      ∀ p ∈ first.targets,
        (memory ((s.call first).2.call second).2.tree).content? p =
          (memory (s.call first).2.tree).content? p := by
  have h1 := harmless_call s first
  have h2 := harmless_call (s.call first).2 second
  constructor
  · intro paths hr
    obtain ⟨hne, heq⟩ := h2.collisions paths hr
    refine hne (heq ▸ List.filter_eq_nil_iff.mpr fun q hq => ?_)
    have hsame := h1.others q fun p hp => hmeet p hp q hq
    rw [fileExists_eq_isSome, hsame, ← fileExists_eq_isSome, hfree q hq]
    simp
  · exact fun p hp => h2.others p fun q hq h => hmeet p hp q hq h.symm

/-- Two entities whose names are slash-free, as identifiers are, and different share a file of a
directory exactly when their names differ by `Search`. If they do not, calls for the one and the
other never collide. -/
theorem neighbours_apart (e f : Entity) (dir : Path) (he : '/' ∉ e.name.toList)
    (hf : '/' ∉ f.name.toList) (hne : e.name ≠ f.name) :
    (∀ c d : Context, (∃ p ∈ Artifact.targets e c dir, ∃ q ∈ Artifact.targets f d dir,
        p.components = q.components) ↔ SearchNames e.name f.name) ∧
      (¬ SearchNames e.name f.name → ∀ (s : Scaffolder σ) (first second : Call),
        first.entity? = .ok e → second.entity? = .ok f →
        first.context.baseDirectory = some dir → second.context.baseDirectory = some dir →
        (∀ q ∈ second.targets, fileExists s.tree q = false) →
          (∀ paths, ((s.call first).2.call second).1 ≠ .error (.artifactsExist paths)) ∧
            ∀ p ∈ first.targets,
              (memory ((s.call first).2.call second).2.tree).content? p =
                (memory (s.call first).2.tree).content? p) := by
  refine ⟨fun c d => Artifact.targets_meet he hf hne c d dir, ?_⟩
  intro hs s first second h1 h2 hd1 hd2 hfree
  refine call_after_call s first second (fun p hp q hq h => hs ?_) hfree
  rw [Call.targets_eq h1 hd1] at hp
  rw [Call.targets_eq h2 hd2] at hq
  exact (Artifact.targets_meet he hf hne _ _ dir).mp ⟨p, hp, q, hq, h⟩

theorem neighbours_apart_order_customer :
    let s : Scaffolder MemoryTree := { tree := {} }
    let order : Call := ⟨{}, ⟨⟨"app/domain/Order.java"⟩, .java, "class Order {}"⟩⟩
    let customer : Call := ⟨{}, ⟨⟨"app/domain/Customer.java"⟩, .java, "class Customer {}"⟩⟩
    (∀ paths, ((s.call order).2.call customer).1 ≠ .error (.artifactsExist paths)) ∧
      ∀ p ∈ order.targets,
        (memory ((s.call order).2.call customer).2.tree).content? p =
          (memory (s.call order).2.tree).content? p := by
  intro s order customer
  have ho : order.entity? = .ok ⟨"Order", "Order", [], .java⟩ := by decide +kernel
  have hc : customer.entity? = .ok ⟨"Customer", "Customer", [], .java⟩ := by decide +kernel
  have hs : ¬ SearchNames "Order" "Customer" := by
    unfold SearchNames
    decide
  exact (neighbours_apart _ _ ⟨"app"⟩ (by decide) (by decide) (by decide)).2 hs s order customer ho
    hc (by decide +kernel) (by decide +kernel) (by decide +kernel)

/-- Different names are not enough. -/
theorem order_and_orderSearch_collide :
    let order : Call := ⟨{}, ⟨⟨"app/domain/Order.java"⟩, .java, "class Order {}"⟩⟩
    let orderSearch : Call :=
      ⟨{}, ⟨⟨"app/domain/OrderSearch.java"⟩, .java, "class OrderSearch {}"⟩⟩
    order.entity?.map Entity.name = .ok "Order" ∧
      orderSearch.entity?.map Entity.name = .ok "OrderSearch" ∧
      ⟨"app/web/model/OrderSearchRequest.java"⟩ ∈ order.targets ∧
      ⟨"app/web/model/OrderSearchRequest.java"⟩ ∈ orderSearch.targets := by
  decide +kernel

end Scaffold.Scaffolder
