import Mathlib

/-!
# Propagation of a value along links

Nodes hold values and pass a value on to their targets.  A node that is already passing it on is
blocked: it takes the value and stays quiet.

* `Spreads` — what one propagation of a value may have done to the values of the nodes;
* `Spreads.trans`, `Spreads.visit` — propagations in sequence, and from a node that passes the value
  on to all its targets;
* `Spreads.agree` — with links that go both ways, nodes that agreed along the links do so again.
-/

namespace Propagation

variable {P C : Type}

/-- Each node has kept its value, or it holds `c` and, unless it was blocked, so do its targets. -/
def Spreads (targets : P → Set P) (blocked : Set P) (c : C) (f g : P → C) : Prop :=
  ∀ x, g x = f x ∨ g x = c ∧ (x ∈ blocked ∨ ∀ y ∈ targets x, g y = c)

/-- Linked nodes hold the same value. -/
def Agree (targets : P → Set P) (f : P → C) : Prop := ∀ x, ∀ y ∈ targets x, f y = f x

namespace Spreads

variable {targets : P → Set P} {blocked : Set P} {c : C} {f g h : P → C}

theorem refl (targets : P → Set P) (blocked : Set P) (c : C) (f : P → C) :
    Spreads targets blocked c f f := fun _ => .inl rfl

/-- A node that holds the value keeps it. -/
theorem holds (hfg : Spreads targets blocked c f g) {x : P} (hx : f x = c) : g x = c := by
  rcases hfg x with hkept | hnew
  · exact hkept.trans hx
  · exact hnew.1

theorem trans (hfg : Spreads targets blocked c f g) (hgh : Spreads targets blocked c g h) :
    Spreads targets blocked c f h := by
  intro x
  rcases hgh x with hkept | hnew
  · rcases hfg x with hkept' | ⟨hc, hpassed⟩
    · exact .inl (hkept.trans hkept')
    · refine .inr ⟨hkept.trans hc, ?_⟩
      rcases hpassed with hx | hall
      · exact .inl hx
      · exact .inr fun y hy => hgh.holds (hall y hy)
  · exact .inr hnew

/-- A blocked node takes the value. -/
theorem take [DecidableEq P] (f : P → C) {p : P} (hp : p ∈ blocked) :
    Spreads targets blocked c f (Function.update f p c) := by
  intro x
  by_cases hx : x = p
  · subst hx
    exact .inr ⟨Function.update_self _ _ _, .inl hp⟩
  · exact .inl (Function.update_of_ne hx _ _)

/-- A node takes the value and passes it on to all its targets, blocked meanwhile. -/
theorem visit [DecidableEq P] {p : P}
    (hspread : Spreads targets (insert p blocked) c (Function.update f p c) g)
    (hall : ∀ y ∈ targets p, g y = c) : Spreads targets blocked c f g ∧ g p = c := by
  have hp : g p = c := hspread.holds (Function.update_self _ _ _)
  refine ⟨fun x => ?_, hp⟩
  by_cases hx : x = p
  · subst hx
    exact .inr ⟨hp, .inr hall⟩
  · rcases hspread x with hkept | ⟨hc, hblocked | hpassed⟩
    · exact .inl (hkept.trans (Function.update_of_ne hx _ _))
    · exact .inr ⟨hc, .inl (Set.mem_of_mem_insert_of_ne hblocked hx)⟩
    · exact .inr ⟨hc, .inr hpassed⟩

/-- Links that go both ways carry agreement over a propagation that nothing blocked. -/
theorem agree (hsymm : ∀ x, ∀ y ∈ targets x, x ∈ targets y) (hf : Agree targets f)
    (hspread : Spreads targets ∅ c f g) : Agree targets g := by
  intro x y hy
  rcases hspread x with hx | ⟨hx, hnone | hall⟩
  · rcases hspread y with hy' | ⟨hy', hnone | hall⟩
    · rw [hx, hy', hf x y hy]
    · exact absurd hnone (Set.notMem_empty y)
    · exact hy'.trans (hall x (hsymm x y hy)).symm
  · exact absurd hnone (Set.notMem_empty x)
  · exact (hall y hy).trans hx.symm

end Spreads

/-- Agreement along links is agreement along chains of links. -/
theorem Agree.along {targets : P → Set P} {f : P → C} (hf : Agree targets f) {x y : P}
    (hxy : Relation.ReflTransGen (fun a b => b ∈ targets a) x y) : f y = f x := by
  induction hxy with
  | refl => rfl
  | tail _ hstep ih => exact (hf _ _ hstep).trans ih

end Propagation
