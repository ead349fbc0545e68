import Cci.Lib.Effect

/-!
# Components of a state

A computation that works on one component of a larger state reads and replaces it through a lens.

* `Lens` — a lawful view of a component;
* `Lens.Fixed` — a computation leaves the component as it is, however it ends.
-/

namespace Effect

/-- A component `α` of the state `σ`. -/
structure Lens (σ α : Type) where
  get : σ → α
  set : α → σ → σ
  get_set : ∀ a s, get (set a s) = a
  set_get : ∀ s, set (get s) s = s

namespace Lens

/-- The whole state. -/
def self (σ : Type) : Lens σ σ := ⟨fun s => s, fun a _ => a, fun _ _ => rfl, fun _ => rfl⟩

variable {ε σ α β : Type} (L : Lens σ α)

/-- Replace the component by a function of itself. -/
def modify (f : α → α) : Eff ε σ Unit := Eff.modify fun s => L.set (f (L.get s)) s

@[simp] theorem get_modify_run (f : α → α) (s : σ) :
    L.get ((L.modify f : Eff ε σ Unit) s).2 = f (L.get s) := L.get_set _ _

/-- `m` leaves the component as it is. -/
def Fixed (m : Eff ε σ β) : Prop := ∀ s, L.get (m s).2 = L.get s

theorem Fixed.keeps {L : Lens σ α} {m : Eff ε σ β} (h : L.Fixed m) (P : α → Prop) :
    Keeps (fun s => P (L.get s)) m := by
  intro s hs
  rw [h s]
  exact hs

/-- An invariant of the component alone. -/
theorem keeps_modify {P : α → Prop} {f : α → α} (h : ∀ a, P a → P (f a)) :
    Keeps (fun s => P (L.get s)) (L.modify f : Eff ε σ Unit) := by
  intro s hs
  rw [get_modify_run]
  exact h _ hs

end Lens

end Effect
