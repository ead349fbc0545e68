import Cci.Lib.Lens
import Cci.Lib.Projection

/-!
# Ghost components

A computation is observed by running it beside a component that it only writes to.

* `Eff.beside` — a computation of the plain state, which leaves the ghost alone;
* `Observes` — a computation runs like a plain one, whatever it does to the ghost; `observes_iff`, it
  projects to it;
* `Lens.beside` — a component of the plain state, seen beside the ghost.
-/

namespace Effect

variable {ε σ τ α β : Type}

/-- Run `m` on the plain state. -/
def Eff.beside (m : Eff ε σ α) : Eff ε (σ × τ) α := fun s => ((m s.1).1, (m s.1).2, s.2)

/-- `m'` runs like `m`, whatever it does to the ghost. -/
def Observes (m' : Eff ε (σ × τ) α) (m : Eff ε σ α) : Prop :=
  ∀ s g, (m' (s, g)).1 = (m s).1 ∧ (m' (s, g)).2.1 = (m s).2

theorem observes_iff {m' : Eff ε (σ × τ) α} {m : Eff ε σ α} :
    Observes m' m ↔ Projects Prod.fst id m' m := by
  constructor
  · intro h s
    obtain ⟨ho, hs⟩ := h s.1 s.2
    rw [Outcome.map_id]
    exact Prod.ext ho.symm hs.symm
  · intro h s g
    rw [h (s, g), Outcome.map_id]
    exact ⟨rfl, rfl⟩

namespace Observes

theorem pure (a : α) : Observes (Pure.pure a : Eff ε (σ × τ) α) (Pure.pure a) := fun _ _ => ⟨rfl, rfl⟩

theorem beside (m : Eff ε σ α) : Observes (m.beside : Eff ε (σ × τ) α) m := fun _ _ => ⟨rfl, rfl⟩

/-- Writing to the ghost is not seen. -/
theorem write (f : τ → τ) {m' : Eff ε (σ × τ) α} {m : Eff ε σ α} (h : Observes m' m) :
    Observes (Eff.modify (fun s => (s.1, f s.2)) >>= fun _ => m') m := fun s g => h s (f g)

theorem bind {m' : Eff ε (σ × τ) α} {m : Eff ε σ α} {f' : α → Eff ε (σ × τ) β} {f : α → Eff ε σ β}
    (hm : Observes m' m) (hf : ∀ a, Observes (f' a) (f a)) : Observes (m' >>= f') (m >>= f) :=
  observes_iff.2 ((observes_iff.1 hm).bind fun a => observes_iff.1 (hf a))

/-- Reading the plain state. -/
theorem get {f' : σ × τ → Eff ε (σ × τ) α} {f : σ → Eff ε σ α}
    (hf : ∀ s g, Observes (f' (s, g)) (f s)) : Observes (Eff.get >>= f') (Eff.get >>= f) :=
  fun s g => hf s g s g

end Observes

/-- A component of the plain state. -/
def Lens.beside (L : Lens σ α) : Lens (σ × τ) α where
  get s := L.get s.1
  set a s := (L.set a s.1, s.2)
  get_set a s := L.get_set a s.1
  set_get s := by rw [L.set_get]

end Effect
