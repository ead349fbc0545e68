import Cci.Lib.Effect

/-!
# Total correctness

A triple says that a computation started in `P` returns a value, without an exception, a failed
assertion or a shortage of fuel, and what then holds.

* `Triple` — with the rules for sequencing and loops over lists;
* `whileDo` — the loop `while (c) m`;
* `whileDo_triple` — its rule, with an invariant and a variant.
-/

namespace Effect

open Eff

variable {ε σ α β : Type}

/-- Started in `P`, the computation returns a value for which `Q` holds at the end. -/
def Triple (P : σ → Prop) (m : Eff ε σ α) (Q : α → σ → Prop) : Prop :=
  ∀ s, P s → ∃ a t, m s = (.ok a, t) ∧ Q a t

namespace Triple

variable {P : σ → Prop} {Q : α → σ → Prop}

theorem pure (a : α) (h : ∀ s, P s → Q a s) : Triple P (Pure.pure a : Eff ε σ α) Q :=
  fun s hs => ⟨a, s, rfl, h s hs⟩

theorem bind {m : Eff ε σ α} {f : α → Eff ε σ β} {R : β → σ → Prop} (hm : Triple P m Q)
    (hf : ∀ a, Triple (Q a) (f a) R) : Triple P (m >>= f) R := by
  intro s hs
  obtain ⟨a, t, hrun, ht⟩ := hm s hs
  obtain ⟨b, u, hrun', hu⟩ := hf a t ht
  exact ⟨b, u, (bind_run_ok hrun f).trans hrun', hu⟩

/-- A loop over a list keeps what its body keeps. -/
theorem forM {f : β → Eff ε σ PUnit} (l : List β)
    (hf : ∀ b ∈ l, Triple P (f b) fun _ => P) : Triple P (l.forM f) fun _ => P := by
  induction l with
  | nil => exact pure _ fun _ hs => hs
  | cons b l ih =>
    exact bind (hf b List.mem_cons_self) fun _ => ih fun b' hb' => hf b' (List.mem_cons_of_mem _ hb')

end Triple

/-! ### Loops -/

/-- `while (c) m`, one unit of fuel an iteration. -/
def whileDo (c : σ → Bool) (m : Eff ε σ Unit) : ℕ → Eff ε σ Unit
  | 0 => fun s => if c s then (.diverge, s) else (.ok (), s)
  | fuel + 1 => fun s => if c s then (m >>= fun _ => whileDo c m fuel) s else (.ok (), s)

/-- A loop whose body keeps `P` and decreases the variant returns, with `P` and without its
condition. -/
theorem whileDo_triple {c : σ → Bool} {m : Eff ε σ Unit} {P : σ → Prop} (variant : σ → ℕ)
    (hbody : ∀ s, P s → c s = true → ∃ t, m s = (.ok (), t) ∧ P t ∧ variant t < variant s) :
    ∀ fuel, Triple (fun s => P s ∧ variant s ≤ fuel) (whileDo c m fuel)
      fun _ s => P s ∧ c s = false := by
  intro fuel
  induction fuel with
  | zero =>
    intro s hs
    cases hc : c s with
    | false => exact ⟨(), s, by simp [whileDo, hc], hs.1, hc⟩
    | true =>
      obtain ⟨t, -, -, hlt⟩ := hbody s hs.1 hc
      omega
  | succ fuel ih =>
    intro s hs
    cases hc : c s with
    | false => exact ⟨(), s, by simp [whileDo, hc], hs.1, hc⟩
    | true =>
      obtain ⟨t, hrun, ht, hlt⟩ := hbody s hs.1 hc
      obtain ⟨a, u, hrun', hu⟩ := ih t ⟨ht, by omega⟩
      refine ⟨a, u, ?_, hu⟩
      simp only [whileDo, hc, if_true]
      exact (bind_run_ok hrun _).trans hrun'

end Effect
