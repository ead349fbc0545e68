import Cci.Lib.Effect

/-!
# The exceptions of a computation

* `Raises` — only exceptions in a set are thrown; with the rules for the constructs of the language;
* `Eff.tryCatch` — a `try` block with a handler for every exception; `tryCatch_caught`,
  `tryCatch_rethrown`, how it ends.
-/

namespace Effect

open Eff

variable {ε σ α β : Type}

/-- Only exceptions in `P` are thrown. -/
def Raises (P : ε → Prop) (m : Eff ε σ α) : Prop := ∀ s e, (m s).1 = .throw e → P e

namespace Raises

variable {P Q : ε → Prop}

theorem mono (h : ∀ e, P e → Q e) {m : Eff ε σ α} (hm : Raises P m) : Raises Q m :=
  fun s e he => h e (hm s e he)

/-- What always returns a value throws nothing. -/
theorem of_ok {m : Eff ε σ α} (h : ∀ s, ∃ a t, m s = (.ok a, t)) : Raises P m := by
  intro s e he
  obtain ⟨a, t, hrun⟩ := h s
  rw [hrun] at he
  cases he

theorem pure (a : α) : Raises P (Pure.pure a : Eff ε σ α) := of_ok fun s => ⟨a, s, rfl⟩

theorem raise {e : ε} (h : P e) : Raises P (Eff.raise e : Eff ε σ α) := by
  intro s e' he
  cases he
  exact h

theorem bind {m : Eff ε σ α} {f : α → Eff ε σ β} (hm : Raises P m) (hf : ∀ a, Raises P (f a)) :
    Raises P (m >>= f) := by
  intro s e he
  rw [bind_run] at he
  rcases hr : m s with ⟨a | e' | _ | _, t⟩ <;> rw [hr] at he
  · exact hf a t e he
  · cases he
    exact hm s e (congrArg Prod.fst hr)
  · cases he
  · cases he

theorem ite {c : Prop} [Decidable c] {m m' : Eff ε σ α} (hm : Raises P m) (hm' : Raises P m') :
    Raises P (if c then m else m') := by
  split
  · exact hm
  · exact hm'

theorem finalizing {m : Eff ε σ α} (hm : Raises P m) (f : σ → σ) :
    Raises P (Eff.finalizing f m) := by
  intro s e he
  simp only [Eff.finalizing] at he
  rcases hr : m s with ⟨a | e' | _ | _, t⟩ <;> rw [hr] at he
  · cases he
  · cases he
    exact hm s e (congrArg Prod.fst hr)
  · cases he
  · cases he

theorem forEach {elem : σ → ℕ → Option β} {act : β → α → Eff ε σ α}
    (hact : ∀ b acc, Raises P (act b acc)) :
    ∀ fuel i acc, Raises P (Eff.forEach elem act fuel i acc) := by
  intro fuel
  induction fuel with
  | zero =>
    intro i acc s e he
    simp only [Eff.forEach] at he
    cases hb : elem s i <;> rw [hb] at he <;> cases he
  | succ fuel ih =>
    intro i acc s e he
    simp only [Eff.forEach] at he
    cases hb : elem s i with
    | none =>
      rw [hb] at he
      cases he
    | some b =>
      rw [hb] at he
      exact bind (hact b acc) (fun acc' => ih (i + 1) acc') s e he

end Raises

/-! ### Handlers -/

/-- `try { m } catch (...) { h }`: the answer of the handler stands for the exception. -/
def Eff.tryCatch {γ : Type} (m : Eff ε σ α) (h : ε → Except ε γ) : Eff ε σ (Except γ α) := do
  match ← Eff.attempt m with
  | .ok a => Pure.pure (.ok a)
  | .error e =>
      match h e with
      | .ok c => Pure.pure (.error c)
      | .error e => Eff.raise e

section

variable {γ : Type} {m : Eff ε σ α} {h : ε → Except ε γ} {s t : σ} {e : ε}

theorem tryCatch_caught {c : γ} (hm : m s = (.throw e, t)) (hh : h e = .ok c) :
    m.tryCatch h s = (.ok (.error c), t) := by
  simp only [Eff.tryCatch, bind_run, Eff.attempt, hm, hh]
  rfl

theorem tryCatch_rethrown {e' : ε} (hm : m s = (.throw e, t)) (hh : h e = .error e') :
    m.tryCatch h s = (.throw e', t) := by
  simp only [Eff.tryCatch, bind_run, Eff.attempt, hm, hh]
  rfl

theorem tryCatch_of_not_throw (hm : ∀ e, (m s).1 ≠ .throw e) :
    (∀ e, (m.tryCatch h s).1 ≠ .throw e) ∧ (∀ c, (m.tryCatch h s).1 ≠ .ok (.error c)) ∧
      (m.tryCatch h s).2 = (m s).2 := by
  unfold Eff.tryCatch
  rw [bind_run]
  simp only [Eff.attempt]
  rcases hr : m s with ⟨a | e | _ | _, t⟩
  · refine ⟨fun e he => ?_, fun c hc => ?_, rfl⟩
    · cases he
    · cases hc
  · exact absurd (congrArg Prod.fst hr) (hm e)
  · refine ⟨fun e he => ?_, fun c hc => ?_, rfl⟩
    · cases he
    · cases hc
  · refine ⟨fun e he => ?_, fun c hc => ?_, rfl⟩
    · cases he
    · cases hc

end

end Effect
