import Cci.Lib.Runs

/-!
# Projections of computations

A computation over a richer state that does, seen through a projection of the state, what a plain one
does.  What is proved of the richer runs is then said of the plain ones.

* `Projects` — with the rules for the constructs of the language;
* `Runs.lift` — every plain run is the projection of a richer one.
-/

namespace Effect

open Eff

variable {ε σ σ' α α' β β' κ : Type}

/-- The outcome with `f` applied to its value. -/
def Outcome.map (f : α → β) : Outcome ε α → Outcome ε β
  | .ok a => .ok (f a)
  | .throw e => .throw e
  | .abort => .abort
  | .diverge => .diverge

@[simp] theorem Outcome.map_id (o : Outcome ε α) : o.map id = o := by
  cases o <;> rfl

@[simp] theorem Outcome.returned_map (f : α → β) (o : Outcome ε α) :
    (o.map f).returned = o.returned := by
  cases o <;> rfl

/-- Seen through `e`, the computation `m'` does what `m` does; `f` makes the answer of `m` of its
own. -/
def Projects (e : σ' → σ) (f : α' → α) (m' : Eff ε σ' α') (m : Eff ε σ α) : Prop :=
  ∀ s, m (e s) = ((m' s).1.map f, e (m' s).2)

namespace Projects

variable {e : σ' → σ} {f : α' → α} {g : β' → β}

theorem pure (a : α') : Projects e f (Pure.pure a : Eff ε σ' α') (Pure.pure (f a)) := fun _ => rfl

theorem gets {x' : σ' → α'} {x : σ → α} (h : ∀ s, x (e s) = f (x' s)) :
    Projects e f (Eff.gets x' : Eff ε σ' α') (Eff.gets x) := by
  intro s
  rw [gets_run, gets_run, h]
  rfl

theorem get : Projects e e (Eff.get : Eff ε σ' σ') Eff.get := fun _ => rfl

theorem modify {x' : σ' → σ'} {x : σ → σ} (h : ∀ s, x (e s) = e (x' s)) :
    Projects e id (Eff.modify x' : Eff ε σ' Unit) (Eff.modify x) := by
  intro s
  rw [modify_run, modify_run, h]
  rfl

theorem raise (r : ε) : Projects e f (Eff.raise r) (Eff.raise r) := fun _ => rfl
theorem abort : Projects e f (Eff.abort : Eff ε σ' α') Eff.abort := fun _ => rfl
theorem diverge : Projects e f (Eff.diverge : Eff ε σ' α') Eff.diverge := fun _ => rfl

theorem bind {m' : Eff ε σ' α'} {m : Eff ε σ α} {k' : α' → Eff ε σ' β'} {k : α → Eff ε σ β}
    (hm : Projects e f m' m) (hk : ∀ a, Projects e g (k' a) (k (f a))) :
    Projects e g (m' >>= k') (m >>= k) := by
  intro s
  rw [bind_run, bind_run, hm s]
  rcases m' s with ⟨a | r | _ | _, t⟩
  · exact hk a t
  · rfl
  · rfl
  · rfl

theorem ite {c : Prop} [Decidable c] {m₁' m₂' : Eff ε σ' α'} {m₁ m₂ : Eff ε σ α}
    (h₁ : Projects e f m₁' m₁) (h₂ : Projects e f m₂' m₂) :
    Projects e f (if c then m₁' else m₂') (if c then m₁ else m₂) := by
  split
  · exact h₁
  · exact h₂

theorem attempt {m' : Eff ε σ' α'} {m : Eff ε σ α} (hm : Projects e f m' m) :
    Projects e (Except.map f) (Eff.attempt m') (Eff.attempt m) := by
  intro s
  simp only [Eff.attempt, hm s]
  rcases m' s with ⟨a | r | _ | _, t⟩
  · rfl
  · rfl
  · rfl
  · rfl

theorem finalizing {x' : σ' → σ'} {x : σ → σ} {m' : Eff ε σ' α'} {m : Eff ε σ α}
    (hx : ∀ s, x (e s) = e (x' s)) (hm : Projects e f m' m) :
    Projects e f (Eff.finalizing x' m') (Eff.finalizing x m) := by
  intro s
  simp only [Eff.finalizing, hm s]
  rcases m' s with ⟨a | r | _ | _, t⟩
  · exact congrArg _ (hx t)
  · exact congrArg _ (hx t)
  · rfl
  · rfl

/-- A loop over a vector that both states agree on. -/
theorem forEach {elem' : σ' → ℕ → Option β} {elem : σ → ℕ → Option β}
    {act' : β → α' → Eff ε σ' α'} {act : β → α → Eff ε σ α}
    (helem : ∀ s i, elem (e s) i = elem' s i)
    (hact : ∀ b a, Projects e f (act' b a) (act b (f a))) (fuel i : ℕ) (a : α') :
    Projects e f (Eff.forEach elem' act' fuel i a) (Eff.forEach elem act fuel i (f a)) := by
  induction fuel generalizing i a with
  | zero =>
    intro s
    simp only [Eff.forEach, helem]
    cases elem' s i <;> rfl
  | succ fuel ih =>
    intro s
    simp only [Eff.forEach, helem]
    cases elem' s i with
    | none => rfl
    | some b => exact bind (hact b a) (fun a => ih (i + 1) a) s

end Projects

/-- A run of plain commands is what a run of richer ones looks like. -/
theorem Runs.lift {e : σ' → σ} {f : α' → α} {κ' : Type} {exec' : κ' → Eff ε σ' α'}
    {exec : κ → Eff ε σ α} {mark : κ → κ'} (h : ∀ c, Projects e f (exec' (mark c)) (exec c))
    {cs : List κ} {s : σ'} {t : σ} (hrun : Runs exec (e s) cs t) :
    ∃ t', e t' = t ∧ Runs exec' s (cs.map mark) t' := by
  induction cs generalizing s with
  | nil =>
    cases hrun
    exact ⟨s, rfl, .nil s⟩
  | cons c cs ih =>
    cases hrun with
    | cons ho hrun =>
      rw [h c s] at ho hrun
      obtain ⟨t', ht', hrun'⟩ := ih hrun
      exact ⟨t', ht', .cons (by rwa [Outcome.returned_map] at ho) hrun'⟩

end Effect
