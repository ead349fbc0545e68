import Cci.Lib.Effect

/-!
# Classes of computations closed under the constructs of the language

What is proved of a program by going through its text needs the same facts about sequencing, catching
and reading in each proof.  `Plumbing` collects them for a relation between two computations; a
property of one computation is a relation that ignores the second.

* `Plumbing` — closure under the constructs of the language;
* `Keeps.plumbing` — invariants;
* `Ends` — the fuel suffices, and a condition holds again when control comes back;
* `Between` — how the states before and after are related, in any case and when control came back;
* `Approximates` — what finished is not changed by more fuel.
-/

namespace Effect

open Eff

variable {ε σ α β : Type}

/-- A relation on computations closed under the constructs of the language. -/
structure Plumbing (K : (α : Type) → Eff ε σ α → Eff ε σ α → Prop) : Prop where
  pure : ∀ {α : Type} (a : α), K α (Pure.pure a) (Pure.pure a)
  bind : ∀ {α β : Type} {m m' : Eff ε σ α} {f f' : α → Eff ε σ β},
    K α m m' → (∀ a, K β (f a) (f' a)) → K β (m >>= f) (m' >>= f')
  attempt : ∀ {α : Type} {m m' : Eff ε σ α}, K α m m' → K _ (Eff.attempt m) (Eff.attempt m')
  gets : ∀ {α : Type} (f : σ → α), K α (Eff.gets f) (Eff.gets f)
  raise : ∀ {α : Type} (e : ε), K α (Eff.raise e) (Eff.raise e)
  abort : ∀ {α : Type}, K α Eff.abort Eff.abort

theorem Plumbing.ite {K : (α : Type) → Eff ε σ α → Eff ε σ α → Prop} (_ : Plumbing K)
    {c : Prop} [Decidable c] {m₁ m₁' m₂ m₂' : Eff ε σ α} (h₁ : K α m₁ m₁') (h₂ : K α m₂ m₂') :
    K α (if c then m₁ else m₂) (if c then m₁' else m₂') := by
  split
  · exact h₁
  · exact h₂

theorem Keeps.plumbing (I : σ → Prop) :
    Plumbing fun α (m _ : Eff ε σ α) => Keeps I m where
  pure := Keeps.pure
  bind := Keeps.bind
  attempt := Keeps.attempt
  gets := Keeps.gets
  raise := Keeps.raise
  abort := Keeps.abort

/-! ### Termination -/

/-- Started in `P`, the computation does not run out of fuel, and `P` holds again when control comes
back. -/
def Ends (P : σ → Prop) (m : Eff ε σ α) : Prop :=
  ∀ s, P s → (m s).1.finished = true ∧ ((m s).1.returned = true → P (m s).2)

namespace Ends

variable {P Q : σ → Prop}

theorem modify {f : σ → σ} (h : ∀ s, P s → P (f s)) : Ends P (Eff.modify f : Eff ε σ Unit) :=
  fun s hs => ⟨rfl, fun _ => h s hs⟩

theorem bind {m : Eff ε σ α} {f : α → Eff ε σ β} (hm : Ends P m) (hf : ∀ a, Ends P (f a)) :
    Ends P (m >>= f) := by
  intro s hs
  obtain ⟨hfin, hback⟩ := hm s hs
  rw [bind_run]
  rcases hr : m s with ⟨a | e | _ | _, t⟩ <;> rw [hr] at hfin hback
  · exact hf a t (hback rfl)
  · exact ⟨rfl, hback⟩
  · exact ⟨rfl, fun h => Bool.noConfusion h⟩
  · cases hfin

theorem attempt {m : Eff ε σ α} (hm : Ends P m) : Ends P (Eff.attempt m) := by
  intro s hs
  obtain ⟨hfin, hback⟩ := hm s hs
  simp only [Eff.attempt]
  rcases hr : m s with ⟨a | e | _ | _, t⟩ <;> rw [hr] at hfin hback
  · exact ⟨rfl, hback⟩
  · exact ⟨rfl, hback⟩
  · exact ⟨rfl, hback⟩
  · cases hfin

theorem plumbing (P : σ → Prop) : Plumbing fun α (m _ : Eff ε σ α) => Ends P m where
  pure _ _ hs := ⟨rfl, fun _ => hs⟩
  bind := bind
  attempt := attempt
  gets _ _ hs := ⟨rfl, fun _ => hs⟩
  raise _ _ hs := ⟨rfl, fun _ => hs⟩
  abort _ _ := ⟨rfl, fun h => Bool.noConfusion h⟩

/-- A loop ends when its fuel covers the vector. -/
theorem forEach {elem : σ → ℕ → Option β} {act : β → α → Eff ε σ α}
    (hact : ∀ b acc, Ends P (act b acc)) :
    ∀ fuel i acc, (∀ s, P s → elem s (i + fuel) = none) → Ends P (Eff.forEach elem act fuel i acc) := by
  intro fuel
  induction fuel with
  | zero =>
    intro i acc hlen s hs
    have hnone : elem s i = none := hlen s hs
    simp only [Eff.forEach, hnone]
    exact ⟨rfl, fun _ => hs⟩
  | succ fuel ih =>
    intro i acc hlen s hs
    simp only [Eff.forEach]
    cases elem s i with
    | none => exact ⟨rfl, fun _ => hs⟩
    | some b =>
      refine bind (hact b acc) (fun acc' => ih (i + 1) acc' fun t ht => ?_) s hs
      rw [show i + 1 + fuel = i + (fuel + 1) by omega]
      exact hlen t ht

/-- A scope guard: `f` enters it, `g` leaves it. -/
theorem scope {f g : σ → σ} {m : Eff ε σ α} (hf : ∀ s, P s → Q (f s)) (hg : ∀ s, Q s → P (g s))
    (hm : Ends Q m) : Ends P (Eff.modify f >>= fun _ => Eff.finalizing g m) := by
  intro s hs
  obtain ⟨hfin, hback⟩ := hm (f s) (hf s hs)
  simp only [modify_bind_run, Eff.finalizing]
  rcases hr : m (f s) with ⟨a | e | _ | _, t⟩ <;> rw [hr] at hfin hback
  · exact ⟨rfl, fun _ => hg t (hback rfl)⟩
  · exact ⟨rfl, fun _ => hg t (hback rfl)⟩
  · exact ⟨rfl, fun h => Bool.noConfusion h⟩
  · cases hfin

end Ends

/-! ### The states before and after -/

/-- From `s`, `X` relates the states before and after `m` in any case, `R` when control came
back. -/
def BetweenAt (X R : σ → σ → Prop) (m : Eff ε σ α) (s : σ) : Prop :=
  X s (m s).2 ∧ ((m s).1.returned = true → R s (m s).2)

/-- The same from every start state. -/
def Between (X R : σ → σ → Prop) (m : Eff ε σ α) : Prop := ∀ s, BetweenAt X R m s

/-- What `X` and `R` must satisfy for computations to be composed. -/
structure Composable (X R : σ → σ → Prop) : Prop where
  refl : ∀ s, R s s
  trans : ∀ {s t u}, R s t → R t u → R s u
  weaken : ∀ {s t}, R s t → X s t
  after : ∀ {s t u}, R s t → X t u → X s u

namespace BetweenAt

variable {X R : σ → σ → Prop}

theorem congr {m m' : Eff ε σ α} {s : σ} (h : BetweenAt X R m s) (heq : m' s = m s) :
    BetweenAt X R m' s := by
  simp only [BetweenAt, heq]
  exact h

theorem of_run (hXR : Composable X R) {m : Eff ε σ α} {s t : σ} {o : Outcome ε α}
    (heq : m s = (o, t)) (h : R s t) : BetweenAt X R m s := by
  simp only [BetweenAt, heq]
  exact ⟨hXR.weaken h, fun _ => h⟩

/-- Sequencing with what is known of the first computation's result. -/
theorem bind (hXR : Composable X R) {m : Eff ε σ α} {f : α → Eff ε σ β} {s : σ}
    (hm : BetweenAt X R m s) (hf : ∀ a t, m s = (.ok a, t) → R s t → BetweenAt X R (f a) t) :
    BetweenAt X R (m >>= f) s := by
  obtain ⟨hX, hR⟩ := hm
  simp only [BetweenAt, bind_run]
  rcases hr : m s with ⟨a | e | _ | _, t⟩ <;> rw [hr] at hX hR
  · obtain ⟨hX', hR'⟩ := hf a t hr (hR rfl)
    exact ⟨hXR.after (hR rfl) hX', fun h => hXR.trans (hR rfl) (hR' h)⟩
  · exact ⟨hX, hR⟩
  · exact ⟨hX, fun h => Bool.noConfusion h⟩
  · exact ⟨hX, fun h => Bool.noConfusion h⟩

/-- A scope guard: `f` enters it, `g` leaves it. -/
theorem scope {X' R' : σ → σ → Prop} {f g : σ → σ} {m : Eff ε σ α} {s : σ}
    (hm : BetweenAt X R m (f s)) (hX : ∀ t, X (f s) t → X' s t) (hR : ∀ t, R (f s) t → R' s (g t))
    (hRX : ∀ t, R' s t → X' s t) :
    BetweenAt X' R' (Eff.modify f >>= fun _ => Eff.finalizing g m) s := by
  obtain ⟨hX', hR'⟩ := hm
  simp only [BetweenAt, modify_bind_run, Eff.finalizing]
  rcases hr : m (f s) with ⟨a | e | _ | _, t⟩ <;> rw [hr] at hX' hR'
  · exact ⟨hRX _ (hR t (hR' rfl)), fun _ => hR t (hR' rfl)⟩
  · exact ⟨hRX _ (hR t (hR' rfl)), fun _ => hR t (hR' rfl)⟩
  · exact ⟨hX t hX', fun h => Bool.noConfusion h⟩
  · exact ⟨hX t hX', fun h => Bool.noConfusion h⟩

end BetweenAt

namespace Between

variable {X R : σ → σ → Prop}

theorem of_back (hXR : Composable X R) {m : Eff ε σ α} (h : ∀ s, R s (m s).2) : Between X R m :=
  fun s => ⟨hXR.weaken (h s), fun _ => h s⟩

theorem bind (hXR : Composable X R) {m : Eff ε σ α} {f : α → Eff ε σ β} (hm : Between X R m)
    (hf : ∀ a, Between X R (f a)) : Between X R (m >>= f) :=
  fun s => (hm s).bind hXR fun a t _ _ => hf a t

theorem attempt {m : Eff ε σ α} (hm : Between X R m) : Between X R (Eff.attempt m) := by
  intro s
  obtain ⟨hX, hR⟩ := hm s
  simp only [BetweenAt, Eff.attempt]
  rcases hr : m s with ⟨a | e | _ | _, t⟩ <;> rw [hr] at hX hR
  · exact ⟨hX, hR⟩
  · exact ⟨hX, hR⟩
  · exact ⟨hX, hR⟩
  · exact ⟨hX, hR⟩

theorem plumbing (hXR : Composable X R) : Plumbing fun α (m _ : Eff ε σ α) => Between X R m where
  pure _ := of_back hXR hXR.refl
  bind := bind hXR
  attempt := attempt
  gets _ := of_back hXR hXR.refl
  raise _ := of_back hXR hXR.refl
  abort := fun s => ⟨hXR.weaken (hXR.refl s), fun h => Bool.noConfusion h⟩

theorem modify (hXR : Composable X R) {f : σ → σ} (h : ∀ s, R s (f s)) :
    Between X R (Eff.modify f : Eff ε σ Unit) := of_back hXR h

theorem forEach (hXR : Composable X R) {elem : σ → ℕ → Option β} {act : β → α → Eff ε σ α}
    (hact : ∀ b acc, Between X R (act b acc)) :
    ∀ fuel i acc, Between X R (Eff.forEach elem act fuel i acc) := by
  intro fuel
  induction fuel with
  | zero =>
    intro i acc s
    simp only [BetweenAt, Eff.forEach]
    cases elem s i with
    | none => exact ⟨hXR.weaken (hXR.refl s), fun _ => hXR.refl s⟩
    | some b => exact ⟨hXR.weaken (hXR.refl s), fun h => Bool.noConfusion h⟩
  | succ fuel ih =>
    intro i acc s
    simp only [BetweenAt, Eff.forEach]
    cases elem s i with
    | none => exact ⟨hXR.weaken (hXR.refl s), fun _ => hXR.refl s⟩
    | some b => exact bind hXR (hact b acc) (fun acc' => ih (i + 1) acc') s

end Between

/-! ### More fuel -/

/-- Wherever `m` does not run out of fuel, `m'` does the same. -/
def Approximates (m m' : Eff ε σ α) : Prop := ∀ s, (m s).1.finished = true → m' s = m s

namespace Approximates

theorem refl (m : Eff ε σ α) : Approximates m m := fun _ _ => rfl

theorem bind {m m' : Eff ε σ α} {f f' : α → Eff ε σ β} (hm : Approximates m m')
    (hf : ∀ a, Approximates (f a) (f' a)) : Approximates (m >>= f) (m' >>= f') := by
  intro s hfin
  rw [bind_run] at hfin ⊢
  rcases hr : m s with ⟨a | e | _ | _, t⟩ <;> rw [hr] at hfin
  · rw [hm s (by rw [hr]; rfl), bind_run, hr]
    exact hf a t hfin
  · rw [hm s (by rw [hr]; rfl), bind_run, hr]
  · rw [hm s (by rw [hr]; rfl), bind_run, hr]
  · cases hfin

theorem attempt {m m' : Eff ε σ α} (hm : Approximates m m') :
    Approximates (Eff.attempt m) (Eff.attempt m') := by
  intro s hfin
  simp only [Eff.attempt] at hfin ⊢
  rcases hr : m s with ⟨a | e | _ | _, t⟩ <;> rw [hr] at hfin
  · rw [hm s (by rw [hr]; rfl), hr]
  · rw [hm s (by rw [hr]; rfl), hr]
  · rw [hm s (by rw [hr]; rfl), hr]
  · cases hfin

theorem finalizing {f : σ → σ} {m m' : Eff ε σ α} (hm : Approximates m m') :
    Approximates (Eff.finalizing f m) (Eff.finalizing f m') := by
  intro s hfin
  simp only [Eff.finalizing] at hfin ⊢
  rcases hr : m s with ⟨a | e | _ | _, t⟩ <;> rw [hr] at hfin
  · rw [hm s (by rw [hr]; rfl), hr]
  · rw [hm s (by rw [hr]; rfl), hr]
  · rw [hm s (by rw [hr]; rfl), hr]
  · cases hfin

theorem plumbing : Plumbing fun α (m m' : Eff ε σ α) => Approximates m m' where
  pure _ := refl _
  bind := bind
  attempt := attempt
  gets _ := refl _
  raise _ := refl _
  abort := refl _

theorem forEach {elem : σ → ℕ → Option β} {act act' : β → α → Eff ε σ α}
    (hact : ∀ b acc, Approximates (act b acc) (act' b acc)) :
    ∀ {fuel fuel'}, fuel ≤ fuel' → ∀ i acc,
      Approximates (Eff.forEach elem act fuel i acc) (Eff.forEach elem act' fuel' i acc) := by
  intro fuel
  induction fuel with
  | zero =>
    intro fuel' _ i acc s hfin
    cases he : elem s i with
    | none => cases fuel' <;> simp only [Eff.forEach, he]
    | some b => simp only [Eff.forEach, he, Outcome.finished_diverge, Bool.false_eq_true] at hfin
  | succ fuel ih =>
    intro fuel' hle i acc s hfin
    obtain ⟨fuel', rfl⟩ : ∃ k, fuel' = k + 1 := ⟨fuel' - 1, by omega⟩
    cases he : elem s i with
    | none => simp only [Eff.forEach, he]
    | some b =>
      simp only [Eff.forEach, he] at hfin ⊢
      exact bind (hact b acc) (fun acc' => ih (by omega) (i + 1) acc') s hfin

end Approximates

end Effect
