import Mathlib

/-!
# Effects: state, exceptions, failed assertions and fuel

A computation of a stateful host language ends in one of four ways: it returns a value, it
throws, a failed assertion stops the program, or the fuel of the interpreter runs out.  In all
four the state reached so far is kept.

* `Outcome` / `Eff` — the endings and the computations, with `Monad (Eff ε σ)`;
* `attempt`, `finalizing`, `forEach` — catch, cleanup on every return, and the index loop that
  re-reads its vector in each iteration;
* `Keeps` — an invariant that holds at the end however the computation ends.
-/

namespace Effect

/-- How a computation ends. -/
inductive Outcome (ε α : Type) where
  | ok : α → Outcome ε α
  | throw : ε → Outcome ε α
  | abort : Outcome ε α
  | diverge : Outcome ε α
deriving DecidableEq, Repr

namespace Outcome

variable {ε α β : Type}

/-- Control came back to the caller, normally or by an exception. -/
def returned : Outcome ε α → Bool
  | .ok _ | .throw _ => true
  | .abort | .diverge => false

/-- The interpreter did not run out of fuel. -/
def finished : Outcome ε α → Bool
  | .diverge => false
  | _ => true

@[simp] theorem returned_ok (a : α) : (ok a : Outcome ε α).returned = true := rfl
@[simp] theorem returned_throw (e : ε) : (throw e : Outcome ε α).returned = true := rfl
@[simp] theorem returned_abort : (abort : Outcome ε α).returned = false := rfl
@[simp] theorem returned_diverge : (diverge : Outcome ε α).returned = false := rfl
@[simp] theorem finished_ok (a : α) : (ok a : Outcome ε α).finished = true := rfl
@[simp] theorem finished_throw (e : ε) : (throw e : Outcome ε α).finished = true := rfl
@[simp] theorem finished_abort : (abort : Outcome ε α).finished = true := rfl
@[simp] theorem finished_diverge : (diverge : Outcome ε α).finished = false := rfl

end Outcome

/-- A computation over the state `σ` that may throw an `ε`. -/
def Eff (ε σ α : Type) : Type := σ → Outcome ε α × σ

namespace Eff

variable {ε σ α β γ : Type}

protected def pure (a : α) : Eff ε σ α := fun s => (.ok a, s)

protected def bind (m : Eff ε σ α) (f : α → Eff ε σ β) : Eff ε σ β := fun s =>
  match m s with
  | (.ok a, t) => f a t
  | (.throw e, t) => (.throw e, t)
  | (.abort, t) => (.abort, t)
  | (.diverge, t) => (.diverge, t)

instance : Monad (Eff ε σ) where
  pure := Eff.pure
  bind := Eff.bind

def get : Eff ε σ σ := fun s => (.ok s, s)

def gets (f : σ → α) : Eff ε σ α := fun s => (.ok (f s), s)

def modify (f : σ → σ) : Eff ε σ Unit := fun s => (.ok (), f s)

def raise (e : ε) : Eff ε σ α := fun s => (.throw e, s)

def abort : Eff ε σ α := fun s => (.abort, s)

def diverge : Eff ε σ α := fun s => (.diverge, s)

/-- Run `m` and hand its value or its exception to the continuation. -/
def attempt (m : Eff ε σ α) : Eff ε σ (Except ε α) := fun s =>
  match m s with
  | (.ok a, t) => (.ok (.ok a), t)
  | (.throw e, t) => (.ok (.error e), t)
  | (.abort, t) => (.abort, t)
  | (.diverge, t) => (.diverge, t)

/-- Run `m` and apply `f` to the state when control leaves it, normally or by an exception: the
destructor of a scope guard. -/
def finalizing (f : σ → σ) (m : Eff ε σ α) : Eff ε σ α := fun s =>
  match m s with
  | (.ok a, t) => (.ok a, f t)
  | (.throw e, t) => (.throw e, f t)
  | (.abort, t) => (.abort, t)
  | (.diverge, t) => (.diverge, t)

/-- `for (i = i₀; i < v.size(); ++i) act(v[i])` over a vector that is read again from the state in
every iteration, with an accumulator; one unit of fuel an iteration. -/
def forEach (elem : σ → ℕ → Option β) (act : β → α → Eff ε σ α) :
    ℕ → ℕ → α → Eff ε σ α
  | 0, i, acc => fun s =>
      match elem s i with
      | none => (.ok acc, s)
      | some _ => (.diverge, s)
  | fuel + 1, i, acc => fun s =>
      match elem s i with
      | none => (.ok acc, s)
      | some b => (act b acc >>= forEach elem act fuel (i + 1)) s

/-! ### Running the primitives -/

@[simp] theorem pure_run (a : α) (s : σ) : (pure a : Eff ε σ α) s = (.ok a, s) := rfl
@[simp] theorem get_run (s : σ) : (get : Eff ε σ σ) s = (.ok s, s) := rfl
@[simp] theorem gets_run (f : σ → α) (s : σ) : (gets f : Eff ε σ α) s = (.ok (f s), s) := rfl
@[simp] theorem modify_run (f : σ → σ) (s : σ) : (modify f : Eff ε σ Unit) s = (.ok (), f s) := rfl
@[simp] theorem raise_run (e : ε) (s : σ) : (raise e : Eff ε σ α) s = (.throw e, s) := rfl
@[simp] theorem abort_run (s : σ) : (abort : Eff ε σ α) s = (.abort, s) := rfl
@[simp] theorem diverge_run (s : σ) : (diverge : Eff ε σ α) s = (.diverge, s) := rfl

theorem bind_run (m : Eff ε σ α) (f : α → Eff ε σ β) (s : σ) :
    (m >>= f) s = match m s with
      | (.ok a, t) => f a t
      | (.throw e, t) => (.throw e, t)
      | (.abort, t) => (.abort, t)
      | (.diverge, t) => (.diverge, t) := rfl

@[simp] theorem pure_bind_run (a : α) (f : α → Eff ε σ β) (s : σ) : (pure a >>= f) s = f a s := rfl
@[simp] theorem get_bind_run (f : σ → Eff ε σ β) (s : σ) : (get >>= f) s = f s s := rfl
@[simp] theorem gets_bind_run (g : σ → α) (f : α → Eff ε σ β) (s : σ) :
    (gets g >>= f) s = f (g s) s := rfl
@[simp] theorem modify_bind_run (g : σ → σ) (f : Unit → Eff ε σ β) (s : σ) :
    (modify g >>= f) s = f () (g s) := rfl
@[simp] theorem raise_bind_run (e : ε) (f : α → Eff ε σ β) (s : σ) :
    (raise e >>= f) s = (.throw e, s) := rfl

theorem bind_run_ok {m : Eff ε σ α} {s t : σ} {a : α} (h : m s = (.ok a, t))
    (f : α → Eff ε σ β) : (m >>= f) s = f a t := by
  rw [bind_run, h]

theorem bind_run_throw {m : Eff ε σ α} {s t : σ} {e : ε} (h : m s = (.throw e, t))
    (f : α → Eff ε σ β) : (m >>= f) s = (.throw e, t) := by
  rw [bind_run, h]

/-- A computation that came back came back from its first part. -/
theorem bind_run_eq_ok {m : Eff ε σ α} {f : α → Eff ε σ β} {s t : σ} {b : β}
    (h : (m >>= f) s = (.ok b, t)) : ∃ a u, m s = (.ok a, u) ∧ f a u = (.ok b, t) := by
  rw [bind_run] at h
  rcases hm : m s with ⟨a | e | _ | _, u⟩ <;> rw [hm] at h
  · exact ⟨a, u, rfl, h⟩
  all_goals cases h

/-- The loop is over when the index has reached the end of the vector. -/
theorem forEach_done (elem : σ → ℕ → Option β) {s : σ} {i : ℕ} (h : elem s i = none)
    (act : β → α → Eff ε σ α) (fuel : ℕ) (acc : α) :
    forEach elem act fuel i acc s = (.ok acc, s) := by
  cases fuel <;> simp only [forEach, h]

theorem finalizing_ok_iff {f : σ → σ} {m : Eff ε σ α} {s : σ} :
    (∃ a t, finalizing f m s = (.ok a, t)) ↔ ∃ a t, m s = (.ok a, t) := by
  unfold finalizing
  rcases m s with ⟨a | e | _ | _, t⟩
  · exact iff_of_true ⟨a, f t, rfl⟩ ⟨a, t, rfl⟩
  all_goals
    refine iff_of_false ?_ ?_ <;>
    · rintro ⟨a, t, h⟩
      cases h

/-- A loop whose body does not throw does not throw. -/
theorem forEach_not_throw {elem : σ → ℕ → Option β} {act : β → α → Eff ε σ α}
    (hact : ∀ b acc s e, (act b acc s).1 ≠ .throw e) (fuel i : ℕ) (acc : α) (s : σ) (e : ε) :
    (forEach elem act fuel i acc s).1 ≠ .throw e := by
  induction fuel generalizing i acc s with
  | zero =>
    simp only [forEach]
    cases elem s i <;> simp
  | succ fuel ih =>
    simp only [forEach]
    cases elem s i with
    | none => simp
    | some b =>
      show ((act b acc >>= forEach elem act fuel (i + 1)) s).1 ≠ .throw e
      rw [bind_run]
      rcases hr : act b acc s with ⟨a | e' | _ | _, t⟩
      · exact ih (i + 1) a t
      · exact absurd (congrArg Prod.fst hr) (hact b acc s e')
      · simp
      · simp

theorem bind_assoc_run (m : Eff ε σ α) (f : α → Eff ε σ β) (g : β → Eff ε σ γ) (s : σ) :
    ((m >>= f) >>= g) s = (m >>= fun a => f a >>= g) s := by
  simp only [bind_run]
  rcases m s with ⟨_ | _ | _ | _, t⟩ <;> rfl

end Eff

open Eff

variable {ε σ α β : Type}

/-! ### Invariants -/

/-- `I` holds at the end of `m`, however `m` ends, when it held at the start. -/
def Keeps (I : σ → Prop) (m : Eff ε σ α) : Prop := ∀ s, I s → I (m s).2

namespace Keeps

variable {I : σ → Prop}

theorem pure (a : α) : Keeps I (Pure.pure a : Eff ε σ α) := fun _ h => h
theorem get : Keeps I (Eff.get : Eff ε σ σ) := fun _ h => h
theorem gets (f : σ → α) : Keeps I (Eff.gets f : Eff ε σ α) := fun _ h => h
theorem raise (e : ε) : Keeps I (Eff.raise e : Eff ε σ α) := fun _ h => h
theorem abort : Keeps I (Eff.abort : Eff ε σ α) := fun _ h => h
theorem diverge : Keeps I (Eff.diverge : Eff ε σ α) := fun _ h => h

theorem modify {f : σ → σ} (h : ∀ s, I s → I (f s)) : Keeps I (Eff.modify f : Eff ε σ Unit) := h

theorem bind {m : Eff ε σ α} {f : α → Eff ε σ β} (hm : Keeps I m) (hf : ∀ a, Keeps I (f a)) :
    Keeps I (m >>= f) := by
  intro s hs
  have ht := hm s hs
  rw [bind_run]
  rcases hr : m s with ⟨_ | _ | _ | _, t⟩ <;> rw [hr] at ht
  · exact hf _ t ht
  · exact ht
  · exact ht
  · exact ht

theorem ite {c : Prop} [Decidable c] {m m' : Eff ε σ α} (hm : Keeps I m) (hm' : Keeps I m') :
    Keeps I (if c then m else m') := by
  split
  · exact hm
  · exact hm'

theorem attempt {m : Eff ε σ α} (hm : Keeps I m) : Keeps I (Eff.attempt m) := by
  intro s hs
  have ht := hm s hs
  simp only [Eff.attempt]
  rcases hr : m s with ⟨_ | _ | _ | _, t⟩ <;> rw [hr] at ht <;> exact ht

theorem finalizing {f : σ → σ} {m : Eff ε σ α} (hf : ∀ s, I s → I (f s)) (hm : Keeps I m) :
    Keeps I (Eff.finalizing f m) := by
  intro s hs
  have ht := hm s hs
  simp only [Eff.finalizing]
  rcases hr : m s with ⟨_ | _ | _ | _, t⟩ <;> rw [hr] at ht
  · exact hf t ht
  · exact hf t ht
  · exact ht
  · exact ht

theorem forEach {elem : σ → ℕ → Option β} {act : β → α → Eff ε σ α}
    (hact : ∀ b acc, Keeps I (act b acc)) :
    ∀ fuel i acc, Keeps I (Eff.forEach elem act fuel i acc) := by
  intro fuel
  induction fuel with
  | zero =>
    intro i acc s hs
    simp only [Eff.forEach]
    cases elem s i <;> exact hs
  | succ fuel ih =>
    intro i acc s hs
    simp only [Eff.forEach]
    cases elem s i with
    | none => exact hs
    | some b => exact bind (hact b acc) (fun acc' => ih (i + 1) acc') s hs

end Keeps
end Effect
