import Cci.Lib.Relations

/-!
# Runs of commands

A run executes commands one after the other, as a top level that catches every exception does.

* `Runs` — a run all of whose commands came back;
* `Runs.keeps`, `Runs.relates` — what every command keeps or relates, a run keeps or relates;
* `Runs.throughout_iff` — when a property that some commands break holds throughout a run;
* `states`, `outcomes` — the final state of a sequence of commands whatever the outcome of each, and
  the outcomes.
-/

namespace Effect

variable {ε σ α κ : Type}

/-- Each command came back, normally or by an exception that the top level caught. -/
inductive Runs (exec : κ → Eff ε σ α) : σ → List κ → σ → Prop where
  | nil (s : σ) : Runs exec s [] s
  | cons {s s' : σ} {c : κ} {cs : List κ} :
      (exec c s).1.returned = true → Runs exec (exec c s).2 cs s' → Runs exec s (c :: cs) s'

namespace Runs

variable {exec : κ → Eff ε σ α}

/-- An invariant of the commands of a run holds at its end. -/
theorem keeps {J : σ → Prop} {s s' : σ} {cs : List κ} (h : Runs exec s cs s')
    (hJ : ∀ c ∈ cs, Keeps J (exec c)) (hs : J s) : J s' := by
  induction h with
  | nil => exact hs
  | cons _ _ ih =>
    exact ih (fun c hc => hJ c (List.mem_cons_of_mem _ hc)) (hJ _ List.mem_cons_self _ hs)

/-- What relates the states before and after each command relates those of a run. -/
theorem relates {X R : σ → σ → Prop} (hXR : Composable X R) {s s' : σ} {cs : List κ}
    (h : Runs exec s cs s') (hc : ∀ c ∈ cs, Between X R (exec c)) : R s s' := by
  induction h with
  | nil => exact hXR.refl _
  | cons ho _ ih =>
    exact hXR.trans ((hc _ List.mem_cons_self _).2 ho)
      (ih fun c hc' => hc c (List.mem_cons_of_mem _ hc'))

theorem append {s₁ s₂ s₃ : σ} {cs cs' : List κ} (h : Runs exec s₁ cs s₂)
    (h' : Runs exec s₂ cs' s₃) : Runs exec s₁ (cs ++ cs') s₃ := by
  induction h with
  | nil => exact h'
  | cons ho _ ih => exact .cons ho (ih h')

theorem snoc {s s' : σ} {c : κ} {cs : List κ} (h : Runs exec s cs s')
    (ho : (exec c s').1.returned = true) : Runs exec s (cs ++ [c]) (exec c s').2 :=
  h.append (.cons ho (.nil _))

theorem append_inv {s t : σ} {cs cs' : List κ} (h : Runs exec s (cs ++ cs') t) :
    ∃ u, Runs exec s cs u ∧ Runs exec u cs' t := by
  induction cs generalizing s with
  | nil => exact ⟨s, .nil s, h⟩
  | cons c cs ih =>
    cases h with
    | cons ho h =>
      obtain ⟨u, hu, hu'⟩ := ih h
      exact ⟨u, .cons ho hu, hu'⟩

theorem snoc_inv {s t : σ} {c : κ} {cs : List κ} (h : Runs exec s (cs ++ [c]) t) :
    ∃ u, Runs exec s cs u ∧ (exec c u).1.returned = true ∧ t = (exec c u).2 := by
  obtain ⟨u, hu, hc⟩ := h.append_inv
  cases hc with
  | cons ho hnil =>
    cases hnil
    exact ⟨u, hu, ho, rfl⟩

theorem unique {s t t' : σ} {cs : List κ} (h : Runs exec s cs t) (h' : Runs exec s cs t') :
    t = t' := by
  induction h with
  | nil =>
    cases h'
    rfl
  | cons _ _ ih =>
    cases h' with
    | cons _ h' => exact ih h'

/-- Each command of a run came back from the state the commands before it led to. -/
theorem returned_of_prefix {s t u : σ} {c : κ} {cs ds : List κ} (h : Runs exec s cs t)
    (hds : ds ++ [c] <+: cs) (hu : Runs exec s ds u) : (exec c u).1.returned = true := by
  obtain ⟨es, rfl⟩ := hds
  obtain ⟨v, hv, -⟩ := h.append_inv
  obtain ⟨w, hw, ho, -⟩ := hv.snoc_inv
  rw [hu.unique hw]
  exact ho

/-- Let `I` give `P`, let the commands keep `I` unless they are `Bad` where they run, and let a bad
one break `P`.  Then `P` holds throughout a run if and only if the run has no bad command. -/
theorem throughout_iff {I P : σ → Prop} {Bad : σ → κ → Prop} (hP : ∀ u, I u → P u)
    (hgood : ∀ c u, I u → ¬Bad u c → (exec c u).1.returned = true → I (exec c u).2)
    (hbad : ∀ c u, I u → Bad u c → (exec c u).1.returned = true → ¬P (exec c u).2)
    {s t : σ} (hs : I s) {cs : List κ} (hrun : Runs exec s cs t) :
    (∀ ds u, ds <+: cs → Runs exec s ds u → P u) ↔
      ∀ ds c u, ds ++ [c] <+: cs → Runs exec s ds u → ¬Bad u c := by
  have hinv : ∀ ds u, Runs exec s ds u →
      (∀ es c v, es ++ [c] <+: ds → Runs exec s es v → ¬Bad v c) → I u := by
    intro ds
    induction ds using List.reverseRecOn with
    | nil =>
      intro u hu _
      cases hu
      exact hs
    | append_singleton ds c ih =>
      intro u hu hno
      obtain ⟨v, hv, ho, rfl⟩ := hu.snoc_inv
      refine hgood c v (ih v hv fun es d x hes => hno es d x ?_) (hno ds c v List.prefix_rfl hv) ho
      exact hes.trans (List.prefix_append ds [c])
  constructor
  · intro h ds
    -- Strong induction on the prefix: before the first bad command the invariant holds.
    induction hn : ds.length using Nat.strong_induction_on generalizing ds with
    | _ n ih =>
      intro c u hds hu hc
      have ho := hrun.returned_of_prefix hds hu
      refine hbad c u (hinv ds u hu fun es d v hes hv => ?_) hc ho (h _ _ hds (hu.snoc ho))
      have hlen := hes.length_le
      simp only [List.length_append, List.length_singleton] at hlen
      exact ih es.length (by omega) es rfl d v
        (hes.trans ((List.prefix_append ds [c]).trans hds)) hv
  · intro h ds u hds hu
    exact hP u (hinv ds u hu fun es c v hes hv => h es c v (hes.trans hds) hv)

end Runs

/-- The state after a sequence of commands, whatever the outcome of each was. -/
def states (exec : κ → Eff ε σ α) (s : σ) (cs : List κ) : σ :=
  cs.foldl (fun s c => (exec c s).2) s

@[simp] theorem states_nil (exec : κ → Eff ε σ α) (s : σ) : states exec s [] = s := rfl

@[simp] theorem states_snoc (exec : κ → Eff ε σ α) (s : σ) (cs : List κ) (c : κ) :
    states exec s (cs ++ [c]) = (exec c (states exec s cs)).2 := by
  simp [states]

theorem Runs.eq_states {exec : κ → Eff ε σ α} {s t : σ} {cs : List κ} (h : Runs exec s cs t) :
    t = states exec s cs := by
  induction h with
  | nil => rfl
  | cons _ _ ih => exact ih

/-- An invariant of the commands holds after each sequence of them. -/
theorem states_keeps {exec : κ → Eff ε σ α} {J : σ → Prop} (hJ : ∀ c, Keeps J (exec c)) {s : σ}
    (hs : J s) (cs : List κ) : J (states exec s cs) := by
  induction cs using List.reverseRecOn with
  | nil => exact hs
  | append_singleton cs c ih =>
    rw [states_snoc]
    exact hJ c _ ih

/-- The outcomes of a sequence of commands. -/
def outcomes (exec : κ → Eff ε σ α) (s : σ) : List κ → List (Outcome ε α)
  | [] => []
  | c :: cs => (exec c s).1 :: outcomes exec (exec c s).2 cs

theorem outcomes_snoc (exec : κ → Eff ε σ α) (s : σ) (cs : List κ) (c : κ) :
    outcomes exec s (cs ++ [c]) = outcomes exec s cs ++ [(exec c (states exec s cs)).1] := by
  induction cs generalizing s with
  | nil => rfl
  | cons d cs ih =>
    show (exec d s).1 :: outcomes exec (exec d s).2 (cs ++ [c]) = _
    rw [ih]
    rfl

end Effect
