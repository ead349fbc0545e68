import Cci.Lib.Runs

/-!
# Computations local to a part of the state

A computation is local to a part of the state if it depends on nothing else and changes nothing else.
Two views of the state say which part: `seen` is what it may depend on, `rest` what it leaves alone.
All of this may be meant of the states in an invariant only.

* `Local` — with the rules for the constructs of the language;
* `outcomesOf` — the outcomes of some of the commands of a sequence;
* `Sees`, `Runs.alone` — a view that depends on the selected commands only is the same without the
  others;
* `Apart`, `Runs.reorder` — commands local to parts that do not overlap may be reordered.
-/

namespace Effect

open Eff

variable {ε σ α β V W : Type}

/-- In `I`: from states that look alike in `seen` the computation ends alike, in states that look alike
again; and it leaves `rest` as it was. -/
structure Local (I : σ → Prop) (seen : σ → V) (rest : σ → W) (m : Eff ε σ α) : Prop where
  outcome : ∀ {s t}, I s → I t → seen s = seen t → (m s).1 = (m t).1
  agrees : ∀ {s t}, I s → I t → seen s = seen t → seen (m s).2 = seen (m t).2
  frame : ∀ s, I s → rest (m s).2 = rest s
  keeps : Keeps I m

namespace Local

variable {I : σ → Prop} {seen : σ → V} {rest : σ → W}

/-- What leaves the state alone. -/
theorem of_state {m : Eff ε σ α} (hstate : ∀ s, (m s).2 = s)
    (ho : ∀ {s t}, I s → I t → seen s = seen t → (m s).1 = (m t).1) : Local I seen rest m where
  outcome := ho
  agrees {s t} _ _ h := by
    rw [hstate, hstate]
    exact h
  frame s _ := by rw [hstate]
  keeps s hs := by
    rw [hstate]
    exact hs

/-- What depends on less than the view shows, and leaves alone all that the views and the invariant
show. -/
theorem of_less {U U' : Type} {less : σ → U} {whole : σ → U'} {m : Eff ε σ α}
    (hm : Local (fun _ => True) less whole m)
    (hless : ∀ s t, seen s = seen t → less s = less t)
    (hseen : ∀ s t, whole s = whole t → seen s = seen t)
    (hrest : ∀ s t, whole s = whole t → rest s = rest t)
    (hI : ∀ s t, whole s = whole t → I t → I s) : Local I seen rest m where
  outcome _ _ h := hm.outcome trivial trivial (hless _ _ h)
  agrees {s t} _ _ h := by
    rw [hseen _ _ (hm.frame s trivial), hseen _ _ (hm.frame t trivial)]
    exact h
  frame s _ := hrest _ _ (hm.frame s trivial)
  keeps s hs := hI _ _ (hm.frame s trivial) hs

theorem pure (a : α) : Local I seen rest (Pure.pure a : Eff ε σ α) :=
  of_state (fun _ => rfl) fun _ _ _ => rfl

theorem raise (e : ε) : Local I seen rest (Eff.raise e : Eff ε σ α) :=
  of_state (fun _ => rfl) fun _ _ _ => rfl

theorem abort : Local I seen rest (Eff.abort : Eff ε σ α) :=
  of_state (fun _ => rfl) fun _ _ _ => rfl

theorem diverge : Local I seen rest (Eff.diverge : Eff ε σ α) :=
  of_state (fun _ => rfl) fun _ _ _ => rfl

/-- Reading what the view shows. -/
theorem gets {f : σ → α} (hf : ∀ s t, I s → I t → seen s = seen t → f s = f t) :
    Local I seen rest (Eff.gets f : Eff ε σ α) :=
  of_state (fun _ => rfl) fun hs ht h => congrArg Outcome.ok (hf _ _ hs ht h)

theorem modify {f : σ → σ} (hseen : ∀ s t, seen s = seen t → seen (f s) = seen (f t))
    (hrest : ∀ s, rest (f s) = rest s) (hI : ∀ s, I s → I (f s)) :
    Local I seen rest (Eff.modify f : Eff ε σ Unit) :=
  ⟨fun _ _ _ => rfl, fun _ _ h => hseen _ _ h, fun s _ => hrest s, hI⟩

theorem bind {m : Eff ε σ α} {f : α → Eff ε σ β} (hm : Local I seen rest m)
    (hf : ∀ a, Local I seen rest (f a)) : Local I seen rest (m >>= f) := by
  have hrun : ∀ {s t}, I s → I t → seen s = seen t → ((m >>= f) s).1 = ((m >>= f) t).1 ∧
      seen ((m >>= f) s).2 = seen ((m >>= f) t).2 := by
    intro s t hs ht h
    have ho := hm.outcome hs ht h
    have ha := hm.agrees hs ht h
    have hs' := hm.keeps s hs
    have ht' := hm.keeps t ht
    simp only [bind_run]
    rcases hms : m s with ⟨o, s'⟩
    rcases hmt : m t with ⟨o', t'⟩
    rw [hms, hmt] at ho ha
    rw [hms] at hs'
    rw [hmt] at ht'
    cases ho
    cases o with
    | ok a => exact ⟨(hf a).outcome hs' ht' ha, (hf a).agrees hs' ht' ha⟩
    | throw e => exact ⟨rfl, ha⟩
    | abort => exact ⟨rfl, ha⟩
    | diverge => exact ⟨rfl, ha⟩
  refine ⟨fun hs ht h => (hrun hs ht h).1, fun hs ht h => (hrun hs ht h).2, fun s hs => ?_,
    hm.keeps.bind fun a => (hf a).keeps⟩
  have hframe := hm.frame s hs
  have hs' := hm.keeps s hs
  rw [bind_run]
  rcases hms : m s with ⟨a | e | _ | _, s'⟩ <;> rw [hms] at hframe hs'
  · exact ((hf a).frame s' hs').trans hframe
  · exact hframe
  · exact hframe
  · exact hframe

/-- Reading the whole state, where only what the view shows of it is used. -/
theorem get {k : σ → Eff ε σ α} (hk : ∀ s t, I s → I t → seen s = seen t → k s = k t)
    (hl : ∀ s, I s → Local I seen rest (k s)) : Local I seen rest (Eff.get >>= k) := by
  refine ⟨fun {s t} hs ht h => ?_, fun {s t} hs ht h => ?_, fun s hs => (hl s hs).frame s hs,
    fun s hs => (hl s hs).keeps s hs⟩
  · rw [get_bind_run, get_bind_run, hk s t hs ht h]
    exact (hl t ht).outcome hs ht h
  · rw [get_bind_run, get_bind_run, hk s t hs ht h]
    exact (hl t ht).agrees hs ht h

theorem ite {c : Prop} [Decidable c] {m m' : Eff ε σ α} (hm : Local I seen rest m)
    (hm' : Local I seen rest m') : Local I seen rest (if c then m else m') := by
  split
  · exact hm
  · exact hm'

theorem attempt {m : Eff ε σ α} (hm : Local I seen rest m) : Local I seen rest (Eff.attempt m) := by
  have hstate : ∀ s, (Eff.attempt m s).2 = (m s).2 := by
    intro s
    simp only [Eff.attempt]
    rcases m s with ⟨_ | _ | _ | _, _⟩ <;> rfl
  refine ⟨fun {s t} hs ht h => ?_, fun {s t} hs ht h => ?_, fun s hs => ?_, hm.keeps.attempt⟩
  · have ho := hm.outcome hs ht h
    simp only [Eff.attempt]
    rcases hms : m s with ⟨o, s'⟩
    rcases hmt : m t with ⟨o', t'⟩
    rw [hms, hmt] at ho
    cases ho
    cases o <;> rfl
  · rw [hstate, hstate]
    exact hm.agrees hs ht h
  · rw [hstate]
    exact hm.frame s hs

theorem finalizing {f : σ → σ} {m : Eff ε σ α}
    (hseen : ∀ s t, seen s = seen t → seen (f s) = seen (f t)) (hrest : ∀ s, rest (f s) = rest s)
    (hI : ∀ s, I s → I (f s)) (hm : Local I seen rest m) :
    Local I seen rest (Eff.finalizing f m) := by
  have hrun : ∀ {s t}, I s → I t → seen s = seen t →
      (Eff.finalizing f m s).1 = (Eff.finalizing f m t).1 ∧
        seen (Eff.finalizing f m s).2 = seen (Eff.finalizing f m t).2 := by
    intro s t hs ht h
    have ho := hm.outcome hs ht h
    have ha := hm.agrees hs ht h
    simp only [Eff.finalizing]
    rcases hms : m s with ⟨o, s'⟩
    rcases hmt : m t with ⟨o', t'⟩
    rw [hms, hmt] at ho ha
    cases ho
    cases o with
    | ok a => exact ⟨rfl, hseen _ _ ha⟩
    | throw e => exact ⟨rfl, hseen _ _ ha⟩
    | abort => exact ⟨rfl, ha⟩
    | diverge => exact ⟨rfl, ha⟩
  refine ⟨fun hs ht h => (hrun hs ht h).1, fun hs ht h => (hrun hs ht h).2, fun s hs => ?_,
    hm.keeps.finalizing hI⟩
  have hframe := hm.frame s hs
  simp only [Eff.finalizing]
  rcases hms : m s with ⟨a | e | _ | _, s'⟩ <;> rw [hms] at hframe
  · exact (hrest s').trans hframe
  · exact (hrest s').trans hframe
  · exact hframe
  · exact hframe

/-- An index loop over a vector that the view shows. -/
theorem forEach {elem : σ → ℕ → Option β} {act : β → α → Eff ε σ α}
    (helem : ∀ s t, I s → I t → seen s = seen t → elem s = elem t)
    (hact : ∀ b acc, Local I seen rest (act b acc)) :
    ∀ fuel i acc, Local I seen rest (Eff.forEach elem act fuel i acc) := by
  have hread : ∀ i, Local I seen rest (Eff.gets (fun s => elem s i) : Eff ε σ (Option β)) :=
    fun i => gets fun s t hs ht h => by rw [helem s t hs ht h]
  intro fuel
  induction fuel with
  | zero =>
    intro i acc
    have hshape : Eff.forEach elem act 0 i acc = (Eff.gets (fun s => elem s i) >>= fun b =>
        b.elim (Pure.pure acc) fun _ => Eff.diverge) := by
      funext s
      rw [gets_bind_run]
      simp only [Eff.forEach]
      cases elem s i <;> rfl
    rw [hshape]
    refine bind (hread i) fun b => ?_
    cases b with
    | none => exact pure acc
    | some b => exact diverge
  | succ fuel ih =>
    intro i acc
    have hshape : Eff.forEach elem act (fuel + 1) i acc = (Eff.gets (fun s => elem s i) >>= fun b =>
        b.elim (Pure.pure acc) fun b => act b acc >>= Eff.forEach elem act fuel (i + 1)) := by
      funext s
      rw [gets_bind_run]
      simp only [Eff.forEach]
      cases elem s i <;> rfl
    rw [hshape]
    refine bind (hread i) fun b => ?_
    cases b with
    | none => exact pure acc
    | some b => exact bind (hact b acc) fun acc' => ih (i + 1) acc'

end Local

/-! ### Runs -/

section

variable {κ : Type}

/-- The outcomes of the commands of a sequence that `sel` selects. -/
def outcomesOf (sel : κ → Bool) (exec : κ → Eff ε σ α) : σ → List κ → List (Outcome ε α)
  | _, [] => []
  | s, c :: cs =>
      if sel c then (exec c s).1 :: outcomesOf sel exec (exec c s).2 cs
      else outcomesOf sel exec (exec c s).2 cs

/-- In `I`: a selected command depends on the view only, any other leaves the view alone. -/
structure Sees (I : σ → Prop) (seen : σ → V) (sel : κ → Bool) (exec : κ → Eff ε σ α) (c : κ) :
    Prop where
  keeps : Keeps I (exec c)
  outcome : sel c = true → ∀ {s t}, I s → I t → seen s = seen t → (exec c s).1 = (exec c t).1
  agrees : sel c = true → ∀ {s t}, I s → I t → seen s = seen t →
    seen (exec c s).2 = seen (exec c t).2
  unseen : sel c = false → ∀ s, I s → seen (exec c s).2 = seen s

variable {exec : κ → Eff ε σ α} {I : σ → Prop}

/-- **What is not selected is not seen.**  A run with the selected commands only comes back; they have
the same outcomes in it, and the view is the same at its end. -/
theorem Runs.alone {seen : σ → V} {sel : κ → Bool} {s t : σ} {cs : List κ} (hrun : Runs exec s cs t)
    (hcs : ∀ c ∈ cs, Sees I seen sel exec c) (hs : I s) :
    ∀ {s'}, I s' → seen s = seen s' → ∃ t', Runs exec s' (cs.filter sel) t' ∧ seen t = seen t' ∧
      outcomesOf sel exec s cs = outcomes exec s' (cs.filter sel) := by
  induction hrun with
  | nil s =>
    intro s' _ h
    exact ⟨s', .nil s', h, rfl⟩
  | @cons s t c cs ho hrun ih =>
    intro s' hs' h
    have hc := hcs c List.mem_cons_self
    have hrest : ∀ d ∈ cs, Sees I seen sel exec d := fun d hd => hcs d (List.mem_cons_of_mem _ hd)
    cases hsel : sel c with
    | true =>
      obtain ⟨t', hrun', ht, hout⟩ := ih hrest (hc.keeps s hs) (hc.keeps s' hs')
        (hc.agrees hsel hs hs' h)
      have heq := hc.outcome hsel hs hs' h
      simp only [List.filter_cons, hsel, if_true, outcomesOf, outcomes]
      refine ⟨t', .cons (heq ▸ ho) hrun', ht, ?_⟩
      rw [heq, hout]
    | false =>
      obtain ⟨t', hrun', ht, hout⟩ := ih hrest (hc.keeps s hs) hs' ((hc.unseen hsel s hs).trans h)
      simp only [List.filter_cons, hsel, Bool.false_eq_true, if_false, outcomesOf]
      exact ⟨t', hrun', ht, hout⟩

variable {ι : Type} [DecidableEq ι] {V W : ι → Type} {label : κ → ι} {seen : (i : ι) → σ → V i}

/-- If each part's commands alone come back, so do all of them in any order. -/
theorem Runs.merge {cs : List κ}
    (hcs : ∀ c ∈ cs, ∀ i, Sees I (seen i) (fun c => label c = i) exec c) :
    ∀ {s}, I s → (∀ i, ∃ s' t', I s' ∧ seen i s = seen i s' ∧
      Runs exec s' (cs.filter fun c => label c = i) t') → ∃ t, Runs exec s cs t := by
  induction cs with
  | nil => exact fun {s} _ _ => ⟨s, .nil s⟩
  | cons c cs ih =>
    intro s hI hparts
    have hc := hcs c List.mem_cons_self
    have hown : decide (label c = label c) = true := decide_eq_true rfl
    obtain ⟨s', t', hI', hs, hrun⟩ := hparts (label c)
    rw [List.filter_cons, if_pos hown] at hrun
    cases hrun with
    | cons ho hrun =>
      have hnext : ∃ t, Runs exec (exec c s).2 cs t := by
        refine ih (fun d hd => hcs d (List.mem_cons_of_mem _ hd)) ((hc (label c)).keeps s hI)
          fun i => ?_
        by_cases hi : label c = i
        · subst hi
          exact ⟨_, t', (hc (label c)).keeps s' hI', (hc (label c)).agrees hown hI hI' hs, hrun⟩
        · obtain ⟨u, v, hIu, hu, huv⟩ := hparts i
          rw [List.filter_cons, if_neg (by simpa using hi)] at huv
          exact ⟨u, v, hIu, ((hc i).unseen (decide_eq_false hi) s hI).trans hu, huv⟩
      obtain ⟨t, ht⟩ := hnext
      exact ⟨t, .cons ((hc (label c)).outcome hown hI hI' hs ▸ ho) ht⟩

/-- What commands of one part leave alone shows everything the other parts see. -/
def Apart (seen : (i : ι) → σ → V i) (rest : (i : ι) → σ → W i) : Prop :=
  ∀ i j, i ≠ j → ∀ s t, rest i s = rest i t → seen j s = seen j t

theorem Local.sees {rest : (i : ι) → σ → W i} (hapart : Apart seen rest) {c : κ}
    (hc : Local I (seen (label c)) (rest (label c)) (exec c)) (i : ι) :
    Sees I (seen i) (fun c => label c = i) exec c where
  keeps := hc.keeps
  outcome hi _ _ hs ht h := by
    obtain rfl := of_decide_eq_true hi
    exact hc.outcome hs ht h
  agrees hi _ _ hs ht h := by
    obtain rfl := of_decide_eq_true hi
    exact hc.agrees hs ht h
  unseen hi s hs := hapart _ _ (of_decide_eq_false hi) _ _ (hc.frame s hs)

/-- **Independent commands may be reordered.**  Two sequences with the same commands of each part in
the same order come back alike: every part's commands end alike, and every part looks alike at the
end. -/
theorem Runs.reorder {rest : (i : ι) → σ → W i} (hapart : Apart seen rest) {s t : σ}
    {cs cs' : List κ} (hrun : Runs exec s cs t) (hs : I s)
    (hcs : ∀ c ∈ cs, Local I (seen (label c)) (rest (label c)) (exec c))
    (hcs' : ∀ c ∈ cs', Local I (seen (label c)) (rest (label c)) (exec c))
    (hsame : ∀ i, cs'.filter (fun c => label c = i) = cs.filter fun c => label c = i) :
    ∃ t', Runs exec s cs' t' ∧ ∀ i, seen i t' = seen i t ∧
      outcomesOf (fun c => label c = i) exec s cs' = outcomesOf (fun c => label c = i) exec s cs := by
  obtain ⟨t', hrun'⟩ : ∃ t', Runs exec s cs' t' := by
    refine Runs.merge (fun c hc => (hcs' c hc).sees hapart) hs fun i => ?_
    obtain ⟨u, hu, -, -⟩ := hrun.alone (fun c hc => (hcs c hc).sees hapart i) hs hs rfl
    exact ⟨s, u, hs, rfl, hsame i ▸ hu⟩
  refine ⟨t', hrun', fun i => ?_⟩
  obtain ⟨u, hu, ht, hout⟩ := hrun.alone (fun c hc => (hcs c hc).sees hapart i) hs hs rfl
  obtain ⟨u', hu', ht', hout'⟩ := hrun'.alone (fun c hc => (hcs' c hc).sees hapart i) hs hs rfl
  rw [hsame i] at hu' hout'
  rw [ht, ht', hout, hout', hu.unique hu']
  exact ⟨rfl, rfl⟩

end

end Effect
