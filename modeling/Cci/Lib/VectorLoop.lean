import Cci.Lib.Effect

/-!
# Index loops over a vector that their own body changes

`for (i = 0; i < v.size(); ++i) act(v[i])` reads `v` again in every iteration.  Over a vector that
the body leaves alone this is the body run on each entry in turn.  When the body removes entries,
those behind the removed ones move up, under an index that moves on.

* `runEach`, `forEach_eq_runEach` — the loop over a fixed vector;
* `comesUp`, `forEach_congr`, `forEach_stops` — the entries whose turn comes, and loops with another
  body for some of them;
* `removeEach` — removals of first matches, one after the other;
* `Turn`, `Turns`, `turns` — ghost: the iterations of such a loop, each entry with the position it
  had at the start;
* `NoneSkipped`, `noneSkipped_iff` — no entry is stepped over or left out exactly when every
  iteration behind which an entry remains comes back and removes neither its own entry nor an earlier
  one.
-/

namespace VectorLoop

open Effect

variable {ε σ α β κ : Type}

/-- `act` on the entries of a list, one after the other. -/
def runEach (act : β → α → Eff ε σ α) : List β → α → Eff ε σ α
  | [], acc => pure acc
  | b :: bs, acc => act b acc >>= runEach act bs

/-! ### A fixed vector -/

section

variable {elem : σ → ℕ → Option β} {act : β → α → Eff ε σ α}

/-- Over a vector that is `ℓ` in every state of the loop, the loop is `act` on each entry. -/
theorem forEach_eq_runEach {J : σ → Prop} {ℓ : List β} (helem : ∀ s, J s → ∀ i, elem s i = ℓ[i]?)
    (hact : ∀ b ∈ ℓ, ∀ acc s acc' t, J s → act b acc s = (.ok acc', t) → J t) (fuel i : ℕ)
    (acc : α) (s : σ) (hs : J s) (hfuel : ℓ.length ≤ i + fuel) :
    Eff.forEach elem act fuel i acc s = runEach act (ℓ.drop i) acc s := by
  induction fuel generalizing i acc s with
  | zero =>
    have hnone : elem s i = none := by
      rw [helem s hs]
      exact List.getElem?_eq_none hfuel
    rw [Eff.forEach_done elem hnone, List.drop_eq_nil_of_le (by omega)]
    rfl
  | succ fuel ih =>
    by_cases hi : i < ℓ.length
    · have hsome : elem s i = some ℓ[i] := by
        rw [helem s hs]
        exact List.getElem?_eq_getElem hi
      rw [List.drop_eq_getElem_cons hi]
      simp only [Eff.forEach, hsome, runEach]
      rw [Eff.bind_run, Eff.bind_run]
      rcases hr : act ℓ[i] acc s with ⟨acc' | e | _ | _, t⟩
      · exact ih (i + 1) acc' t (hact _ (List.getElem_mem hi) _ _ _ _ hs hr) (by omega)
      · rfl
      · rfl
      · rfl
    · have hnone : elem s i = none := by
        rw [helem s hs]
        exact List.getElem?_eq_none (by omega)
      rw [Eff.forEach_done elem hnone, List.drop_eq_nil_of_le (by omega)]
      rfl

end

/-! ### The entries whose turn comes -/

section

variable {elem : σ → ℕ → Option β} {act act' : β → α → Eff ε σ α}

/-- The entries on which the body is run, in their order. -/
def comesUp (elem : σ → ℕ → Option β) (act : β → α → Eff ε σ α) : ℕ → ℕ → α → σ → List β
  | 0, _, _, _ => []
  | fuel + 1, i, acc, s =>
      match elem s i with
      | none => []
      | some b =>
          b :: match act b acc s with
            | (.ok acc', t) => comesUp elem act fuel (i + 1) acc' t
            | _ => []

/-- Bodies that agree on every entry whose turn comes make the same loop. -/
theorem forEach_congr (fuel i : ℕ) (acc : α) (s : σ)
    (h : ∀ b ∈ comesUp elem act fuel i acc s, act' b = act b) :
    Eff.forEach elem act' fuel i acc s = Eff.forEach elem act fuel i acc s := by
  induction fuel generalizing i acc s with
  | zero => rfl
  | succ fuel ih =>
    simp only [Eff.forEach, comesUp] at h ⊢
    cases hi : elem s i with
    | none => rfl
    | some b =>
      simp only [hi, List.forall_mem_cons] at h ⊢
      rw [Eff.bind_run, Eff.bind_run, h.1]
      rcases hr : act b acc s with ⟨acc' | e | _ | _, t⟩
      · rw [hr] at h
        exact ih (i + 1) acc' t h.2
      · rfl
      · rfl
      · rfl

/-- A body that stops at the bad entries stops the loop when the turn of one of them comes. -/
theorem forEach_stops {bad : β → Prop} {out : Outcome ε α} (hgood : ∀ b, ¬bad b → act' b = act b)
    (hbad : ∀ b acc s, bad b → (act' b acc s).1 = out) (hout : ∀ a, out ≠ .ok a)
    (fuel i : ℕ) (acc : α) (s : σ) (h : ∃ b ∈ comesUp elem act fuel i acc s, bad b) :
    (Eff.forEach elem act' fuel i acc s).1 = out := by
  induction fuel generalizing i acc s with
  | zero =>
    obtain ⟨b, hb, -⟩ := h
    cases hb
  | succ fuel ih =>
    simp only [Eff.forEach, comesUp] at h ⊢
    cases hi : elem s i with
    | none =>
      simp only [hi] at h
      obtain ⟨b, hb, -⟩ := h
      cases hb
    | some b =>
      simp only [hi, List.mem_cons, exists_eq_or_imp] at h ⊢
      rw [Eff.bind_run]
      by_cases hb : bad b
      · have hstop := hbad b acc s hb
        rcases hr : act' b acc s with ⟨acc' | e | _ | _, t⟩ <;> rw [hr] at hstop
        · exact absurd hstop.symm (hout acc')
        · exact hstop
        · exact hstop
        · exact hstop
      · have hlater := h.resolve_left hb
        rw [hgood b hb]
        rcases hr : act b acc s with ⟨acc' | e | _ | _, t⟩ <;> rw [hr] at hlater
        · exact ih (i + 1) acc' t hlater
        · obtain ⟨b', hb', -⟩ := hlater
          cases hb'
        · obtain ⟨b', hb', -⟩ := hlater
          cases hb'
        · obtain ⟨b', hb', -⟩ := hlater
          cases hb'

/-- Over a vector that the body leaves alone, only entries of the vector come up. -/
theorem mem_of_comesUp {ℓ : List β} {J : σ → Prop} (helem : ∀ s, J s → ∀ i, elem s i = ℓ[i]?)
    (hact : ∀ b acc s acc' t, J s → act b acc s = (.ok acc', t) → J t) (fuel i : ℕ) (acc : α) {s : σ}
    (hs : J s) {b : β} (hb : b ∈ comesUp elem act fuel i acc s) : b ∈ ℓ := by
  induction fuel generalizing i acc s with
  | zero => cases hb
  | succ fuel ih =>
    simp only [comesUp, helem s hs] at hb
    cases hi : ℓ[i]? with
    | none =>
      simp only [hi] at hb
      cases hb
    | some b' =>
      simp only [hi, List.mem_cons] at hb
      rcases hb with rfl | hb
      · exact List.mem_of_getElem? hi
      · rcases hr : act b' acc s with ⟨acc' | e | _ | _, t⟩ <;> rw [hr] at hb
        · exact ih (i + 1) acc' (hact b' acc s acc' t hs hr) hb
        · cases hb
        · cases hb
        · cases hb

end

/-! ### Removals -/

/-- The entries left when every call in turn removes the first entry it hits. -/
def removeEach (hits : κ → β → Bool) (calls : List κ) (l : List β) : List β :=
  calls.foldl (fun l c => l.eraseP (hits c)) l

theorem removeEach_sublist (hits : κ → β → Bool) (calls : List κ) (l : List β) :
    (removeEach hits calls l).Sublist l := by
  induction calls generalizing l with
  | nil => exact List.Sublist.refl l
  | cons c calls ih => exact (ih _).trans List.eraseP_sublist

/-- What is hit depends on a projection of the entries only. -/
theorem removeEach_map {γ : Type} (hits : κ → β → Bool) (f : γ → β) (calls : List κ) (l : List γ) :
    (removeEach (fun c x => hits c (f x)) calls l).map f = removeEach hits calls (l.map f) := by
  induction calls generalizing l with
  | nil => rfl
  | cons c calls ih =>
    have hhead : (l.map f).eraseP (hits c) = (l.eraseP fun x => hits c (f x)).map f :=
      List.eraseP_map
    show (removeEach _ calls (l.eraseP fun x => hits c (f x))).map f =
      removeEach hits calls ((l.map f).eraseP (hits c))
    rw [ih, hhead]

/-! ### Turns -/

/-- An iteration: the entry whose turn it is, the entries before and after it, each with the position
it had when the loop started, and whether the body came back. -/
structure Turn (β : Type) where
  entry : β × ℕ
  before : List (β × ℕ)
  after : List (β × ℕ)
  cameBack : Bool
deriving DecidableEq

/-- The body comes back and no entry up to the one whose turn it is goes, or no later one stays. -/
def Turn.Harmless (t : Turn β) : Prop :=
  (t.cameBack = true ∧ ∀ x ∈ t.before, x.2 ≤ t.entry.2 → x ∈ t.after) ∨
    ∀ x ∈ t.after, x.2 ≤ t.entry.2

/-- The entry has its turn, or it is removed in the turn of an earlier one. -/
def Reached (ts : List (Turn β)) (x : β × ℕ) : Prop :=
  x ∈ ts.map Turn.entry ∨ ∃ t ∈ ts, t.entry.2 < x.2 ∧ x ∈ t.before ∧ x ∉ t.after

/-- Every entry that is still there when its turn comes has exactly one turn, in the order of the
positions. -/
structure NoneSkipped (start : List (β × ℕ)) (ts : List (Turn β)) : Prop where
  ordered : (ts.map fun t => t.entry.2).Pairwise (· < ·)
  reached : ∀ x ∈ start, Reached ts x

/-- The turns of a loop at index `i` over the entries `l`, which only loses entries. -/
inductive Turns : ℕ → List (β × ℕ) → List (Turn β) → Prop where
  | done {i : ℕ} {l : List (β × ℕ)} : l.length ≤ i → Turns i l []
  | turn {i : ℕ} {l l' : List (β × ℕ)} {ts : List (Turn β)} (hi : i < l.length) :
      l'.Sublist l → Turns (i + 1) l' ts → Turns i l (⟨l[i], l, l', true⟩ :: ts)
  | last {i : ℕ} {l l' : List (β × ℕ)} (hi : i < l.length) :
      l'.Sublist l → Turns i l [⟨l[i], l, l', false⟩]

/-- The positions increase. -/
abbrev Ascending (l : List (β × ℕ)) : Prop := l.Pairwise fun x y => x.2 < y.2

theorem reached_cons {t : Turn β} {ts : List (Turn β)} {x : β × ℕ} :
    Reached (t :: ts) x ↔
      x = t.entry ∨ (t.entry.2 < x.2 ∧ x ∈ t.before ∧ x ∉ t.after) ∨ Reached ts x := by
  simp only [Reached, List.map_cons, List.mem_cons, exists_eq_or_imp]
  constructor
  · rintro ((h | h) | h | h)
    · exact .inl h
    · exact .inr (.inr (.inl h))
    · exact .inr (.inl h)
    · exact .inr (.inr (.inr h))
  · rintro (h | h | h | h)
    · exact .inl (.inl h)
    · exact .inr (.inl h)
    · exact .inl (.inr h)
    · exact .inr (.inr h)

/-- Only entries from the index on have a turn. -/
theorem Turns.entry_mem {i : ℕ} {l : List (β × ℕ)} {ts : List (Turn β)} (h : Turns i l ts) :
    ∀ t ∈ ts, t.entry ∈ l.drop i := by
  induction h with
  | done h => intro t ht; cases ht
  | @turn i l l' ts hi hsub _ ih =>
    intro t ht
    rcases List.mem_cons.1 ht with rfl | ht
    · rw [List.drop_eq_getElem_cons hi]
      exact List.mem_cons_self
    · have hdrop : (l'.drop (i + 1)).Sublist (l.drop (i + 1)) := hsub.drop (i + 1)
      have hmem := hdrop.subset (ih t ht)
      rw [List.drop_eq_getElem_cons hi]
      exact List.mem_cons_of_mem _ hmem
  | @last i l l' hi _ =>
    intro t ht
    obtain rfl := List.mem_singleton.1 ht
    rw [List.drop_eq_getElem_cons hi]
    exact List.mem_cons_self

theorem Ascending.sublist {l l' : List (β × ℕ)} (h : Ascending l) (hsub : l'.Sublist l) :
    Ascending l' := List.Pairwise.sublist hsub h

theorem Ascending.nodup {l : List (β × ℕ)} (h : Ascending l) : l.Nodup :=
  List.Pairwise.imp (fun hlt heq => absurd (heq ▸ hlt) (Nat.lt_irrefl _)) h

theorem ascending_zipIdx (l : List β) : Ascending l.zipIdx := by
  rw [Ascending, List.pairwise_iff_getElem]
  intro i j hi hj hij
  simp only [List.getElem_zipIdx]
  omega

/-- Up to an index the positions are at most that of its entry. -/
theorem Ascending.le_of_mem_take {l : List (β × ℕ)} (h : Ascending l) {i : ℕ} (hi : i < l.length)
    {y : β × ℕ} (hy : y ∈ l.take (i + 1)) : y.2 ≤ l[i].2 := by
  obtain ⟨j, hj, rfl⟩ := List.mem_take_iff_getElem.1 hy
  have hji : j ≤ i := by omega
  rcases Nat.lt_or_eq_of_le hji with hlt | rfl
  · exact Nat.le_of_lt (List.pairwise_iff_getElem.1 h j i (by omega) hi hlt)
  · exact Nat.le_refl _

/-- Past an index they are greater. -/
theorem Ascending.lt_of_mem_drop {l : List (β × ℕ)} (h : Ascending l) {i : ℕ} (hi : i < l.length)
    {y : β × ℕ} (hy : y ∈ l.drop (i + 1)) : l[i].2 < y.2 := by
  have hsplit : Ascending (l[i] :: l.drop (i + 1)) := by
    rw [← List.drop_eq_getElem_cons hi]
    exact h.sublist (List.drop_sublist i l)
  exact List.rel_of_pairwise_cons hsplit hy

/-- The positions of the entries with a turn increase. -/
theorem Turns.ordered {i : ℕ} {l : List (β × ℕ)} {ts : List (Turn β)} (h : Turns i l ts)
    (hl : Ascending l) : (ts.map fun t => t.entry.2).Pairwise (· < ·) := by
  induction h with
  | done h => exact List.Pairwise.nil
  | @turn i l l' ts hi hsub hts ih =>
    rw [List.map_cons, List.pairwise_cons]
    refine ⟨fun n hn => ?_, ih (hl.sublist hsub)⟩
    obtain ⟨t, ht, rfl⟩ := List.mem_map.1 hn
    exact hl.lt_of_mem_drop hi ((hsub.drop (i + 1)).subset (hts.entry_mem t ht))
  | last hi _ => exact List.pairwise_singleton _ _

/-- A turn that leaves `A'` of the entries up to the index and `P'` of those after it. -/
theorem harmless_iff {l A' P' : List (β × ℕ)} (hl : Ascending l) {i : ℕ} (hi : i < l.length)
    (hA : A'.Sublist (l.take (i + 1))) (hP : P'.Sublist (l.drop (i + 1))) (cameBack : Bool) :
    (⟨l[i], l, A' ++ P', cameBack⟩ : Turn β).Harmless ↔
      (cameBack = true ∧ A' = l.take (i + 1)) ∨ P' = [] := by
  constructor
  · rintro (⟨hback, h⟩ | h)
    · -- Everything up to the index is still there, hence among `A'`.
      have hsub : l.take (i + 1) ⊆ A' := by
        intro y hy
        have hle := hl.le_of_mem_take hi hy
        rcases List.mem_append.1 (h y (List.mem_of_mem_take hy) hle) with hy' | hy'
        · exact hy'
        · exact absurd (hl.lt_of_mem_drop hi (hP.subset hy')) (by omega)
      have hnodup : (l.take (i + 1)).Nodup := (hl.sublist (List.take_sublist _ l)).nodup
      exact .inl ⟨hback, hA.eq_of_length_le (hnodup.subperm hsub).length_le⟩
    · refine .inr (List.eq_nil_iff_forall_not_mem.2 fun y hy => ?_)
      have hlt := hl.lt_of_mem_drop hi (hP.subset hy)
      exact absurd (h y (List.mem_append_right _ hy)) (by show ¬y.2 ≤ l[i].2; omega)
  · rintro (⟨hback, rfl⟩ | rfl)
    · refine .inl ⟨hback, fun y hy hle => ?_⟩
      have hy : y ∈ l.take (i + 1) ++ l.drop (i + 1) := by
        rw [List.take_append_drop]
        exact hy
      rcases List.mem_append.1 hy with hy' | hy'
      · exact List.mem_append_left _ hy'
      · exact absurd (hl.lt_of_mem_drop hi hy') (by show ¬l[i].2 < y.2; exact Nat.not_lt.2 hle)
    · refine .inr fun y hy => ?_
      rw [List.append_nil] at hy
      exact hl.le_of_mem_take hi (hA.subset hy)

/-- Among the entries from the index on all are reached exactly when every turn is harmless. -/
theorem Turns.reached_iff {i : ℕ} {l : List (β × ℕ)} {ts : List (Turn β)} (h : Turns i l ts)
    (hl : Ascending l) : (∀ x ∈ l.drop i, Reached ts x) ↔ ∀ t ∈ ts, t.Harmless := by
  induction h with
  | done h => simp [List.drop_eq_nil_of_le h]
  | @turn i l l' ts hi hsub hts ih =>
    have ih := ih (hl.sublist hsub)
    -- What the turn leaves of the entries up to the index and of those after it.
    obtain ⟨A', P', rfl, hA, hP⟩ : ∃ A' P', l' = A' ++ P' ∧ A'.Sublist (l.take (i + 1)) ∧
        P'.Sublist (l.drop (i + 1)) :=
      List.sublist_append_iff.1 (by rw [List.take_append_drop]; exact hsub)
    have htake : (l.take (i + 1)).length = i + 1 := by
      rw [List.length_take]
      omega
    have hA'len : A'.length ≤ i + 1 := htake ▸ hA.length_le
    have hlater : ∀ y ∈ P', l[i].2 < y.2 := fun y hy => hl.lt_of_mem_drop hi (hP.subset hy)
    have hgone : ∀ y ∈ l.drop (i + 1), y ∉ P' → y ∉ A' ++ P' := by
      intro y hy hy' hmem
      rcases List.mem_append.1 hmem with h | h
      · have hle := hl.le_of_mem_take hi (hA.subset h)
        have hlt := hl.lt_of_mem_drop hi hy
        omega
      · exact hy' h
    rw [List.drop_eq_getElem_cons hi, List.forall_mem_cons, List.forall_mem_cons,
      harmless_iff hl hi hA hP]
    simp only [reached_cons, true_or, true_and]
    by_cases hA' : A' = l.take (i + 1)
    · -- The next entry left is the next in turn.
      have hnext : (A' ++ P').drop (i + 1) = P' := by
        rw [← htake, ← hA', List.drop_left]
      rw [hnext] at ih
      rw [← ih]
      constructor
      · intro hall
        refine ⟨.inl hA', fun y hy => ?_⟩
        rcases hall y (hP.subset hy) with rfl | ⟨-, -, hy'⟩ | hy'
        · exact absurd (hlater _ hy) (Nat.lt_irrefl _)
        · exact absurd (List.mem_append_right _ hy) hy'
        · exact hy'
      · rintro ⟨-, hall⟩ y hy
        by_cases hy' : y ∈ P'
        · exact .inr (.inr (hall y hy'))
        · exact .inr (.inl ⟨hl.lt_of_mem_drop hi hy, List.mem_of_mem_drop hy, hgone y hy hy'⟩)
    · cases P' with
      | nil =>
        -- Nothing is left to have a turn.
        have hnext : (A' ++ []).drop (i + 1) = [] :=
          List.drop_eq_nil_of_le (by rw [List.append_nil]; exact hA'len)
        rw [hnext] at ih
        refine ⟨fun _ => ⟨.inr rfl, ih.1 (by simp)⟩, fun _ y hy => ?_⟩
        exact .inr (.inl ⟨hl.lt_of_mem_drop hi hy, List.mem_of_mem_drop hy,
          hgone y hy (List.not_mem_nil)⟩)
      | cons y P' =>
        -- The first entry left after the index has moved below the next one.
        have hlt : A'.length < i + 1 := by
          refine Nat.lt_of_le_of_ne hA'len fun heq => hA' (hA.eq_of_length ?_)
          rw [heq, htake]
        have hbehind : ∀ t ∈ ts, y.2 < t.entry.2 := by
          intro t ht
          have hmem := hts.entry_mem t ht
          have hdrop : (A' ++ y :: P').drop (i + 1) = P'.drop (i - A'.length) := by
            obtain ⟨j, hj⟩ : ∃ j, i + 1 = A'.length + (j + 1) := ⟨i - A'.length, by omega⟩
            have hj' : i - A'.length = j := by omega
            rw [hj, hj', List.drop_length_add_append]
            rfl
          rw [hdrop] at hmem
          exact List.rel_of_pairwise_cons ((hl.sublist hsub).sublist
            (List.sublist_append_right _ _)) (List.mem_of_mem_drop hmem)
        refine iff_of_false (fun hall => ?_) fun hall => ?_
        · have hy : y ∈ l.drop (i + 1) := hP.subset List.mem_cons_self
          rcases hall y hy with rfl | ⟨-, -, hy'⟩ | hy' | ⟨t, ht, hlt', -⟩
          · exact absurd (hlater _ List.mem_cons_self) (Nat.lt_irrefl _)
          · exact hy' (List.mem_append_right _ List.mem_cons_self)
          · obtain ⟨t, ht, rfl⟩ := List.mem_map.1 hy'
            exact absurd (hbehind t ht) (Nat.lt_irrefl _)
          · exact absurd (hbehind t ht) (by omega)
        · rcases hall.1 with h | h
          · exact hA' h
          · cases h
  | @last i l l' hi hsub =>
    obtain ⟨A', P', rfl, hA, hP⟩ : ∃ A' P', l' = A' ++ P' ∧ A'.Sublist (l.take (i + 1)) ∧
        P'.Sublist (l.drop (i + 1)) :=
      List.sublist_append_iff.1 (by rw [List.take_append_drop]; exact hsub)
    rw [List.drop_eq_getElem_cons hi, List.forall_mem_cons, List.forall_mem_singleton,
      harmless_iff hl hi hA hP]
    simp only [reached_cons, true_or, true_and, Bool.false_eq_true, false_and, false_or]
    constructor
    · -- An entry that is left behind the index is not reached.
      refine fun hall => List.eq_nil_iff_forall_not_mem.2 fun y hy => ?_
      rcases hall y (hP.subset hy) with rfl | ⟨-, -, hgone⟩ | hnever
      · exact absurd (hl.lt_of_mem_drop hi (hP.subset hy)) (Nat.lt_irrefl _)
      · exact hgone (List.mem_append_right _ hy)
      · rcases hnever with hmem | ⟨t, ht, -⟩
        · cases hmem
        · cases ht
    · rintro rfl y hy
      have hlt := hl.lt_of_mem_drop hi hy
      refine .inr (.inl ⟨hlt, List.mem_of_mem_drop hy, fun hmem => ?_⟩)
      rw [List.append_nil] at hmem
      exact absurd (hl.le_of_mem_take hi (hA.subset hmem)) (by omega)

/-! ### The turns of a loop -/

section

variable (hits : κ → β → Bool) (act : β → α → Eff ε σ α) (calls : β → α → σ → List κ)

/-- The turns of the loop at index `i` over the entries `l`, when the turn of an entry makes the
removals `calls`. -/
def turns : ℕ → ℕ → List (β × ℕ) → α → σ → List (Turn β)
  | 0, _, _, _, _ => []
  | fuel + 1, i, l, acc, s =>
      match l[i]? with
      | none => []
      | some x =>
          let l' := removeEach (fun c (y : β × ℕ) => hits c y.1) (calls x.1 acc s) l
          match act x.1 acc s with
          | (.ok acc', t) => ⟨x, l, l', true⟩ :: turns fuel (i + 1) l' acc' t
          | _ => [⟨x, l, l', false⟩]

/-- What a turn does to the vector, however it ends, is the removals of `calls`. -/
def RemovesOnly (vec : σ → List β) : Prop :=
  ∀ b acc s, vec (act b acc s).2 = removeEach hits (calls b acc s) (vec s)

variable {hits act calls} {vec : σ → List β} {elem : σ → ℕ → Option β}

/-- The loop runs the body on the entries of its turns, and comes back when each of them does. -/
theorem forEach_turns (hcalls : RemovesOnly hits act calls vec)
    (helem : ∀ s i, elem s i = (vec s)[i]?) (fuel i : ℕ) (l : List (β × ℕ)) (acc : α) (s : σ)
    (hl : vec s = l.map Prod.fst) (hfuel : l.length ≤ i + fuel) :
    Turns i l (turns hits act calls fuel i l acc s) ∧
      Eff.forEach elem act fuel i acc s =
        runEach act ((turns hits act calls fuel i l acc s).map fun x => x.entry.1) acc s ∧
      ((∃ acc' t, Eff.forEach elem act fuel i acc s = (.ok acc', t)) ↔
        ∀ x ∈ turns hits act calls fuel i l acc s, x.cameBack = true) := by
  have hget : ∀ j, elem s j = l[j]?.map Prod.fst := fun j => by
    rw [helem, hl, List.getElem?_map]
  have hover : ∀ fuel, l[i]? = none → Eff.forEach elem act fuel i acc s = (.ok acc, s) :=
    fun fuel hi => Eff.forEach_done elem (by rw [hget, hi]; rfl) act fuel acc
  induction fuel generalizing i l acc s with
  | zero =>
    have hi : l[i]? = none := List.getElem?_eq_none hfuel
    refine ⟨.done hfuel, hover 0 hi, iff_of_true ⟨acc, s, hover 0 hi⟩ fun x hx => ?_⟩
    cases hx
  | succ fuel ih =>
    cases hi : l[i]? with
    | none =>
      simp only [turns, hi]
      refine ⟨.done (List.getElem?_eq_none_iff.1 hi), hover _ hi,
        iff_of_true ⟨acc, s, hover _ hi⟩ fun x hx => ?_⟩
      cases hx
    | some x =>
      have hsome : elem s i = some x.1 := by rw [hget, hi]; rfl
      obtain ⟨hi', rfl⟩ := List.getElem?_eq_some_iff.1 hi
      simp only [Eff.forEach, hsome, turns, hi]
      rw [Eff.bind_run]
      rcases hr : act l[i].1 acc s with ⟨acc₁ | e | _ | _, u⟩
      · have hu : vec u = (removeEach (fun c (y : β × ℕ) => hits c y.1) (calls l[i].1 acc s) l).map
            Prod.fst := by
          have hleft := hcalls l[i].1 acc s
          rw [hr] at hleft
          rw [removeEach_map, ← hl]
          exact hleft
        have hsub := removeEach_sublist (fun c (y : β × ℕ) => hits c y.1) (calls l[i].1 acc s) l
        have hlen := hsub.length_le
        have hget' : ∀ j, elem u j =
            (removeEach (fun c (y : β × ℕ) => hits c y.1) (calls l[i].1 acc s) l)[j]?.map
              Prod.fst := fun j => by
          rw [helem, hu, List.getElem?_map]
        obtain ⟨hts, hrun, hback⟩ := ih (i + 1) _ acc₁ u hu (by omega) hget'
          fun fuel hnone => Eff.forEach_done elem (by rw [hget', hnone]; rfl) act fuel acc₁
        refine ⟨.turn hi' hsub hts, ?_, ?_⟩
        · rw [List.map_cons, runEach, Eff.bind_run, hr]
          exact hrun
        · rw [List.forall_mem_cons, ← hback]
          exact (and_iff_right rfl).symm
      all_goals
        refine ⟨.last hi' (removeEach_sublist _ _ l), ?_, iff_of_false ?_ ?_⟩
        · rw [List.map_singleton, runEach, Eff.bind_run, hr]
        · rintro ⟨acc', t, h⟩
          cases h
        · rw [List.forall_mem_singleton]
          exact Bool.false_ne_true

/-- The loop invokes the body on the entries of its turns, comes back when each of them does, and
leaves no entry out exactly when every turn is harmless. -/
theorem noneSkipped_iff (hcalls : RemovesOnly hits act calls vec)
    (helem : ∀ s i, elem s i = (vec s)[i]?) {fuel : ℕ} (acc : α) {s : σ}
    (hfuel : (vec s).length ≤ fuel) :
    let ts := turns hits act calls fuel 0 (vec s).zipIdx acc s
    Eff.forEach elem act fuel 0 acc s = runEach act (ts.map fun x => x.entry.1) acc s ∧
      ((∃ acc' t, Eff.forEach elem act fuel 0 acc s = (.ok acc', t)) ↔ ∀ x ∈ ts, x.cameBack = true) ∧
      (NoneSkipped (vec s).zipIdx ts ↔ ∀ x ∈ ts, x.Harmless) := by
  obtain ⟨hts, hrun, hback⟩ := forEach_turns hcalls helem fuel 0 (vec s).zipIdx acc s
    (List.zipIdx_map_fst 0 (vec s)).symm (by rw [List.length_zipIdx]; omega)
  have hasc := ascending_zipIdx (vec s)
  refine ⟨hrun, hback, fun hns => ?_, fun hall => ⟨hts.ordered hasc, ?_⟩⟩
  · exact (hts.reached_iff hasc).1 hns.reached
  · exact (hts.reached_iff hasc).2 hall

end

end VectorLoop
