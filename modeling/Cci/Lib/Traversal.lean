import Mathlib

/-!
# Loops over a sequence in both directions

* `Traverses` — the loop `for (; !done(i); i = step(i)) visit(deref(i))` comes to its end, with the
  elements it visits;
* `FirstFrom`, `LastUpTo` — the next stop in either direction, and that steps between neighbouring
  stops undo each other;
* `filter_drop_eq`, `filter_take_eq` — elements that are no matches can be left out at either end.
-/

namespace Traversal

variable {ι α : Type}

/-! ### Loops -/

/-- The loop from `i` comes to its end and visits these elements; a step or a place without an
element ends it otherwise. -/
inductive Traverses (done : ι → Prop) (deref : ι → Option α) (step : ι → Option ι) :
    ι → List α → Prop where
  | nil {i : ι} : done i → Traverses done deref step i []
  | cons {i j : ι} {x : α} {xs : List α} : ¬done i → deref i = some x → step i = some j →
      Traverses done deref step j xs → Traverses done deref step i (x :: xs)

namespace Traverses

variable {done : ι → Prop} {deref : ι → Option α} {step : ι → Option ι} {i : ι} {xs ys : List α}

theorem unique (h : Traverses done deref step i xs) (h' : Traverses done deref step i ys) :
    xs = ys := by
  induction h generalizing ys with
  | nil hd =>
    cases h' with
    | nil => rfl
    | cons hnd => exact absurd hd hnd
  | cons hnd hx hj _ ih =>
    cases h' with
    | nil hd => exact absurd hd hnd
    | cons _ hx' hj' h' =>
      cases hx.symm.trans hx'
      cases hj.symm.trans hj'
      rw [ih h']

/-- What the steps preserve holds at the end. -/
theorem ends {J : ι → Prop} (hstep : ∀ i j, J i → step i = some j → J j)
    (h : Traverses done deref step i xs) (hi : J i) : ∃ j, J j ∧ done j := by
  induction h with
  | nil hd => exact ⟨_, hi, hd⟩
  | cons _ _ hj _ ih => exact ih (hstep _ _ hi hj)

end Traverses

/-! ### Stops -/

/-- `j` is the first stop from `i` on. -/
def FirstFrom (S : ℕ → Prop) (i j : ℕ) : Prop := i ≤ j ∧ S j ∧ ∀ k, i ≤ k → k < j → ¬S k

/-- `j` is the last stop up to `i`. -/
def LastUpTo (S : ℕ → Prop) (i j : ℕ) : Prop := j ≤ i ∧ S j ∧ ∀ k, j < k → k ≤ i → ¬S k

variable {S : ℕ → Prop} {i j k : ℕ}

theorem FirstFrom.unique (hj : FirstFrom S i j) (hk : FirstFrom S i k) : j = k := by
  obtain ⟨hij, hsj, hnj⟩ := hj
  obtain ⟨hik, hsk, hnk⟩ := hk
  rcases Nat.lt_trichotomy j k with h | h | h
  · exact absurd hsj (hnk j hij h)
  · exact h
  · exact absurd hsk (hnj k hik h)

theorem LastUpTo.unique (hj : LastUpTo S i j) (hk : LastUpTo S i k) : j = k := by
  obtain ⟨hij, hsj, hnj⟩ := hj
  obtain ⟨hik, hsk, hnk⟩ := hk
  rcases Nat.lt_trichotomy j k with h | h | h
  · exact absurd hsk (hnj k h hik)
  · exact h
  · exact absurd hsj (hnk j h hij)

theorem exists_lastUpTo {n : ℕ} (h : ∃ k ≤ n, S k) : ∃ j, LastUpTo S n j := by
  obtain ⟨k, hk, hs⟩ := h
  induction n with
  | zero =>
    obtain rfl : k = 0 := by omega
    exact ⟨0, le_rfl, hs, fun l hl hl0 => by omega⟩
  | succ n ih =>
    by_cases hn : S (n + 1)
    · exact ⟨n + 1, le_rfl, hn, fun l hl hln => by omega⟩
    · have hkn : k ≤ n := by
        rcases Nat.lt_or_eq_of_le hk with hlt | rfl
        · omega
        · exact absurd hs hn
      obtain ⟨j, hj, hsj, hnone⟩ := ih hkn
      refine ⟨j, by omega, hsj, fun l hl hln => ?_⟩
      rcases Nat.lt_or_eq_of_le hln with hlt | rfl
      · exact hnone l hl (by omega)
      · exact hn

/-- Back from the next stop is where one came from. -/
theorem FirstFrom.lastUpTo (hi : S i) (h : FirstFrom S (i + 1) j) : LastUpTo S (j - 1) i := by
  obtain ⟨hij, -, hnone⟩ := h
  exact ⟨by omega, hi, fun k hk hkj => hnone k hk (by omega)⟩

/-- And the other way round. -/
theorem LastUpTo.firstFrom (hj : S j) (hpos : 0 < j) (h : LastUpTo S (j - 1) i) :
    FirstFrom S (i + 1) j := by
  obtain ⟨hij, -, hnone⟩ := h
  exact ⟨by omega, hj, fun k hk hkj => hnone k hk (by omega)⟩

/-! ### Matches in a list -/

/-- The element at `k` is accepted. -/
def Match (p : α → Bool) (xs : List α) (k : ℕ) : Prop := ∃ x, xs[k]? = some x ∧ p x = true

theorem Match.lt {p : α → Bool} {xs : List α} (h : Match p xs k) : k < xs.length := by
  obtain ⟨x, hx, -⟩ := h
  exact (List.getElem?_eq_some_iff.1 hx).1

theorem not_match_of_getElem {p : α → Bool} {xs : List α} {x : α} (hx : xs[k]? = some x)
    (hp : ¬p x = true) : ¬Match p xs k := by
  rintro ⟨y, hy, hpy⟩
  rw [hx] at hy
  cases hy
  exact hp hpy

theorem exists_match_iff {p : α → Bool} {xs : List α} :
    (∃ k, Match p xs k) ↔ ∃ x ∈ xs, p x = true := by
  constructor
  · rintro ⟨k, x, hx, hp⟩
    exact ⟨x, List.mem_of_getElem? hx, hp⟩
  · rintro ⟨x, hx, hp⟩
    obtain ⟨k, hk⟩ := List.mem_iff_getElem?.1 hx
    exact ⟨k, x, hk, hp⟩

/-- The first match is what a search from the front finds. -/
theorem FirstFrom.findIdx_eq {p : α → Bool} {xs : List α} (h : FirstFrom (Match p xs) 0 i) :
    xs.findIdx p = i := by
  have hlt : i < xs.length := h.2.1.lt
  obtain ⟨x, hx, hp⟩ := h.2.1
  rw [List.findIdx_eq hlt]
  refine ⟨?_, fun k hk => ?_⟩
  · rw [List.getElem?_eq_getElem hlt] at hx
    exact Option.some.inj hx ▸ hp
  · by_contra hpk
    rw [Bool.not_eq_false] at hpk
    exact h.2.2 k (Nat.zero_le k) hk ⟨_, List.getElem?_eq_getElem (hk.trans hlt), hpk⟩

theorem exists_firstFrom_match {p : α → Bool} {xs : List α} (h : ¬∀ x ∈ xs, p x = false) :
    ∃ i, FirstFrom (Match p xs) 0 i := by
  push Not at h
  obtain ⟨x, hx, hp⟩ := h
  have hlt : xs.findIdx p < xs.length :=
    List.findIdx_lt_length_of_exists ⟨x, hx, Bool.eq_true_of_not_eq_false hp⟩
  refine ⟨_, Nat.zero_le _, ⟨_, List.getElem?_eq_getElem hlt, List.findIdx_getElem⟩, ?_⟩
  intro k _ hk
  refine not_match_of_getElem (List.getElem?_eq_getElem (hk.trans hlt)) fun hpk => ?_
  rw [List.not_of_lt_findIdx hk] at hpk
  cases hpk

theorem filter_between {p : α → Bool} {xs : List α} (hnone : ∀ k, i ≤ k → k < j → ¬Match p xs k) :
    ((xs.drop i).take (j - i)).filter p = [] := by
  rw [List.filter_eq_nil_iff]
  intro x hx hp
  obtain ⟨n, hn, hget⟩ := List.mem_take_iff_getElem.1 hx
  have hlt : n < j - i := by omega
  refine hnone (i + n) (by omega) (by omega) ⟨x, ?_, hp⟩
  rw [← hget, List.getElem_drop]
  exact List.getElem?_eq_getElem _

theorem filter_drop_eq {p : α → Bool} {xs : List α} (hij : i ≤ j)
    (hnone : ∀ k, i ≤ k → k < j → ¬Match p xs k) :
    (xs.drop i).filter p = (xs.drop j).filter p := by
  have hsplit : xs.drop i = (xs.drop i).take (j - i) ++ xs.drop j := by
    have hdrop : (xs.drop i).drop (j - i) = xs.drop j := by
      rw [List.drop_drop]
      congr 1
      omega
    rw [← hdrop, List.take_append_drop]
  rw [hsplit, List.filter_append, filter_between hnone, List.nil_append]

theorem filter_take_eq {p : α → Bool} {xs : List α} (hij : i ≤ j)
    (hnone : ∀ k, i ≤ k → k < j → ¬Match p xs k) :
    (xs.take j).filter p = (xs.take i).filter p := by
  have hsplit : xs.take j = xs.take i ++ (xs.drop i).take (j - i) := by
    rw [← List.take_add]
    congr 1
    omega
  rw [hsplit, List.filter_append, filter_between hnone, List.append_nil]

/-- A match stands before the matches behind it. -/
theorem filter_drop_match {p : α → Bool} {xs : List α} {x : α} (hx : xs[i]? = some x)
    (hp : p x = true) : (xs.drop i).filter p = x :: (xs.drop (i + 1)).filter p := by
  obtain ⟨hi, hget⟩ := List.getElem?_eq_some_iff.1 hx
  rw [List.drop_eq_getElem_cons hi, hget, List.filter_cons_of_pos hp]

theorem filter_take_match {p : α → Bool} {xs : List α} {x : α} (hx : xs[i]? = some x)
    (hp : p x = true) : (xs.take (i + 1)).filter p = (xs.take i).filter p ++ [x] := by
  rw [List.take_add_one, hx, List.filter_append]
  congr 1
  exact List.filter_cons_of_pos hp

end Traversal
