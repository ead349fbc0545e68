import Mathlib

/-!
# Erasing from a vector while iterating over it

`for (it = v.begin(); it < v.end(); it++) if (p(*it)) v.erase(it);`  After the erasure the iterator
already stands on the next entry, which the increment then steps over.

* `eraseLoop` — the loop: whether it erased anything, and the entries left;
* `eraseLoop_others` — it erases matching entries only;
* `eraseLoop_clears_iff` — it erases all of them exactly when no two of them are neighbours;
* `eraseIdx_findIdx`, `countP_eraseP`, `filter_eraseP` — a loop that searches again after each erasure.
-/

namespace EraseLoop

variable {α : Type} {p : α → Bool}

/-- The loop over a vector, with whether anything was erased. -/
def eraseLoop (p : α → Bool) : List α → Bool × List α
  | [] => (false, [])
  | a :: l =>
      if p a then
        match l with
        | [] => (true, [])
        | next :: rest => (true, next :: (eraseLoop p rest).2)
      else ((eraseLoop p l).1, a :: (eraseLoop p l).2)

theorem eraseLoop_of_not {a : α} (h : p a = false) (l : List α) :
    eraseLoop p (a :: l) = ((eraseLoop p l).1, a :: (eraseLoop p l).2) := by
  rw [eraseLoop.eq_def]
  simp [h]

theorem eraseLoop_singleton {a : α} (h : p a = true) : eraseLoop p [a] = (true, []) := by
  rw [eraseLoop.eq_def]
  simp [h]

/-- Past an erased entry the next one is kept, whatever it is. -/
theorem eraseLoop_of_match {a : α} (h : p a = true) (next : α) (rest : List α) :
    eraseLoop p (a :: next :: rest) = (true, next :: (eraseLoop p rest).2) := by
  rw [eraseLoop.eq_def]
  simp [h]

/-- Every entry that does not match is kept, in its place among the others. -/
theorem eraseLoop_others (l : List α) :
    (eraseLoop p l).2.filter (fun a => !p a) = l.filter fun a => !p a := by
  induction l using List.twoStepInduction with
  | nil => rfl
  | singleton a =>
    cases h : p a with
    | false => rw [eraseLoop_of_not h]; rfl
    | true => rw [eraseLoop_singleton h]; simp [h]
  | cons_cons a b l ih ihb =>
    cases h : p a with
    | false =>
      rw [eraseLoop_of_not h]
      simp only [List.filter_cons, h, Bool.not_false, if_true]
      rw [ihb b]
      simp only [List.filter_cons]
    | true =>
      rw [eraseLoop_of_match h]
      simp only [List.filter_cons, h, Bool.not_true, Bool.false_eq_true, if_false]
      rw [ih]

/-- It tells whether it erased an entry. -/
theorem eraseLoop_fst_iff (l : List α) :
    (eraseLoop p l).1 = true ↔ (eraseLoop p l).2.length < l.length := by
  have hle : ∀ l : List α, (eraseLoop p l).2.length ≤ l.length := by
    intro l
    induction l using List.twoStepInduction with
    | nil => exact Nat.le_refl 0
    | singleton a =>
      cases h : p a with
      | false => rw [eraseLoop_of_not h]; exact Nat.le_refl 1
      | true => rw [eraseLoop_singleton h]; exact Nat.zero_le 1
    | cons_cons a b l ih ihb =>
      cases h : p a with
      | false =>
        rw [eraseLoop_of_not h]
        have := ihb b
        simp only [List.length_cons] at this ⊢
        omega
      | true =>
        rw [eraseLoop_of_match h]
        simp only [List.length_cons]
        omega
  induction l with
  | nil => simp [eraseLoop]
  | cons a l ih =>
    cases h : p a with
    | false =>
      rw [eraseLoop_of_not h]
      simp only [List.length_cons, Nat.add_lt_add_iff_right]
      exact ih
    | true =>
      cases l with
      | nil => simp [eraseLoop_singleton h]
      | cons b l =>
        rw [eraseLoop_of_match h]
        have := hle l
        simp only [List.length_cons, true_iff]
        omega

/-- All matching entries go if and only if no two of them are neighbours: of two the second is
stepped over. -/
theorem eraseLoop_clears_iff (l : List α) :
    (∀ a ∈ (eraseLoop p l).2, p a = false) ↔ l.IsChain fun a b => ¬(p a = true ∧ p b = true) := by
  induction l using List.twoStepInduction with
  | nil => simp [eraseLoop]
  | singleton a =>
    cases h : p a with
    | false => simp [eraseLoop, h]
    | true => simp [eraseLoop_singleton h]
  | cons_cons a b l ih ihb =>
    cases h : p a with
    | false =>
      rw [eraseLoop_of_not h, List.isChain_cons_cons]
      simp only [List.forall_mem_cons, h, true_and, Bool.false_eq_true, false_and, not_false_eq_true]
      exact ihb b
    | true =>
      rw [eraseLoop_of_match h, List.isChain_cons_cons]
      simp only [List.forall_mem_cons, h, true_and, Bool.not_eq_true]
      cases hb : p b with
      | true => simp
      | false =>
        -- The entry stepped over does not match, so the loop over what follows it decides.
        have hchain : (b :: l).IsChain (fun a b => ¬(p a = true ∧ p b = true)) ↔
            l.IsChain fun a b => ¬(p a = true ∧ p b = true) := by
          cases l with
          | nil => simp
          | cons c l => simp [List.isChain_cons_cons, hb]
        rw [hchain, ih]

/-! ### Searching again after each erasure -/

/-- To erase what the search finds is to erase the first match. -/
theorem eraseIdx_findIdx (l : List α) : l.eraseIdx (l.findIdx p) = l.eraseP p := by
  induction l with
  | nil => rfl
  | cons a l ih =>
    cases h : p a with
    | true => rw [List.findIdx_cons, h, List.eraseP_cons_of_pos h]; rfl
    | false =>
      rw [List.findIdx_cons, h, List.eraseP_cons_of_neg (by rw [h]; exact Bool.false_ne_true), ← ih]
      rfl

/-- Only the entries of the list are tested. -/
theorem eraseP_congr {q : α → Bool} {l : List α} (h : ∀ a ∈ l, p a = q a) :
    l.eraseP p = l.eraseP q := by
  rw [← eraseIdx_findIdx, ← eraseIdx_findIdx]
  congr 1
  induction l with
  | nil => rfl
  | cons a l ih =>
    rw [List.findIdx_cons, List.findIdx_cons, h a List.mem_cons_self,
      ih fun b hb => h b (List.mem_cons_of_mem a hb)]

/-- What is found is what goes. -/
theorem perm_eraseP {l : List α} {a : α} (ha : l.find? p = some a) :
    l.Perm (a :: l.eraseP p) := by
  obtain ⟨hpa, front, back, rfl, hfront⟩ := List.find?_eq_some_iff_append.1 ha
  rw [List.eraseP_append_right _ fun b hb hpb => by simpa [hpb] using hfront b hb,
    List.eraseP_cons_of_pos hpa]
  exact List.perm_middle

/-- There is one match less. -/
theorem countP_eraseP {l : List α} {a : α} (hmem : a ∈ l) (ha : p a = true) :
    (l.eraseP p).countP p + 1 = l.countP p := by
  obtain ⟨b, front, back, -, hb, rfl, herase⟩ := List.exists_of_eraseP hmem ha
  rw [herase, List.countP_append, List.countP_append, List.countP_cons_of_pos hb]
  omega

/-- Entries that are no matches are counted as before. -/
theorem countP_eraseP_of_disjoint {q : α → Bool} {l : List α}
    (h : ∀ a ∈ l, p a = true → q a = false) : (l.eraseP p).countP q = l.countP q := by
  by_cases hmem : ∃ a ∈ l, p a = true
  · obtain ⟨a, hmem, ha⟩ := hmem
    obtain ⟨b, front, back, -, hb, rfl, herase⟩ := List.exists_of_eraseP hmem ha
    have hq : q b = false := h b (List.mem_append_right _ List.mem_cons_self) hb
    rw [herase, List.countP_append, List.countP_append, List.countP_cons_of_neg (by simp [hq])]
  · rw [List.eraseP_of_forall_not fun a ha hpa => hmem ⟨a, ha, hpa⟩]

/-- The others stay. -/
theorem filter_eraseP (l : List α) :
    (l.eraseP p).filter (fun a => !p a) = l.filter fun a => !p a := by
  induction l with
  | nil => rfl
  | cons a l ih =>
    cases h : p a with
    | true => rw [List.eraseP_cons_of_pos h, List.filter_cons_of_neg (by simp [h])]
    | false =>
      rw [List.eraseP_cons_of_neg (by simp [h]), List.filter_cons_of_pos (by simp [h]),
        List.filter_cons_of_pos (by simp [h]), ih]

end EraseLoop
