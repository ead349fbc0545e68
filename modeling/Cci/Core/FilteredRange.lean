import Mathlib

/-!
# Filtered ranges

`cci_filtered_range<T,Predicate>` iterates over a copy of a vector and steps over the elements its
predicate rejects.

* `FilteredRange` with `begin` and `increment` — an iterator is the rest of the vector it stands on;
* `FilteredRange.visited` — what a loop from `begin()` to `end()` visits;
* `FilteredRange.iterated_eq_filter` — these are the accepted elements, in order.
-/

namespace Cci

/-- A `cci_filtered_range`. -/
structure FilteredRange (T : Type) where
  mPred : T → Bool
  mContainer : List T

namespace FilteredRange

variable {T : Type} (r : FilteredRange T)

/-- `while (m_current != end() && !m_pred(*m_current)) ++m_current;`. -/
def skip : List T → List T
  | [] => []
  | x :: xs => if r.mPred x then x :: xs else skip xs

/-- `increment()`; the end of the vector is the empty rest. -/
def increment (m_current : List T) : List T :=
  match m_current with
  | [] => []
  | _ :: xs => r.skip xs

/-- `begin()`: where the constructor leaves `m_begin`. -/
def begin : List T :=
  match r.mContainer with
  | [] => []
  | x :: xs => if r.mPred x then x :: xs else r.increment (x :: xs)

theorem length_skip (xs : List T) : (r.skip xs).length ≤ xs.length := by
  induction xs with
  | nil => exact le_rfl
  | cons x xs ih =>
    unfold skip
    split
    · exact le_rfl
    · rw [List.length_cons]
      omega

/-- The elements a loop `for (it = m_current; it != end(); ++it)` visits. -/
def visited (m_current : List T) : List T :=
  match m_current with
  | [] => []
  | x :: xs => x :: visited (r.increment (x :: xs))
termination_by m_current.length
decreasing_by
  show (r.skip xs).length < xs.length + 1
  have := r.length_skip xs
  omega

/-- The elements of the whole range. -/
def iterated : List T := r.visited r.begin

/-- From a position that `skip` has reached, a loop visits the accepted elements of the rest. -/
theorem visited_skip (xs : List T) : r.visited (r.skip xs) = xs.filter r.mPred := by
  induction xs with
  | nil => rw [skip, visited, List.filter_nil]
  | cons x xs ih =>
    by_cases hx : r.mPred x = true
    · rw [skip, if_pos hx, visited, increment, ih, List.filter_cons_of_pos hx]
    · rw [skip, if_neg hx, ih, List.filter_cons_of_neg hx]

/-- The range iterates the accepted elements in their order. -/
theorem iterated_eq_filter : r.iterated = r.mContainer.filter r.mPred := by
  unfold iterated begin
  cases r.mContainer with
  | nil => rw [visited, List.filter_nil]
  | cons x xs =>
    by_cases hx : r.mPred x = true
    · show r.visited (if r.mPred x then x :: xs else _) = _
      rw [if_pos hx, visited, increment, visited_skip, List.filter_cons_of_pos hx]
    · show r.visited (if r.mPred x then x :: xs else _) = _
      rw [if_neg hx, increment, visited_skip, List.filter_cons_of_neg hx]

end FilteredRange

end Cci
