import Mathlib

/-!
# The nearest marked ancestor

Objects form a forest under a parent function, and `none` stands above all of them.  Some places,
`none` included, carry a mark; an object is served by the mark nearest to it on its way up.

* `Forest` — the parent function with the depth that makes every way up finite;
* `Nearest`, `Unmarked` — the mark that serves a place, and that there is none;
* `nearest_or_unmarked`, `Nearest.unique` — one of the two, and at most one mark;
* `Nearest.congr`, `Unmarked.congr` — a mark is seen only from below, with no other mark in between.
-/

namespace Ancestry

/-- Objects with their parents; the depth of an object counts its ancestors. -/
structure Forest (O : Type) where
  parent : O → Option O
  depth : O → ℕ
  depth_lt : ∀ {x y}, parent x = some y → depth y < depth x

variable {O B : Type} (t : Forest O)

namespace Forest

/-- One step up. -/
def up (x : Option O) : Option O := x.bind t.parent

/-- The number of steps up to the place above all objects. -/
def height : Option O → ℕ
  | none => 0
  | some x => t.depth x + 1

theorem height_up_lt (x : O) : t.height (t.up (some x)) < t.height (some x) := by
  show t.height (t.parent x) < t.depth x + 1
  cases h : t.parent x with
  | none => exact Nat.succ_pos _
  | some y =>
    have := t.depth_lt h
    show t.depth y + 1 < t.depth x + 1
    omega

theorem up_iterate_none (k : ℕ) : t.up^[k] none = none := by
  induction k with
  | zero => rfl
  | succ k ih => exact ih

end Forest

/-- `b` is the mark nearest to `x` on its way up. -/
def Nearest (m : Option O → Option B) (x : Option O) (b : B) : Prop :=
  ∃ k, m (t.up^[k] x) = some b ∧ ∀ j < k, m (t.up^[j] x) = none

/-- There is no mark on the way up from `x`. -/
def Unmarked (m : Option O → Option B) (x : Option O) : Prop := ∀ k, m (t.up^[k] x) = none

/-- `node` is on the way up from `x`, with no mark below it on that way. -/
def Reaches (m : Option O → Option B) (x node : Option O) : Prop :=
  ∃ k, t.up^[k] x = node ∧ ∀ j < k, t.up^[j] x ≠ node ∧ m (t.up^[j] x) = none

variable {t} {m m' : Option O → Option B} {x node : Option O} {b c : B}

theorem Nearest.here (h : m x = some b) : Nearest t m x b := ⟨0, h, fun j hj => by omega⟩

theorem Nearest.up (hb : Nearest t m x b) (h : m x = none) : Nearest t m (t.up x) b := by
  obtain ⟨k, hk, hbelow⟩ := hb
  cases k with
  | zero =>
    rw [show m (t.up^[0] x) = none from h] at hk
    cases hk
  | succ k => exact ⟨k, hk, fun j hj => hbelow (j + 1) (by omega)⟩

theorem Unmarked.up (hx : Unmarked t m x) : Unmarked t m (t.up x) := fun k => hx (k + 1)

theorem unmarked_none (h : m none = none) : Unmarked t m none := by
  intro k
  rw [t.up_iterate_none]
  exact h

theorem nearest_or_unmarked (t : Forest O) (m : Option O → Option B) (x : Option O) :
    (∃ b, Nearest t m x b) ∨ Unmarked t m x := by
  by_cases h : ∃ k, m (t.up^[k] x) ≠ none
  · left
    classical
    obtain ⟨b, hb⟩ := Option.ne_none_iff_exists'.1 (Nat.find_spec h)
    exact ⟨b, Nat.find h, hb, fun j hj => not_not.1 (Nat.find_min h hj)⟩
  · right
    exact fun k => not_not.1 fun hk => h ⟨k, hk⟩

theorem Nearest.unique (hb : Nearest t m x b) (hc : Nearest t m x c) : b = c := by
  obtain ⟨k, hk, hbelow⟩ := hb
  obtain ⟨l, hl, hbelow'⟩ := hc
  rcases Nat.lt_trichotomy k l with h | rfl | h
  · rw [hbelow' k h] at hk
    cases hk
  · rw [hk] at hl
    exact Option.some.inj hl
  · rw [hbelow l h] at hl
    cases hl

theorem Nearest.not_unmarked (hb : Nearest t m x b) : ¬Unmarked t m x := by
  obtain ⟨k, hk, -⟩ := hb
  intro h
  rw [h k] at hk
  cases hk

/-! ### Changing one mark -/

/-- Before its first mark the way up from `x` does not meet a place it does not reach. -/
theorem ne_of_not_reaches (hx : ¬Reaches t m x node) {k : ℕ}
    (hk : ∀ j < k, m (t.up^[j] x) = none) : ∀ j ≤ k, t.up^[j] x ≠ node := by
  intro j
  induction j using Nat.strong_induction_on with
  | _ j ih =>
    intro hj heq
    exact hx ⟨j, heq, fun i hi => ⟨ih i hi (by omega), hk i (by omega)⟩⟩

theorem Nearest.congr (h : ∀ y, y ≠ node → m' y = m y) (hx : ¬Reaches t m x node)
    (hb : Nearest t m x b) : Nearest t m' x b := by
  obtain ⟨k, hk, hbelow⟩ := hb
  have hoff := ne_of_not_reaches hx hbelow
  refine ⟨k, ?_, fun j hj => ?_⟩
  · rw [h _ (hoff k (Nat.le_refl k))]
    exact hk
  · rw [h _ (hoff j (by omega))]
    exact hbelow j hj

theorem Unmarked.congr (h : ∀ y, y ≠ node → m' y = m y) (hx : ¬Reaches t m x node)
    (hm : Unmarked t m x) : Unmarked t m' x := by
  intro k
  rw [h _ (ne_of_not_reaches hx (fun j _ => hm j) k (Nat.le_refl k))]
  exact hm k

end Ancestry
