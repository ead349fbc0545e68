import Mathlib

/-!
# Last-write-wins maps with permanent locks

A map from keys to values in which a later write replaces an earlier one, until the key is locked.

* `LockedMap` with `set` and `lock`;
* `LockedMap.lastBeforeLock` — what a history of operations says about a key;
* `LockedMap.run_entry`, `LockedMap.run_locked` — the map after a history agrees with it.
-/

/-- A map in which locked keys keep their entry. -/
@[ext] structure LockedMap (K V : Type) where
  entry : K → Option V
  locked : K → Prop

namespace LockedMap

variable {K V : Type} [DecidableEq K]

/-- Nothing written, nothing locked. -/
def empty : LockedMap K V := ⟨fun _ => none, fun _ => False⟩

inductive Op (K V : Type) where
  | set (k : K) (v : V) : Op K V
  | lock (k : K) : Op K V

open Classical in
/-- Write `v` at `k`, unless `k` is locked. -/
noncomputable def set (m : LockedMap K V) (k : K) (v : V) : LockedMap K V :=
  if m.locked k then m else { m with entry := Function.update m.entry k (some v) }

def lock (m : LockedMap K V) (k : K) : LockedMap K V :=
  { m with locked := fun k' => k' = k ∨ m.locked k' }

noncomputable def apply (m : LockedMap K V) : Op K V → LockedMap K V
  | .set k v => m.set k v
  | .lock k => m.lock k

/-- The map after a history. -/
noncomputable def run (ops : List (Op K V)) : LockedMap K V := ops.foldl apply empty

theorem set_of_locked {m : LockedMap K V} {k : K} (h : m.locked k) (v : V) : m.set k v = m := by
  rw [set, if_pos h]

theorem set_of_not_locked {m : LockedMap K V} {k : K} (h : ¬m.locked k) (v : V) :
    m.set k v = { m with entry := Function.update m.entry k (some v) } := by
  rw [set, if_neg h]

@[simp] theorem locked_set (m : LockedMap K V) (k : K) (v : V) : (m.set k v).locked = m.locked := by
  by_cases h : m.locked k
  · rw [set_of_locked h]
  · rw [set_of_not_locked h]

@[simp] theorem run_snoc (ops : List (Op K V)) (op : Op K V) :
    run (ops ++ [op]) = (run ops).apply op := by
  simp [run]

/-! ### Histories -/

def Op.locks (k : K) : Op K V → Bool
  | .lock k' => k' = k
  | .set _ _ => false

def Op.written (k : K) : Op K V → Option V
  | .set k' v => if k' = k then some v else none
  | .lock _ => none

/-- The last value written at `k` before `k` was first locked. -/
def lastBeforeLock (k : K) (ops : List (Op K V)) : Option V :=
  ((ops.takeWhile fun op => !op.locks k).filterMap (Op.written k)).getLast?

theorem any_locks {k : K} {ops : List (Op K V)} : ops.any (Op.locks k) = true ↔ .lock k ∈ ops := by
  rw [List.any_eq_true]
  constructor
  · rintro ⟨op, hop, hk⟩
    cases op with
    | lock k' => rwa [show k' = k by simpa [Op.locks] using hk] at hop
    | set k' v => simp [Op.locks] at hk
  · exact fun h => ⟨_, h, by simp [Op.locks]⟩

theorem lastBeforeLock_snoc (k : K) (ops : List (Op K V)) (op : Op K V) :
    lastBeforeLock k (ops ++ [op]) =
      if ops.any (Op.locks k) then lastBeforeLock k ops
      else (op.written k <|> lastBeforeLock k ops) := by
  simp only [lastBeforeLock, List.takeWhile_append]
  by_cases hl : ops.any (Op.locks k) = true
  · have hne : (ops.takeWhile fun op => !op.locks k).length ≠ ops.length := by
      intro hlen
      have hall := List.takeWhile_eq_self_iff.1
        ((List.takeWhile_prefix fun op : Op K V => !op.locks k).eq_of_length hlen)
      obtain ⟨op', hop', hk⟩ := List.any_eq_true.1 hl
      have hnot := hall op' hop'
      rw [hk] at hnot
      exact Bool.noConfusion hnot
    rw [if_neg hne, if_pos hl]
  · have hall : ops.takeWhile (fun op => !op.locks k) = ops := by
      refine List.takeWhile_eq_self_iff.2 fun op' hop' => ?_
      by_contra hc
      exact hl (List.any_eq_true.2 ⟨op', hop', by simpa using hc⟩)
    rw [hall, if_pos rfl, if_neg hl, List.filterMap_append]
    cases op with
    | lock k' => by_cases hk : k' = k <;> simp [Op.written, Op.locks, hk]
    | set k' v => by_cases hk : k' = k <;> simp [Op.written, Op.locks, hk]

theorem run_locked (k : K) (ops : List (Op K V)) : (run ops).locked k ↔ .lock k ∈ ops := by
  induction ops using List.reverseRecOn with
  | nil => simp [run, empty]
  | append_singleton ops op ih =>
    rw [run_snoc, List.mem_append, ← ih]
    cases op with
    | lock k' => simp [apply, lock, or_comm]
    | set k' v => simp [apply]

/-- The entry of a key is the last value written before the key was first locked. -/
theorem run_entry (k : K) (ops : List (Op K V)) : (run ops).entry k = lastBeforeLock k ops := by
  induction ops using List.reverseRecOn with
  | nil => rfl
  | append_singleton ops op ih =>
    rw [run_snoc, lastBeforeLock_snoc, ← ih]
    cases op with
    | lock k' => simp [apply, lock, Op.written]
    | set k' v =>
      simp only [apply, Op.written]
      by_cases hl : Op.lock k' ∈ ops
      · rw [set_of_locked ((run_locked k' ops).2 hl)]
        by_cases hk : k' = k
        · subst hk
          rw [if_pos (any_locks.2 hl)]
        · simp [hk]
      · rw [set_of_not_locked fun h => hl ((run_locked k' ops).1 h)]
        by_cases hk : k' = k
        · subst hk
          rw [if_neg fun h => hl (any_locks.1 h)]
          simp
        · simp [hk, Function.update_of_ne (Ne.symm hk)]

end LockedMap
