import Cci.Core.RangeIterator

/-!
# Copies of filtered ranges

A copy of a range takes over `m_begin` as it is: an iterator into another container, which points to
another range.

* `RangeHeap.Reachable`, `RangeHeap.Placed` — the ranges after any run, and where their `m_begin`
  stands;
* `copied_range_exact` — when a copy iterates over itself.
-/

namespace Cci

open Traversal

variable {T : Type}

namespace RangeHeap

/-! ### Runs -/

/-- What a program does with whole ranges. -/
inductive RangeCmd (T : Type) where
  | construct (p : T → Bool) (xs : List T) : RangeCmd T
  | copyConstruct (src : ℕ) : RangeCmd T
  | assign (dst src : ℕ) : RangeCmd T
  | destroy (a : ℕ) : RangeCmd T

def RangeCmd.run : RangeCmd T → RangeHeap T → Option (RangeHeap T)
  | construct p xs, h => h.construct p xs
  | copyConstruct src, h => h.copyConstruct src
  | assign dst src, h => h.assign dst src
  | destroy a, h => h.destroy a

/-- The ranges after some run. -/
inductive Reachable : RangeHeap T → Prop where
  | init : Reachable {}
  | step {h h' : RangeHeap T} (c : RangeCmd T) : Reachable h → c.run h = some h' → Reachable h'

/-- Every `m_begin` stands at the position of the first match, in the container of some range that
it also points to. -/
def Placed (h : RangeHeap T) : Prop :=
  ∀ a r, h.ranges a = some r → ∃ o b, o < h.next ∧ r.mBegin = ⟨o, b, some o⟩ ∧
    FirstFrom (Stop r.mPred r.mContainer) 0 b

theorem Placed.set {h : RangeHeap T} (hp : Placed h) {r : CciFilteredRange T} {a n o b : ℕ}
    (hn : h.next ≤ n) (ho : o < n) (hbegin : r.mBegin = ⟨o, b, some o⟩)
    (hfirst : FirstFrom (Stop r.mPred r.mContainer) 0 b) :
    Placed ⟨Function.update h.ranges a (some r), n⟩ := by
  intro a' r' hr'
  change Function.update h.ranges a (some r) a' = some r' at hr'
  by_cases ha : a' = a
  · subst ha
    rw [Function.update_self] at hr'
    cases hr'
    exact ⟨o, b, ho, hbegin, hfirst⟩
  · rw [Function.update_of_ne ha] at hr'
    obtain ⟨o', b', ho', h'⟩ := hp a' r' hr'
    exact ⟨o', b', Nat.lt_of_lt_of_le ho' hn, h'⟩

theorem Reachable.placed {h : RangeHeap T} (hreach : Reachable h) : Placed h := by
  induction hreach with
  | init => exact fun a r hr => nomatch hr
  | @step h h' c _ hrun ih =>
    cases c with
    | construct p xs =>
      obtain ⟨r, -, hconstruct, hown⟩ := h.construct_run p xs
      cases hconstruct.symm.trans hrun
      obtain ⟨-, b, hbegin, hfirst⟩ :=
        hown ⟨Function.update h.ranges h.next (some r), 0⟩ (Function.update_self _ _ _)
      exact ih.set (Nat.le_succ _) (Nat.lt_succ_self _) hbegin hfirst
    | copyConstruct src =>
      obtain ⟨r, hr, hrun⟩ := Option.bind_eq_some_iff.1 hrun
      cases hrun
      obtain ⟨o, b, ho, hbegin, hfirst⟩ := ih src r hr
      exact ih.set (Nat.le_succ _) (Nat.lt_succ_of_lt ho) hbegin hfirst
    | assign dst src =>
      obtain ⟨-, -, hrun⟩ := Option.bind_eq_some_iff.1 hrun
      obtain ⟨r, hr, hrun⟩ := Option.bind_eq_some_iff.1 hrun
      cases hrun
      obtain ⟨o, b, ho, hbegin, hfirst⟩ := ih src r hr
      exact ih.set le_rfl ho hbegin hfirst
    | destroy a =>
      obtain ⟨-, -, hrun⟩ := Option.bind_eq_some_iff.1 hrun
      cases hrun
      intro a' r' hr'
      change Function.update h.ranges a none a' = some r' at hr'
      refine ih a' r' ?_
      by_cases ha : a' = a
      · subst ha
        simp at hr'
      · rwa [Function.update_of_ne ha] at hr'

/-- A step has made `dst` a copy of `src`. -/
def Copied (h : RangeHeap T) (dst src : ℕ) (h' : RangeHeap T) : Prop :=
  (dst = h.next ∧ h.copyConstruct src = some h') ∨ h.assign dst src = some h'

theorem Copied.ranges {h h' : RangeHeap T} {dst src : ℕ} (hc : Copied h dst src h') :
    ∃ r, h.ranges src = some r ∧ h'.ranges dst = some r := by
  rcases hc with ⟨rfl, hc⟩ | hc
  · obtain ⟨r, hr, hc⟩ := Option.bind_eq_some_iff.1 hc
    cases hc
    exact ⟨r, hr, Function.update_self _ _ _⟩
  · obtain ⟨-, -, hc⟩ := Option.bind_eq_some_iff.1 hc
    obtain ⟨r, hr, hc⟩ := Option.bind_eq_some_iff.1 hc
    cases hc
    exact ⟨r, hr, Function.update_self _ _ _⟩

/-- The loop over a range comes to its end and visits the accepted elements of its own container, and
its iterators stay in this container. -/
structure IteratesItself (h : RangeHeap T) (a : ℕ) : Prop where
  iterates : ∃ r, h.ranges a = some r ∧ ∀ ys, h.Iterates a ys ↔ ys = r.mContainer.filter r.mPred
  inside : ∀ b it, h.begin a = some b →
    Relation.ReflTransGen (fun i j => h.increment i = some j) b it → it.container = a

theorem increment_container {h : RangeHeap T} {it j : IteratorImpl} (hj : h.increment it = some j) :
    j.container = it.container := by
  unfold increment at hj
  split at hj
  · cases hj
    rfl
  · simp only [Option.bind_eq_bind, Option.bind_eq_some_iff] at hj
    obtain ⟨r, -, xs, -, i, -, k, -, hj⟩ := hj
    cases hj
    rfl

/-- A loop that starts in another container never meets its end. -/
theorem not_iterates {h : RangeHeap T} {a : ℕ} {r : CciFilteredRange T} (hr : h.ranges a = some r)
    (hne : r.mBegin.container ≠ a) (ys : List T) : ¬h.Iterates a ys := by
  rintro ⟨b, e, hb, he, htrav⟩
  simp only [begin, «end», hr, Option.map_some, Option.some.injEq] at hb he
  subst hb he
  obtain ⟨j, hj, heq⟩ := htrav.ends (J := fun it => it.container = r.mBegin.container)
    (fun i j hi hij => (increment_container hij).trans hi) rfl
  exact hne (hj.symm.trans heq.1)

theorem Own.iteratesItself {h : RangeHeap T} {a : ℕ} {r : CciFilteredRange T} (hown : h.Own a r) :
    h.IteratesItself a := by
  refine ⟨⟨r, hown.live, fun ys => hown.iterates_iff⟩, fun b it hb hreach => ?_⟩
  obtain ⟨i, hbegin, -⟩ := hown.mBegin
  simp only [begin, hown.live, Option.map_some, hbegin, Option.some.injEq] at hb
  subst hb
  induction hreach with
  | refl => rfl
  | tail _ hstep ih => exact (increment_container hstep).trans ih

/-- **Copies of filtered ranges.**  A copy iterates over its own container exactly when the `m_begin`
of its source stands in the target of the copy; for a copy construction it never does.  Otherwise the
loop from `begin()` to `end()` has no end. -/
theorem copied_range_exact {h h' : RangeHeap T} {dst src : ℕ} (hreach : Reachable h)
    (hc : Copied h dst src h') :
    (h'.IteratesItself dst ↔ ∃ b, h.begin src = some b ∧ b.container = dst) ∧
      (¬h'.IteratesItself dst → ∀ ys, ¬h'.Iterates dst ys) ∧
      (h.copyConstruct src = some h' → dst = h.next → ¬h'.IteratesItself dst) := by
  obtain ⟨r, hsrc, hdst⟩ := hc.ranges
  obtain ⟨o, b, ho, hbegin, hfirst⟩ := hreach.placed src r hsrc
  have hiff : h'.IteratesItself dst ↔ ∃ b, h.begin src = some b ∧ b.container = dst := by
    constructor
    · intro hself
      refine ⟨r.mBegin, by rw [begin, hsrc]; rfl, ?_⟩
      exact hself.inside r.mBegin r.mBegin (by rw [begin, hdst]; rfl) .refl
    · rintro ⟨b', hb', hcontainer⟩
      rw [begin, hsrc] at hb'
      obtain rfl : r.mBegin = b' := Option.some.inj hb'
      rw [hbegin] at hcontainer
      obtain rfl : o = dst := hcontainer
      exact Own.iteratesItself ⟨hdst, b, hbegin, hfirst⟩
  refine ⟨hiff, fun hno ys => not_iterates hdst (fun heq => hno (hiff.2 ⟨r.mBegin, ?_, heq⟩)) ys,
    fun _ hnew hself => ?_⟩
  · rw [begin, hsrc]
    rfl
  · obtain ⟨b', hb', hcontainer⟩ := hiff.1 hself
    rw [begin, hsrc] at hb'
    obtain rfl : r.mBegin = b' := Option.some.inj hb'
    rw [hbegin, hnew] at hcontainer
    obtain rfl : o = h.next := hcontainer
    omega

/-- A range and its copy. -/
def twoRanges : RangeHeap Bool :=
  ⟨Function.update oneRange.ranges 1 (some ⟨⟨id, [true]⟩, ⟨0, 0, some 0⟩⟩), 2⟩

theorem oneRange_reachable : Reachable oneRange := .step (.construct id [true]) .init rfl

theorem twoRanges_reachable : Reachable twoRanges := .step (.copyConstruct 0) oneRange_reachable rfl

/-- The original assigned back from its copy. -/
theorem copied_range_exact_back :
    let h' : RangeHeap Bool :=
      ⟨Function.update twoRanges.ranges 0 (some ⟨⟨id, [true]⟩, ⟨0, 0, some 0⟩⟩), 2⟩
    (h'.IteratesItself 0 ↔ ∃ b, twoRanges.begin 1 = some b ∧ b.container = 0) ∧
      (¬h'.IteratesItself 0 → ∀ ys, ¬h'.Iterates 0 ys) ∧
      (twoRanges.copyConstruct 1 = some h' → 0 = twoRanges.next → ¬h'.IteratesItself 0) :=
  copied_range_exact twoRanges_reachable (.inr rfl)

/-- The copy does not iterate over itself. -/
theorem copied_range_foreign :
    ¬∀ (h h' : RangeHeap Bool) (dst src : ℕ), Reachable h → Copied h dst src h' →
      h'.IteratesItself dst := by
  intro hall
  have hself : twoRanges.IteratesItself 1 :=
    hall oneRange twoRanges 1 0 oneRange_reachable (.inl ⟨rfl, rfl⟩)
  have hinside : (0 : ℕ) = 1 := hself.inside ⟨0, 0, some 0⟩ ⟨0, 0, some 0⟩ rfl .refl
  cases hinside

end RangeHeap

end Cci
