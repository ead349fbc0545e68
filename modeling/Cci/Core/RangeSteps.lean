import Cci.Core.RangeIterator

/-!
# Steps of filtered ranges in both directions

`end()` and `cend()` give iterators without a range pointer, whose steps do nothing.

* `RangeHeap.Origin`, `RangeHeap.Stepped` — the iterators of a range;
* `RangeHeap.StepsInverse` — `++` and `--` undo each other;
* `steps_inverse_exact` — when they do.
-/

namespace Cci

open Traversal

variable {T : Type}

namespace RangeHeap

/-! ### Steps in both directions -/

/-- The functions that give an iterator. -/
inductive Origin where
  | begin | «end» | cbegin | cend
deriving DecidableEq

/-- What the function gives. -/
def origin (h : RangeHeap T) (a : ℕ) : Origin → Option IteratorImpl
  | .begin => h.begin a
  | .end => h.end a
  | .cbegin => h.cbegin a
  | .cend => h.cend a

/-- The iterators that steps inside the range lead to. -/
inductive Stepped (h : RangeHeap T) (a : ℕ) (o : Origin) : IteratorImpl → Prop where
  | start {it : IteratorImpl} : h.origin a o = some it → Stepped h a o it
  | forth {it j e : IteratorImpl} : Stepped h a o it → h.end a = some e → ¬it.eq e →
      h.increment it = some j → Stepped h a o j
  | back {it j b : IteratorImpl} : Stepped h a o it → h.begin a = some b → ¬it.eq b →
      h.decrement it = some j → Stepped h a o j

/-- A step is undone by the opposite one, and the step back from the end leads to the last match. -/
structure StepsInverse (h : RangeHeap T) (a : ℕ) (o : Origin) : Prop where
  forth_back : ∀ it e, Stepped h a o it → h.end a = some e → ¬it.eq e →
    ∃ j, h.increment it = some j ∧ h.decrement j = some it
  back_forth : ∀ it b, Stepped h a o it → h.begin a = some b → ¬it.eq b →
    ∃ j, h.decrement it = some j ∧ h.increment j = some it
  last : ∀ it e r k, Stepped h a o it → h.end a = some e → it.eq e → h.ranges a = some r →
    LastUpTo (Match r.mPred r.mContainer) r.mContainer.length k →
      ∃ j, h.decrement it = some j ∧ j.container = a ∧ j.mCurrent = k

namespace Own

variable {h : RangeHeap T} {a : ℕ} {r : CciFilteredRange T}

theorem end_eq (hown : h.Own a r) : h.end a = some (containerEnd a r.mContainer) := by
  simp only [«end», hown.live, Option.map_some]

theorem begin_eq (hown : h.Own a r) : h.begin a = some r.mBegin := by
  simp only [begin, hown.live, Option.map_some]

/-- The iterators with a range pointer stand at stops. -/
theorem stepped (hown : h.Own a r) {b : ℕ} (hbegin : r.mBegin = ⟨a, b, some a⟩) {o : Origin}
    (ho : o = .begin ∨ o = .cbegin) {it : IteratorImpl} (hit : Stepped h a o it) :
    ∃ i, it = ⟨a, i, some a⟩ ∧ Stop r.mPred r.mContainer i ∧ b ≤ i ∧ i ≤ r.mContainer.length := by
  obtain ⟨b', hbegin', hfirst⟩ := hown.mBegin
  obtain rfl : b = b' := congrArg IteratorImpl.mCurrent (hbegin.symm.trans hbegin')
  induction hit with
  | @start it hstart =>
    refine ⟨b, ?_, hfirst.2.1, le_rfl, hfirst.2.1.le⟩
    rcases ho with rfl | rfl
    · exact (Option.some.inj (hown.begin_eq.symm.trans hstart)).symm.trans hbegin
    · simp only [origin, cbegin, hown.live, Option.map_some, hbegin, Option.some.injEq] at hstart
      exact hstart.symm
  | @forth it j e _ he hne hj ih =>
    obtain ⟨i, rfl, hs, hbi, hile⟩ := ih
    cases hown.end_eq.symm.trans he
    have hlt := Nat.lt_of_le_of_ne hile fun hend => hne ⟨rfl, hend⟩
    obtain ⟨k, hk, hik, hsk, -⟩ := hown.increment_of_lt hlt
    cases hk.symm.trans hj
    exact ⟨k, rfl, hsk, by omega, hsk.le⟩
  | @back it j b' _ hb' hne hj ih =>
    obtain ⟨i, rfl, hs, hbi, hile⟩ := ih
    rw [hown.begin_eq, hbegin] at hb'
    cases hb'
    have hlt := Nat.lt_of_le_of_ne hbi fun hstart => hne ⟨rfl, hstart.symm⟩
    obtain ⟨k, hk, hki, hsk, -⟩ := hown.decrement_of_lt hbegin hlt hile
    cases hk.symm.trans hj
    refine ⟨k, rfl, hsk, ?_, hsk.le⟩
    by_contra hlt'
    exact hfirst.2.2 k (Nat.zero_le k) (by omega) hsk

/-- With a range pointer the steps are inverse. -/
theorem stepsInverse (hown : h.Own a r) {o : Origin} (ho : o = .begin ∨ o = .cbegin) :
    StepsInverse h a o := by
  obtain ⟨b, hbegin, hfirst⟩ := hown.mBegin
  refine ⟨fun it e hit he hne => ?_, fun it b' hit hb' hne => ?_, fun it e r' k hit he heq hr hk => ?_⟩
  · obtain ⟨i, rfl, hs, hbi, hile⟩ := hown.stepped hbegin ho hit
    cases hown.end_eq.symm.trans he
    have hlt := Nat.lt_of_le_of_ne hile fun hend => hne ⟨rfl, hend⟩
    obtain ⟨j, hj, hnext⟩ := hown.increment_of_lt hlt
    have hjle := hnext.2.1.le
    have hij : i + 1 ≤ j := hnext.1
    obtain ⟨i', hi', hprev⟩ := hown.decrement_of_lt hbegin (i := j) (by omega) hjle
    obtain rfl : i' = i := hprev.unique (hnext.lastUpTo hs)
    exact ⟨_, hj, hi'⟩
  · obtain ⟨i, rfl, hs, hbi, hile⟩ := hown.stepped hbegin ho hit
    rw [hown.begin_eq, hbegin] at hb'
    cases hb'
    have hlt := Nat.lt_of_le_of_ne hbi fun hstart => hne ⟨rfl, hstart.symm⟩
    obtain ⟨j, hj, hprev⟩ := hown.decrement_of_lt hbegin hlt hile
    have hji : j ≤ i - 1 := hprev.1
    obtain ⟨i', hi', hnext⟩ := hown.increment_of_lt (i := j) (by omega)
    obtain rfl : i' = i := hnext.unique (hprev.firstFrom hs (by omega))
    exact ⟨_, hj, hi'⟩
  · obtain ⟨i, rfl, hs, hbi, hile⟩ := hown.stepped hbegin ho hit
    cases hown.end_eq.symm.trans he
    cases hown.live.symm.trans hr
    obtain rfl : i = r.mContainer.length := heq.2
    have hkb : b ≤ k := by
      by_contra hlt
      exact hfirst.2.2 k (Nat.zero_le k) (by omega) (.inr hk.2.1)
    have hklt : k < r.mContainer.length := hk.2.1.lt
    obtain ⟨j, hj, hprev⟩ := hown.decrement_of_lt hbegin (i := r.mContainer.length) (by omega) le_rfl
    refine ⟨_, hj, rfl, hprev.unique ⟨by omega, .inr hk.2.1, fun n hn hnle hsn => ?_⟩⟩
    rcases hsn with rfl | hm
    · omega
    · exact hk.2.2 n hn (by omega) hm

theorem origin_end (hown : h.Own a r) {o : Origin} (ho : ¬(o = .begin ∨ o = .cbegin)) :
    h.origin a o = some (containerEnd a r.mContainer) := by
  cases o with
  | begin => exact absurd (.inl rfl) ho
  | cbegin => exact absurd (.inr rfl) ho
  | «end» => exact hown.end_eq
  | cend => exact hown.end_eq

/-- Without a range pointer the step back from the end stays there: this is no harm exactly when the
range has no match. -/
theorem stepsInverse_end (hown : h.Own a r) {o : Origin} (ho : ¬(o = .begin ∨ o = .cbegin)) :
    StepsInverse h a o ↔ ∀ x ∈ r.mContainer, r.mPred x = false := by
  constructor
  · intro hinv x hx
    by_contra hp
    obtain ⟨k, hm⟩ := exists_match_iff.2 ⟨x, hx, by simpa using hp⟩
    obtain ⟨l, hl⟩ := exists_lastUpTo ⟨k, hm.lt.le, hm⟩
    obtain ⟨j, hj, -, hjl⟩ :=
      hinv.last _ _ r l (.start (hown.origin_end ho)) hown.end_eq ⟨rfl, rfl⟩ hown.live hl
    obtain rfl : containerEnd a r.mContainer = j := Option.some.inj hj
    have hlt := hl.2.1.lt
    rw [← hjl] at hlt
    exact absurd hlt (Nat.lt_irrefl _)
  · intro hall
    have hno : ∀ k, ¬Match r.mPred r.mContainer k := by
      intro k hm
      obtain ⟨x, hx, hp⟩ := exists_match_iff.1 ⟨k, hm⟩
      rw [hall x hx] at hp
      cases hp
    obtain ⟨b, hbegin, hfirst⟩ := hown.mBegin
    obtain rfl : b = r.mContainer.length := hfirst.2.1.resolve_right (hno b)
    have hend : ∀ it, Stepped h a o it → it = containerEnd a r.mContainer := by
      intro it hit
      induction hit with
      | start hstart => exact (Option.some.inj ((hown.origin_end ho).symm.trans hstart)).symm
      | forth _ he hne _ ih =>
        cases hown.end_eq.symm.trans he
        exact absurd (ih ▸ ⟨rfl, rfl⟩) hne
      | back _ hb hne _ ih =>
        rw [hown.begin_eq, hbegin] at hb
        cases hb
        exact absurd (ih ▸ ⟨rfl, rfl⟩) hne
    refine ⟨fun it e hit he hne => ?_, fun it b hit hb hne => ?_, fun it e r' k _ _ _ hr hk => ?_⟩
    · cases hown.end_eq.symm.trans he
      exact absurd (hend it hit ▸ ⟨rfl, rfl⟩) hne
    · rw [hown.begin_eq, hbegin] at hb
      cases hb
      exact absurd (hend it hit ▸ ⟨rfl, rfl⟩) hne
    · cases hown.live.symm.trans hr
      exact absurd hk.2.1 (hno k)

end Own

/-- **Inverse steps on filtered ranges.**  The steps of the iterators that a constructed range gives
undo each other, and the step back from the end leads to the last match, exactly for `begin()` and
`cbegin()`, and for `end()` and `cend()` when nothing in the range matches. -/
theorem steps_inverse_exact (h : RangeHeap T) (p : T → Bool) (xs : List T) :
    ∃ h', h.construct p xs = some h' ∧
      ∀ g : RangeHeap T, g.ranges h.next = h'.ranges h.next → ∀ o,
        (StepsInverse g h.next o ↔
          (o = .begin ∨ o = .cbegin) ∨ ∀ x ∈ xs, p x = false) := by
  obtain ⟨r, hr, hrun, hown⟩ := h.construct_run p xs
  obtain ⟨⟨_, _⟩, b⟩ := r
  cases hr
  refine ⟨_, hrun, fun g hg o => ?_⟩
  have hown' := hown g (hg.trans (Function.update_self _ _ _))
  by_cases ho : o = .begin ∨ o = .cbegin
  · exact iff_of_true (hown'.stepsInverse ho) (.inl ho)
  · rw [hown'.stepsInverse_end ho, or_iff_right ho]

/-- The step back from `end()` does not leave it. -/
theorem steps_inverse_end_stuck :
    ({} : RangeHeap Bool).construct id [true] = some oneRange ∧ ¬StepsInverse oneRange 0 .end := by
  refine ⟨rfl, fun hinv => ?_⟩
  have hlast : LastUpTo (Match id [true]) 1 0 := by
    refine ⟨Nat.zero_le 1, ⟨true, rfl, rfl⟩, fun k hk hk1 hm => ?_⟩
    have : k < 1 := hm.lt
    omega
  obtain ⟨j, hj, -, hj0⟩ := hinv.last ⟨0, 1, none⟩ ⟨0, 1, none⟩ ⟨⟨id, [true]⟩, ⟨0, 0, some 0⟩⟩ 0
    (.start rfl) rfl ⟨rfl, rfl⟩ rfl hlast
  obtain rfl : (⟨0, 1, none⟩ : IteratorImpl) = j := Option.some.inj hj
  cases hj0

end RangeHeap

end Cci
