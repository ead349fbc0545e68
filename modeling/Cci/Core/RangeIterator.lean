import Cci.Lib.Traversal
import Cci.Core.FilteredRange

/-!
# Iterators of filtered ranges

`cci_filtered_range::iterator_impl` is a position in the container of one range and a pointer to the
range whose predicate and bounds its steps use.  A range keeps such an iterator as a member, which its
copies take over.

* `RangeHeap` with `construct`, `copyConstruct`, `assign` and `destroy` — the live ranges;
* `increment`, `decrement` — the steps of an iterator;
* `Iterates`, `IteratesBack` — the loops from `begin()` to `end()` and from `rbegin()` to `rend()`;
* `RangeHeap.Own` — a range whose `m_begin` is in its own container;
* `filtered_range_both_ways` — what the loops over a constructed range visit.
-/

namespace Cci

open Traversal

variable {T : Type}

/-! ### Ranges and iterators -/

/-- An `iterator_impl`: the range in whose container it stands, the position there, and `m_fr`. -/
structure IteratorImpl where
  container : ℕ
  mCurrent : ℕ
  mFr : Option ℕ
deriving DecidableEq, Repr

/-- `operator==`: the container iterators are equal. -/
def IteratorImpl.eq (a b : IteratorImpl) : Prop :=
  a.container = b.container ∧ a.mCurrent = b.mCurrent

instance (a b : IteratorImpl) : Decidable (a.eq b) := inferInstanceAs (Decidable (_ ∧ _))

/-- A `cci_filtered_range` with its member `m_begin`. -/
structure CciFilteredRange (T : Type) extends FilteredRange T where
  mBegin : IteratorImpl

/-- The live ranges, each under an identity of its own. -/
structure RangeHeap (T : Type) where
  ranges : ℕ → Option (CciFilteredRange T) := fun _ => none
  next : ℕ := 0

/-! ### Steps -/

/-- `if (m_current != stop) ++m_current;` in a container of `n` elements; `stop` is none when that
iterator stands in another container.  To go past the elements is undefined. -/
def incrementOnce (stop : Option ℕ) (n i : ℕ) : Option ℕ :=
  if some i = stop then some i else if i < n then some (i + 1) else none

/-- `if (m_current != stop) --m_current;`. -/
def decrementOnce (stop : Option ℕ) (i : ℕ) : Option ℕ :=
  if some i = stop then some i else if 0 < i then some (i - 1) else none

/-- `while (m_current != stop && !m_pred(*m_current)) ++m_current;` from position `i`, with the
elements from there on. -/
def incrementWhile (p : T → Bool) (stop : Option ℕ) : ℕ → List T → Option ℕ
  | i, [] => if some i = stop then some i else none
  | i, x :: rest =>
      if some i = stop then some i
      else if p x then some i
      else incrementWhile p stop (i + 1) rest

/-- `while (m_current != stop && !m_pred(*m_current)) --m_current;`. -/
def decrementWhile (p : T → Bool) (xs : List T) (stop : Option ℕ) : ℕ → Option ℕ
  | 0 => if some 0 = stop then some 0 else xs[0]?.bind fun x => if p x then some 0 else none
  | i + 1 =>
      if some (i + 1) = stop then some (i + 1)
      else xs[i + 1]?.bind fun x => if p x then some (i + 1) else decrementWhile p xs stop i

namespace RangeHeap

variable (h : RangeHeap T)

/-- The elements of the container of a live range. -/
def elements (a : ℕ) : Option (List T) := (h.ranges a).map fun r => r.mContainer

/-- `*it`. -/
def deref (it : IteratorImpl) : Option T := (h.elements it.container).bind fun xs => xs[it.mCurrent]?

/-- `increment()`, if it is defined. -/
def increment (it : IteratorImpl) : Option IteratorImpl :=
  match it.mFr with
  | none => some it
  | some fr => do
      let r ← h.ranges fr
      let xs ← h.elements it.container
      let stop := if it.container = fr then some r.mContainer.length else none
      let i ← incrementOnce stop xs.length it.mCurrent
      let j ← incrementWhile r.mPred stop i (xs.drop i)
      some { it with mCurrent := j }

/-- `decrement()`, if it is defined. -/
def decrement (it : IteratorImpl) : Option IteratorImpl :=
  match it.mFr with
  | none => some it
  | some fr => do
      let r ← h.ranges fr
      let xs ← h.elements it.container
      let stop := if it.container = r.mBegin.container then some r.mBegin.mCurrent else none
      let i ← decrementOnce stop it.mCurrent
      let j ← decrementWhile r.mPred xs stop i
      some { it with mCurrent := j }

/-! ### The life of a range -/

/-- `m_container.end()`. -/
def containerEnd (a : ℕ) (xs : List T) : IteratorImpl := ⟨a, xs.length, none⟩

/-- The constructor, with `init()`; the range gets a new identity. -/
def construct (p : T → Bool) (xs : List T) : Option (RangeHeap T) :=
  let a := h.next
  let r : CciFilteredRange T := ⟨⟨p, xs⟩, ⟨a, 0, some a⟩⟩
  let h' : RangeHeap T := ⟨Function.update h.ranges a (some r), a + 1⟩
  match xs with
  | [] => some h'
  | x :: _ =>
      if p x then some h'
      else do
        let it ← h'.increment r.mBegin
        some { h' with ranges := Function.update h.ranges a (some { r with mBegin := it }) }

/-- The copy constructor, which copies member by member. -/
def copyConstruct (src : ℕ) : Option (RangeHeap T) := do
  let r ← h.ranges src
  some ⟨Function.update h.ranges h.next (some r), h.next + 1⟩

/-- The copy assignment, which copies member by member. -/
def assign (dst src : ℕ) : Option (RangeHeap T) := do
  let _ ← h.ranges dst
  let r ← h.ranges src
  some { h with ranges := Function.update h.ranges dst (some r) }

/-- The destructor. -/
def destroy (a : ℕ) : Option (RangeHeap T) := do
  let _ ← h.ranges a
  some { h with ranges := Function.update h.ranges a none }

/-! ### The iterators of a range -/

/-- `begin()`. -/
def begin (a : ℕ) : Option IteratorImpl := (h.ranges a).map fun r => r.mBegin

/-- `end()`: its `m_fr` is NULL. -/
def «end» (a : ℕ) : Option IteratorImpl := (h.ranges a).map fun r => containerEnd a r.mContainer

/-- `cbegin()`. -/
def cbegin (a : ℕ) : Option IteratorImpl :=
  (h.ranges a).map fun r => { r.mBegin with mFr := some a }

/-- `cend()`. -/
def cend (a : ℕ) : Option IteratorImpl := h.end a

/-- The base of `rbegin()`. -/
def rbegin (a : ℕ) : Option IteratorImpl :=
  (h.ranges a).map fun r => { containerEnd a r.mContainer with mFr := some a }

/-- The base of `rend()`. -/
def rend (a : ℕ) : Option IteratorImpl := h.cbegin a

/-- `for (it = a.begin(); it != a.end(); ++it)` comes to its end and visits `ys`. -/
def Iterates (a : ℕ) (ys : List T) : Prop :=
  ∃ b e, h.begin a = some b ∧ h.end a = some e ∧
    Traverses (fun it => it.eq e) h.deref h.increment b ys

/-- `for (it = a.rbegin(); it != a.rend(); ++it)` comes to its end and visits `ys`.  A reverse
iterator gives the element before its base, and moves its base back. -/
def IteratesBack (a : ℕ) (ys : List T) : Prop :=
  ∃ b e, h.rbegin a = some b ∧ h.rend a = some e ∧
    Traverses (fun it => it.eq e) (fun it => (h.decrement it).bind h.deref) h.decrement b ys

/-! ### The loops of a step -/

/-- Where `increment()` stops. -/
def Stop (p : T → Bool) (xs : List T) (k : ℕ) : Prop := k = xs.length ∨ Match p xs k

theorem Stop.le {p : T → Bool} {xs : List T} {k : ℕ} (hk : Stop p xs k) : k ≤ xs.length := by
  rcases hk with rfl | hm
  · exact le_rfl
  · exact hm.lt.le

theorem incrementWhile_spec (p : T → Bool) (xs : List T) {i : ℕ} (hi : i ≤ xs.length) :
    ∃ j, incrementWhile p (some xs.length) i (xs.drop i) = some j ∧ FirstFrom (Stop p xs) i j := by
  generalize hrest : xs.drop i = rest
  induction rest generalizing i with
  | nil =>
    have hlen : i = xs.length := by
      have := List.drop_eq_nil_iff.1 hrest
      omega
    refine ⟨i, ?_, le_rfl, .inl hlen, fun k hk hki => by omega⟩
    rw [incrementWhile, if_pos (by rw [hlen])]
  | cons x rest ih =>
    have hlt : i < xs.length := by
      by_contra hge
      rw [List.drop_eq_nil_of_le (by omega)] at hrest
      cases hrest
    have hcons := List.drop_eq_getElem_cons hlt
    rw [hrest, List.cons.injEq] at hcons
    have hx : xs[i]? = some x := by
      rw [hcons.1]
      exact List.getElem?_eq_getElem hlt
    have hstop : ¬some i = some xs.length := by
      intro h
      cases h
      omega
    rw [incrementWhile, if_neg hstop]
    by_cases hp : p x = true
    · rw [if_pos hp]
      exact ⟨i, rfl, le_rfl, .inr ⟨x, hx, hp⟩, fun k hk hki => by omega⟩
    · rw [if_neg hp]
      obtain ⟨j, hj, hij, hsj, hnone⟩ := ih hlt hcons.2.symm
      refine ⟨j, hj, by omega, hsj, fun k hk hkj => ?_⟩
      rcases Nat.lt_or_eq_of_le hk with h | rfl
      · exact hnone k h hkj
      · rintro (h | h)
        · omega
        · exact not_match_of_getElem hx hp h

theorem decrementWhile_spec (p : T → Bool) (xs : List T) {b i : ℕ} (hb : b ≤ i)
    (hi : i < xs.length) :
    ∃ j, decrementWhile p xs (some b) i = some j ∧
      LastUpTo (fun k => k = b ∨ Match p xs k) i j := by
  induction i with
  | zero =>
    have hzero : b = 0 := by omega
    subst hzero
    exact ⟨0, if_pos rfl, le_rfl, .inl rfl, fun k hk hki => by omega⟩
  | succ i ih =>
    by_cases hstop : i + 1 = b
    · subst hstop
      exact ⟨i + 1, if_pos rfl, le_rfl, .inl rfl, fun k hk hki => by omega⟩
    · have hne : ¬some (i + 1) = some b := fun h => hstop (Option.some.inj h)
      have hx : xs[i + 1]? = some xs[i + 1] := List.getElem?_eq_getElem hi
      rw [decrementWhile, if_neg hne, hx]
      show ∃ j, (if p xs[i + 1] then some (i + 1) else decrementWhile p xs (some b) i) = some j ∧ _
      by_cases hp : p xs[i + 1] = true
      · rw [if_pos hp]
        exact ⟨i + 1, rfl, le_rfl, .inr ⟨_, hx, hp⟩, fun k hk hki => by omega⟩
      · rw [if_neg hp]
        obtain ⟨j, hj, hji, hsj, hnone⟩ := ih (by omega) (by omega)
        refine ⟨j, hj, by omega, hsj, fun k hk hki => ?_⟩
        rcases Nat.lt_or_eq_of_le hki with h | rfl
        · exact hnone k hk (by omega)
        · rintro (h | h)
          · exact hstop h
          · exact not_match_of_getElem hx hp h

/-! ### A range of its own -/

/-- The range `a` is live, and its `m_begin` stands at the first match of its own container. -/
structure Own (h : RangeHeap T) (a : ℕ) (r : CciFilteredRange T) : Prop where
  live : h.ranges a = some r
  mBegin : ∃ b, r.mBegin = ⟨a, b, some a⟩ ∧ FirstFrom (Stop r.mPred r.mContainer) 0 b

namespace Own

variable {h : RangeHeap T} {a i : ℕ} {r : CciFilteredRange T}

theorem increment_of_lt (hown : h.Own a r) (hi : i < r.mContainer.length) :
    ∃ j, h.increment ⟨a, i, some a⟩ = some ⟨a, j, some a⟩ ∧
      FirstFrom (Stop r.mPred r.mContainer) (i + 1) j := by
  obtain ⟨j, hj, hfirst⟩ := incrementWhile_spec r.mPred r.mContainer (Nat.succ_le_of_lt hi)
  refine ⟨j, ?_, hfirst⟩
  have honce : incrementOnce (some r.mContainer.length) r.mContainer.length i = some (i + 1) := by
    rw [incrementOnce, if_neg (by simp; omega), if_pos hi]
  simp only [increment, elements, hown.live, Option.map_some, Option.bind_eq_bind, Option.bind_some,
    if_true, honce, hj]

theorem decrement_of_lt {b : ℕ} (hown : h.Own a r) (hbegin : r.mBegin = ⟨a, b, some a⟩)
    (hb : b < i) (hi : i ≤ r.mContainer.length) :
    ∃ j, h.decrement ⟨a, i, some a⟩ = some ⟨a, j, some a⟩ ∧
      LastUpTo (Stop r.mPred r.mContainer) (i - 1) j := by
  obtain ⟨b', hbegin', hfirst⟩ := hown.mBegin
  obtain rfl : b = b' := congrArg IteratorImpl.mCurrent (hbegin.symm.trans hbegin')
  obtain ⟨j, hj, hji, hsj, hnone⟩ :=
    decrementWhile_spec r.mPred r.mContainer (b := b) (i := i - 1) (by omega) (by omega)
  refine ⟨j, ?_, hji, ?_, fun k hk hki hs => ?_⟩
  · have honce : decrementOnce (some b) i = some (i - 1) := by
      rw [decrementOnce, if_neg (by simp; omega), if_pos (by omega)]
    simp only [decrement, elements, hown.live, hbegin, Option.map_some, Option.bind_eq_bind,
      Option.bind_some, if_true, honce, hj]
  · rcases hsj with rfl | hsj
    · exact hfirst.2.1
    · exact .inr hsj
  · rcases hs with hs | hs
    · omega
    · exact hnone k hk hki (.inr hs)

/-- Going on from a stop. -/
theorem traverses (hown : h.Own a r) {i : ℕ} (hi : i ≤ r.mContainer.length)
    (hs : Stop r.mPred r.mContainer i) :
    Traverses (fun it => it.eq (containerEnd a r.mContainer)) h.deref h.increment ⟨a, i, some a⟩
      ((r.mContainer.drop i).filter r.mPred) := by
  induction hn : r.mContainer.length - i using Nat.strong_induction_on generalizing i with
  | _ n ih =>
    rcases hs with rfl | ⟨x, hx, hp⟩
    · rw [List.drop_length, List.filter_nil]
      exact .nil ⟨rfl, rfl⟩
    · have hlt : i < r.mContainer.length := (List.getElem?_eq_some_iff.1 hx).1
      obtain ⟨j, hstep, hij, hsj, hnone⟩ := hown.increment_of_lt hlt
      have hjle := hsj.le
      rw [filter_drop_match hx hp,
        filter_drop_eq hij fun k hk hkj hm => hnone k hk hkj (.inr hm)]
      refine .cons (fun heq => ?_) ?_ hstep (ih _ ?_ hjle hsj rfl)
      · have : i = r.mContainer.length := heq.2
        omega
      · simp only [deref, elements, hown.live, Option.map_some, Option.bind_some, hx]
      · omega

/-- Going back from a stop. -/
theorem traverses_back {b : ℕ} (hown : h.Own a r) (hbegin : r.mBegin = ⟨a, b, some a⟩) {i : ℕ}
    (hb : b ≤ i) (hi : i ≤ r.mContainer.length) :
    Traverses (fun it => it.eq ⟨a, b, some a⟩) (fun it => (h.decrement it).bind h.deref)
      h.decrement ⟨a, i, some a⟩ ((r.mContainer.take i).filter r.mPred).reverse := by
  obtain ⟨b', hbegin', hfirst⟩ := hown.mBegin
  obtain rfl : b = b' := congrArg IteratorImpl.mCurrent (hbegin.symm.trans hbegin')
  induction i using Nat.strong_induction_on with
  | _ i ih =>
    rcases Nat.lt_or_eq_of_le hb with hlt | rfl
    · obtain ⟨j, hstep, hji, hsj, hnone⟩ := hown.decrement_of_lt hbegin hlt hi
      have hbj : b ≤ j := by
        by_contra hjb
        exact hfirst.2.2 j (Nat.zero_le j) (by omega) hsj
      obtain ⟨x, hx, hp⟩ : Match r.mPred r.mContainer j := by
        rcases hsj with h | h
        · omega
        · exact h
      rw [filter_take_eq (i := j + 1) (by omega) fun k hk hki hm =>
          hnone k (by omega) (by omega) (.inr hm), filter_take_match hx hp, List.reverse_append]
      refine .cons (fun heq => ?_) ?_ hstep (ih j (by omega) hbj (by omega))
      · have : i = b := heq.2
        omega
      · simp only [hstep, Option.bind_some, deref, elements, hown.live, Option.map_some, hx]
    · have hnil : (r.mContainer.take b).filter r.mPred = [] := by
        rw [filter_take_eq (Nat.zero_le b) fun k hk hkb hm => hfirst.2.2 k hk hkb (.inr hm)]
        rfl
      rw [hnil]
      exact .nil ⟨rfl, rfl⟩

theorem iterates (hown : h.Own a r) : h.Iterates a (r.mContainer.filter r.mPred) := by
  obtain ⟨b, hbegin, hle, hs, hnone⟩ := hown.mBegin
  have hblen := hs.le
  refine ⟨⟨a, b, some a⟩, containerEnd a r.mContainer, ?_, ?_, ?_⟩
  · simp only [begin, hown.live, Option.map_some, hbegin]
  · simp only [«end», hown.live, Option.map_some]
  · have hall := filter_drop_eq hle fun k hk hkb hm => hnone k hk hkb (.inr hm)
    rw [List.drop_zero] at hall
    rw [hall]
    exact hown.traverses hblen hs

theorem iteratesBack (hown : h.Own a r) :
    h.IteratesBack a (r.mContainer.filter r.mPred).reverse := by
  obtain ⟨b, hbegin, hle, hs, hnone⟩ := hown.mBegin
  have hblen := hs.le
  refine ⟨⟨a, r.mContainer.length, some a⟩, ⟨a, b, some a⟩, ?_, ?_, ?_⟩
  · simp only [rbegin, hown.live, Option.map_some, containerEnd]
  · simp only [rend, cbegin, hown.live, Option.map_some, hbegin]
  · have h := hown.traverses_back hbegin hblen le_rfl
    rwa [List.take_length] at h

theorem iterates_iff (hown : h.Own a r) {ys : List T} :
    h.Iterates a ys ↔ ys = r.mContainer.filter r.mPred := by
  refine ⟨fun ⟨b, e, hb, he, htrav⟩ => ?_, fun heq => heq ▸ hown.iterates⟩
  obtain ⟨b', e', hb', he', htrav'⟩ := hown.iterates
  cases hb.symm.trans hb'
  cases he.symm.trans he'
  exact htrav.unique htrav'

theorem iteratesBack_iff (hown : h.Own a r) {ys : List T} :
    h.IteratesBack a ys ↔ ys = (r.mContainer.filter r.mPred).reverse := by
  refine ⟨fun ⟨b, e, hb, he, htrav⟩ => ?_, fun heq => heq ▸ hown.iteratesBack⟩
  obtain ⟨b', e', hb', he', htrav'⟩ := hown.iteratesBack
  cases hb.symm.trans hb'
  cases he.symm.trans he'
  exact htrav.unique htrav'

end Own

/-! ### Construction -/

/-- A constructed range is one of its own. -/
theorem construct_run (h : RangeHeap T) (p : T → Bool) (xs : List T) :
    ∃ r : CciFilteredRange T, r.toFilteredRange = ⟨p, xs⟩ ∧
      h.construct p xs = some ⟨Function.update h.ranges h.next (some r), h.next + 1⟩ ∧
      ∀ g : RangeHeap T, g.ranges h.next = some r → g.Own h.next r := by
  cases xs with
  | nil =>
    refine ⟨⟨⟨p, []⟩, ⟨h.next, 0, some h.next⟩⟩, rfl, rfl, fun g hg => ⟨hg, 0, rfl, le_rfl, .inl rfl, ?_⟩⟩
    exact fun k hk hk0 => by omega
  | cons x xs =>
    by_cases hp : p x = true
    · refine ⟨⟨⟨p, x :: xs⟩, ⟨h.next, 0, some h.next⟩⟩, rfl, ?_, fun g hg => ⟨hg, 0, rfl, le_rfl, ?_, ?_⟩⟩
      · simp only [construct, if_pos hp]
      · exact .inr ⟨x, rfl, hp⟩
      · exact fun k hk hk0 => by omega
    · -- `init()` moves `m_begin` to the first match
      obtain ⟨j, hj, hij, hsj, hnone⟩ :=
        incrementWhile_spec p (x :: xs) (i := 1) (by rw [List.length_cons]; omega)
      refine ⟨⟨⟨p, x :: xs⟩, ⟨h.next, j, some h.next⟩⟩, rfl, ?_,
        fun g hg => ⟨hg, j, rfl, Nat.zero_le j, hsj, fun k hk hkj => ?_⟩⟩
      · have honce : incrementOnce (some (x :: xs).length) (x :: xs).length 0 = some 1 := rfl
        simp only [construct, if_neg hp, increment, elements, Function.update_self, Option.map_some,
          Option.bind_eq_bind, Option.bind_some, if_true, honce, hj]
      · rcases Nat.eq_zero_or_pos k with rfl | hpos
        · rintro (hk0 | hm)
          · cases hk0
          · have hx : (x :: xs)[0]? = some x := rfl
            exact not_match_of_getElem hx hp hm
        · exact hnone k hpos hkj

/-- **Filtered ranges in both directions.**  The loop from `begin()` to `end()` over a constructed
range comes to its end and visits exactly the accepted elements in their order; the loop from
`rbegin()` to `rend()` visits them in the opposite order. -/
theorem filtered_range_both_ways (h : RangeHeap T) (p : T → Bool) (xs : List T) :
    ∃ h', h.construct p xs = some h' ∧
      ∀ g : RangeHeap T, g.ranges h.next = h'.ranges h.next → ∀ ys,
        (g.Iterates h.next ys ↔ ys = xs.filter p) ∧
        (g.IteratesBack h.next ys ↔ ys = (xs.filter p).reverse) := by
  obtain ⟨r, hr, hrun, hown⟩ := h.construct_run p xs
  obtain ⟨⟨_, _⟩, b⟩ := r
  cases hr
  refine ⟨_, hrun, fun g hg ys => ?_⟩
  have hown' := hown g (hg.trans (Function.update_self _ _ _))
  exact ⟨hown'.iterates_iff, hown'.iteratesBack_iff⟩

/-- A range of one element that is accepted. -/
def oneRange : RangeHeap Bool :=
  ⟨Function.update (fun _ => none) 0 (some ⟨⟨id, [true]⟩, ⟨0, 0, some 0⟩⟩), 1⟩

end RangeHeap

end Cci
