import Cci.Core.Value

/-!
# Insertion into lists

`cci_value_list_ref::insert` builds a new array: it moves the elements before the position there,
copies the value, moves the rest and swaps the arrays.  Every insertion so invalidates the iterators
into the list; inserting a range goes on from the iterator the last one returned.

* `ListStorage`, `ListIterator`, `ValueRef` — a list with the identity of its array, pointers into an
  array, and references to a value;
* `insertCount`, `insertOne`, `insertRange`;
* `MovedAway` — the value refers to an element before the position;
* `insert_exact` — when the copies are copies of the value;
* `insert_range` — a range is inserted in its order.
-/

namespace Cci

open Effect

/-- The array of a list: which one it is, and its elements.  Arrays are told apart even where memory
is used again. -/
structure ListStorage where
  storage : ℕ
  elems : List CciValue

/-- A list iterator. -/
structure ListIterator where
  storage : ℕ
  index : ℕ
deriving DecidableEq

/-- A `const_reference`: unset, to a value outside the list, or to an element of the list. -/
inductive ValueRef where
  | unset : ValueRef
  | independent : CciValue → ValueRef
  | element : ℕ → ValueRef

/-- What the reference leads to while the array of the list holds `elems`; nothing if it is unset. -/
def ValueRef.deref (elems : List CciValue) : ValueRef → Option CciValue
  | .unset => none
  | .independent v => some v
  | .element i => elems[i]?

namespace CciValueListRef

/-- `while (it != stop) new_val.PushBack(*it++)` for `n` elements: `PushBack` leaves null behind.
The answer is what is left of the old array, and the new one. -/
def pushMoved : ℕ → ℕ → List CciValue → List CciValue → List CciValue × List CciValue
  | 0, _, elems, newVal => (elems, newVal)
  | n + 1, it, elems, newVal =>
      pushMoved n (it + 1) (elems.set it .null) (newVal ++ [(elems[it]?).getD .null])

/-- `while (count-- > 0u)`: a null value, replaced by a copy if the reference is set. -/
def pushCopies (elems : List CciValue) (value : ValueRef) : ℕ → List CciValue → List CciValue
  | 0, newVal => newVal
  | count + 1, newVal =>
      pushCopies elems value count (newVal ++ [(value.deref elems).getD .null])

/-- `insert(pos, count, value)`.  A position in another array is none of this list. -/
def insertCount (throws : Bool) (pos : ListIterator) (count : ℕ) (value : ValueRef) :
    Eff Report ListStorage ListIterator := do
  let l ← Eff.get
  if pos.storage ≠ l.storage then Eff.abort
  else if l.elems.length < pos.index then
    valueAssertFailed throws id "offset <= THIS->Size()" "invalid insertion position"
  else if count = 0 then pure pos
  else
    let (elems, newVal) := pushMoved pos.index 0 l.elems []
    let newVal := pushCopies elems value count newVal
    let (_, newVal) := pushMoved (l.elems.length - pos.index) pos.index elems newVal
    Eff.modify fun _ => ⟨l.storage + 1, newVal⟩
    pure ⟨l.storage + 1, pos.index⟩

/-- `insert(pos, value)`. -/
def insertOne (throws : Bool) (pos : ListIterator) (value : ValueRef) :
    Eff Report ListStorage ListIterator := insertCount throws pos 1 value

/-- `while (first != last) pos = insert(pos, cci_value(*first++)) + 1`. -/
def insertLoop {T : Type} (throws : Bool) (conv : Converter T) :
    List T → ListIterator → Eff Report ListStorage Unit
  | [], _ => pure ()
  | y :: ys, pos =>
      match conv.cciValue throws y with
      | .error e => Eff.raise e
      | .ok v => do
          let it ← insertOne throws pos (.independent v)
          insertLoop throws conv ys ⟨it.storage, it.index + 1⟩

/-- `insert(pos, first, last)`. -/
def insertRange {T : Type} (throws : Bool) (conv : Converter T) (pos : ListIterator) (ys : List T) :
    Eff Report ListStorage ListIterator := do
  let l ← Eff.get
  if pos.storage ≠ l.storage then Eff.abort
  else
    let offs := pos.index
    insertLoop throws conv ys pos
    let l ← Eff.get
    pure ⟨l.storage, offs⟩

/-! ### The loops -/

/-- The moved elements arrive in their order. -/
theorem pushMoved_snd (n it : ℕ) (elems newVal : List CciValue) (h : it + n ≤ elems.length) :
    (pushMoved n it elems newVal).2 = newVal ++ (elems.drop it).take n := by
  induction n generalizing it elems newVal with
  | zero => rw [pushMoved, List.take_zero, List.append_nil]
  | succ n ih =>
    have hit : it < elems.length := by omega
    have hrest : it + 1 + n ≤ (elems.set it .null).length := by
      rw [List.length_set]
      omega
    rw [pushMoved, ih _ _ _ hrest, List.drop_set_of_lt (by omega), List.getElem?_eq_getElem hit,
      List.drop_eq_getElem_cons hit, List.take_succ_cons, List.append_assoc]
    rfl

/-- What is left behind. -/
theorem pushMoved_fst (n it : ℕ) (elems newVal : List CciValue) (j : ℕ) :
    (pushMoved n it elems newVal).1[j]? =
      if it ≤ j ∧ j < it + n then elems[j]?.map fun _ => .null else elems[j]? := by
  induction n generalizing it elems newVal with
  | zero => rw [pushMoved, if_neg (by omega)]
  | succ n ih =>
    rw [pushMoved, ih]
    by_cases hj : it = j
    · subst hj
      have hset : (elems.set it .null)[it]? = elems[it]?.map fun _ => .null :=
        List.getElem?_set_self'
      rw [if_neg (by omega), if_pos (by omega), hset]
    · rw [List.getElem?_set_ne hj]
      by_cases hin : it + 1 ≤ j ∧ j < it + 1 + n
      · rw [if_pos hin, if_pos (by omega)]
      · rw [if_neg hin, if_neg (by omega)]

theorem pushMoved_length (n it : ℕ) (elems newVal : List CciValue) :
    (pushMoved n it elems newVal).1.length = elems.length := by
  induction n generalizing it elems newVal with
  | zero => rfl
  | succ n ih => rw [pushMoved, ih, List.length_set]

theorem pushCopies_eq (elems : List CciValue) (value : ValueRef) (count : ℕ)
    (newVal : List CciValue) : pushCopies elems value count newVal =
      newVal ++ List.replicate count ((value.deref elems).getD .null) := by
  induction count generalizing newVal with
  | zero => rw [pushCopies, List.replicate_zero, List.append_nil]
  | succ count ih => rw [pushCopies, ih, List.replicate_succ, List.append_assoc]; rfl

/-! ### One insertion -/

/-- The value as it is before the call; null for an unset reference. -/
def valueBefore (xs : List CciValue) (value : ValueRef) : CciValue := (value.deref xs).getD .null

/-- The value refers to an element before the position that is not null. -/
def MovedAway (xs : List CciValue) (p : ℕ) (value : ValueRef) : Prop :=
  ∃ i, value = .element i ∧ i < p ∧ xs[i]? ≠ some .null

/-- What an insertion at a position of the list does: the copies are made after the elements before the
position have been moved away. -/
theorem insertCount_run (throws : Bool) {g p count : ℕ} {xs : List CciValue} (value : ValueRef)
    (hp : p ≤ xs.length) (hcount : count ≠ 0) :
    insertCount throws ⟨g, p⟩ count value ⟨g, xs⟩ =
      (.ok ⟨g + 1, p⟩, ⟨g + 1, xs.take p ++
        List.replicate count (valueBefore (pushMoved p 0 xs []).1 value) ++ xs.drop p⟩) := by
  have hsuffix : (pushMoved (xs.length - p) p (pushMoved p 0 xs []).1
      (xs.take p ++ List.replicate count (valueBefore (pushMoved p 0 xs []).1 value))).2 =
        xs.take p ++ List.replicate count (valueBefore (pushMoved p 0 xs []).1 value) ++
          xs.drop p := by
    have hlength : (pushMoved p 0 xs []).1.length = xs.length := pushMoved_length p 0 xs []
    have hdrop : (pushMoved p 0 xs []).1.drop p = xs.drop p := by
      apply List.ext_getElem?
      intro j
      rw [List.getElem?_drop, List.getElem?_drop, pushMoved_fst, if_neg (by omega)]
    have hall : (xs.drop p).take (xs.length - p) = xs.drop p :=
      List.take_of_length_le (by rw [List.length_drop])
    rw [pushMoved_snd _ _ _ _ (by omega), hdrop, hall]
  have hprefix : (pushMoved p 0 xs []).2 = xs.take p := by
    rw [pushMoved_snd p 0 xs [] (by omega)]
    rfl
  have hle : ¬xs.length < p := by omega
  rw [insertCount, Eff.get_bind_run]
  simp only [ne_eq, not_true, if_false, hle, hcount]
  rw [pushCopies_eq, hprefix]
  show (Outcome.ok _, ListStorage.mk (g + 1) _) = _
  exact congrArg (fun ys => (Outcome.ok _, ListStorage.mk (g + 1) ys)) hsuffix

/-- The copies are copies of the value unless it was moved away. -/
theorem valueBefore_pushMoved {p : ℕ} {xs : List CciValue} {value : ValueRef}
    (hvalue : ∀ i, value = .element i → i < xs.length) :
    valueBefore (pushMoved p 0 xs []).1 value = valueBefore xs value ↔ ¬MovedAway xs p value := by
  cases value with
  | unset => exact iff_of_true rfl fun ⟨_, h, _⟩ => by cases h
  | independent v => exact iff_of_true rfl fun ⟨_, h, _⟩ => by cases h
  | element i =>
    have hi : i < xs.length := hvalue i rfl
    have hget : xs[i]? = some xs[i] := List.getElem?_eq_getElem hi
    show ((pushMoved p 0 xs []).1[i]?).getD .null = (xs[i]?).getD .null ↔ _
    rw [pushMoved_fst, hget]
    by_cases hip : i < p
    · rw [if_pos (by omega)]
      constructor
      · rintro hnull ⟨_, ⟨⟩, -, hne⟩
        rw [hget] at hne
        exact hne (congrArg some hnull.symm)
      · intro hnot
        by_contra hne
        refine hnot ⟨i, rfl, hip, ?_⟩
        rw [hget]
        exact fun heq => hne (Option.some.inj heq).symm
    · rw [if_neg (by omega)]
      refine iff_of_true rfl fun ⟨j, hj, hlt, _⟩ => hip ?_
      cases hj
      exact hlt

/-- **List insertion.**  At a position of the list, `insert(pos, count, value)` makes it the elements
before the position, `count` copies of the value as it was before the call, and the remaining elements,
and returns an iterator to the position in it, if and only if nothing is inserted or the value does not
refer to an element before the position, other than a null one. -/
theorem insert_exact (throws : Bool) {g p : ℕ} (count : ℕ) {xs : List CciValue} {value : ValueRef}
    (hp : p ≤ xs.length) (hvalue : ∀ i, value = .element i → i < xs.length) :
    (∃ g', insertCount throws ⟨g, p⟩ count value ⟨g, xs⟩ = (.ok ⟨g', p⟩, ⟨g', xs.take p ++
      List.replicate count (valueBefore xs value) ++ xs.drop p⟩)) ↔
      count = 0 ∨ ¬MovedAway xs p value := by
  by_cases hcount : count = 0
  · subst hcount
    refine iff_of_true ⟨g, ?_⟩ (.inl rfl)
    have hle : ¬xs.length < p := by omega
    rw [insertCount, Eff.get_bind_run]
    simp only [ne_eq, not_true, if_false, hle, if_true, List.replicate_zero, List.append_nil,
      List.take_append_drop]
    rfl
  · rw [or_iff_right hcount, ← valueBefore_pushMoved hvalue, insertCount_run throws value hp hcount]
    constructor
    · rintro ⟨g', heq⟩
      have hlists := congrArg (fun r => r.2.elems) heq
      have hcopies := List.append_cancel_left (List.append_cancel_right hlists)
      exact (List.replicate_inj.1 hcopies).2.resolve_left hcount
    · intro heq
      exact ⟨g + 1, by rw [heq]⟩

/-- The element before the position is inserted as null. -/
theorem insert_moved_away :
    ¬∀ (throws : Bool) (g p count : ℕ) (xs : List CciValue) (value : ValueRef), p ≤ xs.length →
      (∀ i, value = .element i → i < xs.length) →
      ∃ g', insertCount throws ⟨g, p⟩ count value ⟨g, xs⟩ = (.ok ⟨g', p⟩, ⟨g', xs.take p ++
        List.replicate count (valueBefore xs value) ++ xs.drop p⟩) := by
  intro h
  obtain ⟨g', hins⟩ := h true 0 1 1 [.integer 5] (.element 0) le_rfl fun i hi => by
    cases hi
    exact Nat.zero_lt_one
  have hlists : [CciValue.integer 5, .null] = [.integer 5, .integer 5] :=
    congrArg (fun r => r.2.elems) hins
  cases hlists

/-- A copy of the last element before it. -/
theorem insert_exact_behind :
    (∃ g', insertCount true ⟨0, 1⟩ 2 (.element 1) ⟨0, [.integer 5, .integer 6]⟩ =
      (.ok ⟨g', 1⟩, ⟨g', [.integer 5, .integer 6, .integer 6, .integer 6]⟩)) ↔
      2 = 0 ∨ ¬MovedAway [.integer 5, .integer 6] 1 (.element 1) :=
  insert_exact true 2 (by decide) fun i hi => by
    cases hi
    decide

/-! ### Ranges -/

section

variable {T : Type} {throws : Bool} {conv : Converter T}

/-- One round of the loop: the element goes between what stands before the position and the rest, and
the new position is behind it, in the new array. -/
theorem insertOne_run (throws : Bool) (g : ℕ) (before after : List CciValue) (v : CciValue) :
    insertOne throws ⟨g, before.length⟩ (.independent v) ⟨g, before ++ after⟩ =
      (.ok ⟨g + 1, before.length⟩, ⟨g + 1, before ++ [v] ++ after⟩) := by
  have hp : before.length ≤ (before ++ after).length := by
    rw [List.length_append]
    omega
  rw [insertOne, insertCount_run throws (.independent v) hp Nat.one_ne_zero,
    List.take_left, List.drop_left]
  rfl

/-- The loop goes on behind the elements it has inserted. -/
theorem insertLoop_run {ys : List T} {cs : List CciValue}
    (hpack : List.Forall₂ (fun y c => conv.cciValue throws y = .ok c) ys cs) (rest : List T) (g : ℕ)
    (before after : List CciValue) :
    insertLoop throws conv (ys ++ rest) ⟨g, before.length⟩ ⟨g, before ++ after⟩ =
      insertLoop throws conv rest ⟨g + cs.length, (before ++ cs).length⟩
        ⟨g + cs.length, before ++ cs ++ after⟩ := by
  induction hpack generalizing g before with
  | nil => rw [List.nil_append, List.append_nil, List.length_nil, Nat.add_zero]
  | @cons y c ys cs hy _ ih =>
    have hnext := ih (g + 1) (before ++ [c])
    have hlength : (before ++ [c]).length = before.length + 1 := by
      rw [List.length_append, List.length_singleton]
    have hcount : g + 1 + cs.length = g + (c :: cs).length := by
      rw [List.length_cons]
      omega
    have happend : before ++ [c] ++ cs = before ++ c :: cs := by
      rw [List.append_assoc, List.singleton_append]
    rw [hlength, hcount, happend] at hnext
    rw [List.cons_append, insertLoop, hy]
    show (insertOne throws _ (.independent c) >>= fun it =>
      insertLoop throws conv (ys ++ rest) ⟨it.storage, it.index + 1⟩) _ = _
    rw [Eff.bind_run_ok (insertOne_run throws g before after c)]
    exact hnext

/-- **Range insertion.**  At a position of the list, `insert(pos, first, last)` makes it the elements
before the position, the packed elements of the range in their order, and the remaining elements, and
returns an iterator to the position in it.  Where packing an element ends in an exception, the elements
before it have been inserted so. -/
theorem insert_range (throws : Bool) (conv : Converter T) {g p : ℕ} {xs : List CciValue}
    (hp : p ≤ xs.length) {ys : List T} {cs : List CciValue}
    (hpack : List.Forall₂ (fun y c => conv.cciValue throws y = .ok c) ys cs) :
    (∃ g', insertRange throws conv ⟨g, p⟩ ys ⟨g, xs⟩ =
      (.ok ⟨g', p⟩, ⟨g', xs.take p ++ cs ++ xs.drop p⟩)) ∧
    (∀ (y : T) (rest : List T) (e : Report), conv.cciValue throws y = .error e →
      ∃ g', insertRange throws conv ⟨g, p⟩ (ys ++ y :: rest) ⟨g, xs⟩ =
        (.throw e, ⟨g', xs.take p ++ cs ++ xs.drop p⟩)) := by
  have hstart : ∀ ys : List T, insertRange throws conv ⟨g, p⟩ ys ⟨g, xs⟩ =
      (insertLoop throws conv ys ⟨g, (xs.take p).length⟩ >>= fun _ => Eff.get >>= fun l =>
        pure ⟨l.storage, p⟩) ⟨g, xs.take p ++ xs.drop p⟩ := by
    intro ys
    rw [List.length_take_of_le hp, List.take_append_drop, insertRange, Eff.get_bind_run]
    simp only [ne_eq, not_true, if_false]
  refine ⟨⟨g + cs.length, ?_⟩, fun y rest e he => ⟨g + cs.length, ?_⟩⟩
  · have hloop := insertLoop_run hpack [] g (xs.take p) (xs.drop p)
    rw [List.append_nil] at hloop
    rw [hstart, Eff.bind_run, hloop]
    rfl
  · have hloop := insertLoop_run hpack (y :: rest) g (xs.take p) (xs.drop p)
    rw [hstart, Eff.bind_run, hloop, insertLoop, he]
    rfl

end

/-- Two numbers at the end of a list. -/
theorem insert_range_numbers :
    let conv : Converter ℕ := ⟨fun n => .ok (true, .integer n), fun d _ => (false, d)⟩
    (∃ g', insertRange true conv ⟨0, 1⟩ [7, 8] ⟨0, [.null]⟩ =
      (.ok ⟨g', 1⟩, ⟨g', [.null, .integer 7, .integer 8]⟩)) ∧
    (∀ (y : ℕ) (rest : List ℕ) (e : Report), conv.cciValue true y = .error e →
      ∃ g', insertRange true conv ⟨0, 1⟩ ([7, 8] ++ y :: rest) ⟨0, [.null]⟩ =
        (.throw e, ⟨g', [.null, .integer 7, .integer 8]⟩)) := by
  intro conv
  have hend : 1 ≤ [CciValue.null].length := by decide
  exact insert_range true conv hend (.cons rfl (.cons rfl .nil))

end CciValueListRef

end Cci
