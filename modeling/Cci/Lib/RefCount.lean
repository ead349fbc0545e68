import Cci.Lib.Bindings

/-!
# Reference counts

Live objects at addresses, each with the count of its holders.  An object may itself hold another,
which it gives up when it is deleted.

* `acquire`, `release`, `alloc` — the operations; `root` follows the objects held to the last one;
* `Balanced` — the counts are those of the references from outside and of the objects that hold;
* `Balanced.acquire`, `Balanced.release`, `Balanced.alloc` — each operation takes or gives a
  reference;
* `Balanced.exact_iff` — whether the counts are those of some of the references;
* `Within` — a memory with no other objects than another; deletion leaves what is still referenced.
-/

namespace RefCount

open Bindings

variable {α : Type}

/-- An object and the count of its holders. -/
structure Node (α : Type) where
  item : α
  count : ℕ
deriving DecidableEq, Repr

/-- The live objects. -/
abbrev Memory (α : Type) := AList fun _ : ℕ => Node α

def item? (m : Memory α) (a : ℕ) : Option α := (m.lookup a).map Node.item

def countAt (m : Memory α) (a : ℕ) : ℕ := ((m.lookup a).map Node.count).getD 0

/-- What a pointer that may be null refers to. -/
def single : Option ℕ → Multiset ℕ
  | some a => {a}
  | none => 0

/-! ### Operations -/

/-- One more holder. -/
def acquire (m : Memory α) (a : ℕ) : Memory α :=
  match m.lookup a with
  | some x => m.insert a ⟨x.item, x.count + 1⟩
  | none => m

/-- A new object, with one holder. -/
def alloc (m : Memory α) (a : ℕ) (i : α) : Memory α := m.insert a ⟨i, 1⟩

section

variable (owns : α → Option ℕ)

/-- One holder less: the object without any is deleted, and gives up the one it holds. -/
def releaseFuel : ℕ → Memory α → ℕ → Memory α
  | 0, m, _ => m
  | n + 1, m, a =>
    match m.lookup a with
    | none => m
    | some x =>
      if x.count ≤ 1 then
        match owns x.item with
        | some b => releaseFuel n (m.erase a) b
        | none => m.erase a
      else m.insert a ⟨x.item, x.count - 1⟩

/-- Each deletion takes an object away, so there are no more of them than objects. -/
def release (m : Memory α) (a : ℕ) : Memory α := releaseFuel owns m.entries.length m a

def rootFuel (m : Memory α) : ℕ → ℕ → ℕ
  | 0, a => a
  | n + 1, a =>
    match (item? m a).bind owns with
    | some b => rootFuel m n b
    | none => a

/-- The object at the end of those that hold another. -/
def root (m : Memory α) (a : ℕ) : ℕ := rootFuel owns m m.entries.length a

/-- The references of the objects. -/
def inner (m : Memory α) : Multiset ℕ := (bindings m).filterMap fun x => owns x.2.item

/-- The count of each object is that of its references, from outside (`R`) and by the objects. -/
structure Balanced (m : Memory α) (R : Multiset ℕ) : Prop where
  count : ∀ a, countAt m a = (R + inner owns m).count a
  pos : ∀ a x, m.lookup a = some x → 0 < x.count

end

/-! ### Lookups -/

theorem item?_eq_some {m : Memory α} {a : ℕ} {i : α} :
    item? m a = some i ↔ ∃ n, m.lookup a = some ⟨i, n⟩ := by
  rw [item?, Option.map_eq_some_iff]
  constructor
  · rintro ⟨⟨j, n⟩, hx, rfl⟩
    exact ⟨n, hx⟩
  · rintro ⟨n, hx⟩
    exact ⟨⟨i, n⟩, hx, rfl⟩

theorem notMem_iff {m : Memory α} {a : ℕ} : a ∉ m ↔ item? m a = none := by
  rw [item?, Option.map_eq_none_iff, AList.lookup_eq_none]

theorem item?_insert (m : Memory α) (a b : ℕ) (x : Node α) :
    item? (m.insert a x) b = if b = a then some x.item else item? m b := by
  rw [item?]
  split
  · rename_i h
    rw [h, AList.lookup_insert]
    rfl
  · rename_i h
    rw [AList.lookup_insert_ne h]
    rfl

theorem item?_erase (m : Memory α) (a b : ℕ) :
    item? (m.erase a) b = if b = a then none else item? m b := by
  rw [item?]
  split
  · rename_i h
    rw [h, AList.lookup_erase]
    rfl
  · rename_i h
    rw [AList.lookup_erase_ne h]
    rfl

theorem countAt_of_lookup {m : Memory α} {a : ℕ} {x : Node α} (hx : m.lookup a = some x) :
    countAt m a = x.count := by
  rw [countAt, hx]
  rfl

theorem countAt_insert (m : Memory α) (a b : ℕ) (x : Node α) :
    countAt (m.insert a x) b = if b = a then x.count else countAt m b := by
  rw [countAt]
  split
  · rename_i h
    rw [h, AList.lookup_insert]
    rfl
  · rename_i h
    rw [AList.lookup_insert_ne h]
    rfl

theorem countAt_erase (m : Memory α) (a b : ℕ) :
    countAt (m.erase a) b = if b = a then 0 else countAt m b := by
  rw [countAt]
  split
  · rename_i h
    rw [h, AList.lookup_erase]
    rfl
  · rename_i h
    rw [AList.lookup_erase_ne h]
    rfl

section

variable {owns : α → Option ℕ}

theorem inner_cons (x : Sigma fun _ : ℕ => Node α) (s : Multiset (Sigma fun _ : ℕ => Node α)) :
    (x ::ₘ s).filterMap (fun x => owns x.2.item) =
      single (owns x.2.item) + s.filterMap fun x => owns x.2.item := by
  rw [Multiset.filterMap_cons]
  cases owns x.2.item <;> rfl

theorem inner_erase {m : Memory α} {a : ℕ} {x : Node α} (hx : m.lookup a = some x) :
    inner owns m = single (owns x.item) + inner owns (m.erase a) := by
  rw [inner, bindings_erase hx, inner_cons]
  rfl

theorem inner_insert_new {m : Memory α} {a : ℕ} (ha : a ∉ m) (x : Node α) :
    inner owns (m.insert a x) = single (owns x.item) + inner owns m := by
  rw [inner, bindings_insert_new ha, inner_cons]
  rfl

theorem count_inner (m : Memory α) (a : ℕ) :
    (inner owns m).count a = m.entries.countP fun x => owns x.2.item == some a := by
  show (↑(m.entries.filterMap fun x => owns x.2.item) : Multiset ℕ).count a = _
  rw [Multiset.coe_count, List.count_filterMap]

/-- A change of a count changes no reference. -/
theorem inner_recount {m : Memory α} {a : ℕ} {x : Node α} (hx : m.lookup a = some x) (n : ℕ) :
    inner owns (m.insert a ⟨x.item, n⟩) = inner owns m := by
  rw [inner, bindings_insert, inner_cons, inner_erase hx]
  rfl

/-! ### One step of `release` -/

theorem release_of_lookup {m : Memory α} {a : ℕ} {x : Node α} (hx : m.lookup a = some x) :
    release owns m a =
      if x.count ≤ 1 then
        match owns x.item with
        | some b => release owns (m.erase a) b
        | none => m.erase a
      else m.insert a ⟨x.item, x.count - 1⟩ := by
  rw [release, length_erase hx, releaseFuel, hx]
  rfl

theorem release_of_notMem {m : Memory α} {a : ℕ} (ha : m.lookup a = none) :
    release owns m a = m := by
  rw [release]
  cases m.entries.length with
  | zero => rfl
  | succ n => rw [releaseFuel, ha]

/-! ### Memories within each other -/

/-- Every object of `m'` is the same in `m`. -/
def Within (m' m : Memory α) : Prop := ∀ a i, item? m' a = some i → item? m a = some i

theorem Within.trans {m₁ m₂ m₃ : Memory α} (h : Within m₁ m₂) (h' : Within m₂ m₃) : Within m₁ m₃ :=
  fun a i hi => h' a i (h a i hi)

theorem item?_recount {m : Memory α} {a : ℕ} {x : Node α} (hx : m.lookup a = some x) (n b : ℕ) :
    item? (m.insert a ⟨x.item, n⟩) b = item? m b := by
  rw [item?_insert]
  split
  · rename_i h
    rw [h, item?, hx]
    rfl
  · rfl

@[simp] theorem item?_acquire (m : Memory α) (a b : ℕ) : item? (acquire m a) b = item? m b := by
  rw [acquire]
  split
  · rename_i x hx
    exact item?_recount hx _ b
  · rfl

theorem within_alloc {m : Memory α} {a : ℕ} (ha : a ∉ m) (i : α) : Within m (alloc m a i) := by
  intro b j hj
  rw [alloc, item?_insert, if_neg, hj]
  rintro rfl
  rw [item?, AList.lookup_eq_none.2 ha] at hj
  cases hj

theorem within_erase (m : Memory α) (a : ℕ) : Within (m.erase a) m := by
  intro b j hj
  rw [item?_erase] at hj
  split at hj
  · cases hj
  · exact hj

theorem release_within (m : Memory α) (a : ℕ) : Within (release owns m a) m := by
  induction hn : m.entries.length generalizing m a with
  | zero =>
    rw [release, hn]
    exact fun _ _ => id
  | succ n ih =>
    cases hx : m.lookup a with
    | none =>
      rw [release_of_notMem hx]
      exact fun _ _ => id
    | some x =>
      rw [release_of_lookup hx]
      split
      · have hlen := length_erase hx
        split
        · exact (ih (m.erase a) _ (by omega)).trans (within_erase m a)
        · exact within_erase m a
      · exact fun b j hj => (item?_recount hx _ b).symm.trans hj

/-! ### Balanced counts -/

namespace Balanced

variable {m : Memory α} {R : Multiset ℕ}

theorem lookup_of_mem (h : Balanced owns m R) {a : ℕ} (ha : a ∈ R + inner owns m) :
    ∃ x, m.lookup a = some x := by
  have hpos : 0 < countAt m a := by
    rw [h.count]
    exact Multiset.count_pos.2 ha
  cases hx : m.lookup a with
  | none =>
    rw [countAt, hx] at hpos
    exact absurd hpos (lt_irrefl 0)
  | some x => exact ⟨x, rfl⟩

/-- What is referenced is alive. -/
theorem live (h : Balanced owns m R) {a : ℕ} (ha : a ∈ R) : ∃ i, item? m a = some i := by
  obtain ⟨x, hx⟩ := h.lookup_of_mem (Multiset.mem_add.2 (.inl ha))
  exact ⟨x.item, item?_eq_some.2 ⟨x.count, hx⟩⟩

/-- What an object holds is alive. -/
theorem live_owned (h : Balanced owns m R) {a b : ℕ} {i : α} (ha : item? m a = some i)
    (hb : owns i = some b) : ∃ j, item? m b = some j := by
  obtain ⟨n, hx⟩ := item?_eq_some.1 ha
  have hmem : b ∈ inner owns m :=
    (Multiset.mem_filterMap _ _).2 ⟨⟨a, ⟨i, n⟩⟩, mem_bindings.2 hx, hb⟩
  obtain ⟨y, hy⟩ := h.lookup_of_mem (Multiset.mem_add.2 (.inr hmem))
  exact ⟨y.item, item?_eq_some.2 ⟨y.count, hy⟩⟩

/-- An object is there as long as something refers to it. -/
theorem mem_iff (h : Balanced owns m R) {a : ℕ} : a ∈ m ↔ 0 < (R + inner owns m).count a := by
  constructor
  · intro ha
    obtain ⟨x, hx⟩ := Option.isSome_iff_exists.1 (AList.lookup_isSome.2 ha)
    have hpos := h.pos a x hx
    rw [← h.count, countAt_of_lookup hx]
    exact hpos
  · intro hpos
    obtain ⟨x, hx⟩ := h.lookup_of_mem (Multiset.count_pos.1 hpos)
    exact AList.lookup_isSome.1 (by rw [hx]; rfl)

/-- The counts are those of some references alone if and only if there are no others. -/
theorem exact_iff {X : Multiset ℕ} (h : Balanced owns m (R + X)) :
    (∀ a x, m.lookup a = some x → x.count = (R + inner owns m).count a) ↔ X = 0 := by
  constructor
  · intro hexact
    by_contra hX
    obtain ⟨a, ha⟩ := Multiset.exists_mem_of_ne_zero hX
    have hmem : a ∈ R + X + inner owns m :=
      Multiset.mem_add.2 (.inl (Multiset.mem_add.2 (.inr ha)))
    obtain ⟨x, hx⟩ := h.lookup_of_mem hmem
    have hcount := h.count a
    have hpos := Multiset.count_pos.2 ha
    rw [countAt_of_lookup hx, hexact a x hx] at hcount
    simp only [Multiset.count_add] at hcount
    omega
  · intro hX a x hx
    have hcount := h.count a
    rw [hX, add_zero, countAt_of_lookup hx] at hcount
    exact hcount

/-- A count changed together with the references. -/
theorem recount (h : Balanced owns m R) {a : ℕ} {x : Node α} (hx : m.lookup a = some x) {n : ℕ}
    (hn : 0 < n) {R' : Multiset ℕ} (ha : R'.count a + x.count = R.count a + n)
    (hother : ∀ b, b ≠ a → R'.count b = R.count b) :
    Balanced owns (m.insert a ⟨x.item, n⟩) R' := by
  constructor
  · intro b
    have hcount := h.count b
    rw [Multiset.count_add] at hcount
    rw [countAt_insert, inner_recount hx, Multiset.count_add]
    split
    · rename_i hb
      subst hb
      rw [countAt_of_lookup hx] at hcount
      show n = _
      omega
    · rename_i hb
      rw [hother b hb, hcount]
  · intro b y hy
    by_cases hb : b = a
    · subst hb
      rw [AList.lookup_insert] at hy
      cases hy
      exact hn
    · rw [AList.lookup_insert_ne hb] at hy
      exact h.pos b y hy

theorem acquire (h : Balanced owns m R) {a : ℕ} {i : α} (ha : item? m a = some i) :
    Balanced owns (acquire m a) (a ::ₘ R) := by
  obtain ⟨n, hx⟩ := item?_eq_some.1 ha
  rw [RefCount.acquire, hx]
  refine h.recount hx (Nat.succ_pos n) ?_ fun b hb => Multiset.count_cons_of_ne hb R
  rw [Multiset.count_cons_self]
  show _ + n = _ + (n + 1)
  omega

/-- Without its last holder an object leaves the one it holds to whoever deletes it. -/
theorem erase {a : ℕ} (h : Balanced owns m (a ::ₘ R)) {x : Node α} (hx : m.lookup a = some x)
    (hlast : x.count ≤ 1) : Balanced owns (m.erase a) (single (owns x.item) + R) := by
  constructor
  · intro b
    have hcount := h.count b
    rw [inner_erase hx] at hcount
    simp only [Multiset.count_add] at hcount ⊢
    rw [countAt_erase]
    split
    · rename_i hb
      subst hb
      rw [countAt_of_lookup hx, Multiset.count_cons_self] at hcount
      omega
    · rename_i hb
      rw [Multiset.count_cons_of_ne hb] at hcount
      omega
  · intro b y hy
    by_cases hb : b = a
    · rw [hb, AList.lookup_erase] at hy
      cases hy
    · rw [AList.lookup_erase_ne hb] at hy
      exact h.pos b y hy

theorem release {a : ℕ} (h : Balanced owns m (a ::ₘ R)) : Balanced owns (release owns m a) R := by
  induction hn : m.entries.length generalizing m a R with
  | zero =>
    obtain ⟨x, hx⟩ := h.lookup_of_mem (Multiset.mem_add.2 (.inl (Multiset.mem_cons_self a R)))
    have hlen := length_erase hx
    omega
  | succ n ih =>
    obtain ⟨x, hx⟩ := h.lookup_of_mem (Multiset.mem_add.2 (.inl (Multiset.mem_cons_self a R)))
    rw [release_of_lookup hx]
    split
    · rename_i hlast
      have herase := h.erase hx hlast
      have hlen := length_erase hx
      cases howns : owns x.item with
      | none =>
        rw [howns, single, zero_add] at herase
        exact herase
      | some b =>
        rw [howns, single, Multiset.singleton_add] at herase
        exact ih herase (by omega)
    · refine h.recount hx (by omega) ?_ fun b hb => (Multiset.count_cons_of_ne hb R).symm
      rw [Multiset.count_cons_self]
      omega

/-- A new object takes over the reference to the one it holds. -/
theorem alloc {a : ℕ} {i : α} (h : Balanced owns m (single (owns i) + R)) (ha : a ∉ m) :
    Balanced owns (alloc m a i) (a ::ₘ R) := by
  constructor
  · intro b
    have hcount := h.count b
    rw [RefCount.alloc, countAt_insert, inner_insert_new ha]
    simp only [Multiset.count_add] at hcount ⊢
    split
    · rename_i hb
      subst hb
      have hzero : countAt m b = 0 := by
        rw [countAt, AList.lookup_eq_none.2 ha]
        rfl
      rw [Multiset.count_cons_self]
      omega
    · rename_i hb
      rw [Multiset.count_cons_of_ne hb]
      omega
  · intro b y hy
    by_cases hb : b = a
    · subst hb
      rw [RefCount.alloc, AList.lookup_insert] at hy
      cases hy
      exact Nat.one_pos
    · rw [RefCount.alloc, AList.lookup_insert_ne hb] at hy
      exact h.pos b y hy

end Balanced

/-! ### The object at the end -/

theorem root_of_owns_none {m : Memory α} {a : ℕ} (ha : (item? m a).bind owns = none) :
    root owns m a = a := by
  rw [root]
  cases m.entries.length with
  | zero => rfl
  | succ n => rw [rootFuel, ha]

theorem root_of_owns {m : Memory α} {a b : ℕ} (ha : (item? m a).bind owns = some b)
    (hb : (item? m b).bind owns = none) : root owns m a = b := by
  have hlive : ∃ x, m.lookup a = some x := by
    cases hx : m.lookup a with
    | none =>
      rw [item?, hx] at ha
      cases ha
    | some x => exact ⟨x, rfl⟩
  obtain ⟨x, hx⟩ := hlive
  rw [root, length_erase hx, rootFuel, ha]
  show rootFuel owns m _ b = b
  cases (m.erase a).entries.length with
  | zero => rfl
  | succ n => rw [rootFuel, hb]

end

end RefCount
