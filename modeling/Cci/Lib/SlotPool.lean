import Mathlib

/-!
# A pool of slots with an intrusive free list

Storage for objects of one type that is never given back.  A slot that was released holds the link
to the next free one, so the free list lives in the slots themselves.

* `Slot`, `Pool` — the slots and the head of the free list;
* `Pool.allocate`, `Pool.deallocate`, `Pool.read`, `Pool.write` — the operations, undefined on a
  slot of the wrong sort;
* `Pool.Sound` — the free list runs through exactly the slots that nobody owns;
* `Pool.Sound.allocate`, `Pool.Sound.deallocate`, `Pool.Sound.write` — what each operation does to
  a sound pool.
-/

namespace SlotPool

/-- A slot holds an object, or the link of the free list. -/
inductive Slot (V : Type) where
  | live : V → Slot V
  | free : Option ℕ → Slot V
deriving DecidableEq, Repr

/-- The slots in the order they were obtained, and the first free one. -/
structure Pool (V : Type) where
  slots : List (Slot V) := []
  freeList : Option ℕ := none
deriving DecidableEq, Repr

namespace Pool

variable {V : Type}

/-- The object in a slot. -/
def read (P : Pool V) (a : ℕ) : Option V :=
  match P.slots[a]? with
  | some (.live v) => some v
  | _ => none

/-- Replace the object in a slot. -/
def write (P : Pool V) (a : ℕ) (v : V) : Option (Pool V) :=
  match P.slots[a]? with
  | some (.live _) => some { P with slots := P.slots.set a (.live v) }
  | _ => none

/-- Take the first free slot, or a new one, and construct `fresh` in it. -/
def allocate (fresh : V) (P : Pool V) : Option (ℕ × Pool V) :=
  match P.freeList with
  | none => some (P.slots.length, { P with slots := P.slots ++ [.live fresh] })
  | some a =>
      match P.slots[a]? with
      | some (.free next) => some (a, ⟨P.slots.set a (.live fresh), next⟩)
      | _ => none

/-- Destroy the object in a slot and put the slot at the head of the free list. -/
def deallocate (a : ℕ) (P : Pool V) : Option (Pool V) :=
  match P.slots[a]? with
  | some (.live _) => some ⟨P.slots.set a (.free P.freeList), some a⟩
  | _ => none

/-- The free list from `a` on. -/
inductive Chain (slots : List (Slot V)) : Option ℕ → List ℕ → Prop where
  | nil : Chain slots none []
  | cons {a : ℕ} {next : Option ℕ} {l : List ℕ} :
      slots[a]? = some (.free next) → Chain slots next l → Chain slots (some a) (a :: l)

/-- Every link of the free list is to a free slot. -/
theorem Chain.free {slots : List (Slot V)} {start : Option ℕ} {l : List ℕ}
    (h : Chain slots start l) : ∀ a ∈ l, ∃ next, slots[a]? = some (.free next) := by
  induction h with
  | nil => exact fun a ha => absurd ha List.not_mem_nil
  | cons hslot _ ih =>
    intro a ha
    rcases List.mem_cons.1 ha with heq | htail
    · subst heq
      exact ⟨_, hslot⟩
    · exact ih a htail

/-- A change of a slot that is not on the free list. -/
theorem Chain.set {slots : List (Slot V)} {start : Option ℕ} {l : List ℕ} (h : Chain slots start l)
    {a : ℕ} (ha : a ∉ l) (s : Slot V) : Chain (slots.set a s) start l := by
  induction h with
  | nil => exact .nil
  | @cons b next l hslot _ ih =>
    obtain ⟨hne, htail⟩ := not_or.1 (fun hor => ha (List.mem_cons.2 hor))
    refine .cons ?_ (ih htail)
    rw [List.getElem?_set_ne hne]
    exact hslot

theorem Chain.append {slots : List (Slot V)} {start : Option ℕ} {l : List ℕ}
    (h : Chain slots start l) (s : Slot V) : Chain (slots ++ [s]) start l := by
  induction h with
  | nil => exact .nil
  | cons hslot _ ih =>
    refine .cons ?_ ih
    rw [List.getElem?_append_left (List.getElem?_eq_some_iff.1 hslot).1]
    exact hslot

/-- The slots of `owned` hold objects, and the free list runs through all the others, once each. -/
structure Sound (P : Pool V) (owned : Finset ℕ) : Prop where
  live : ∀ a ∈ owned, ∃ v, P.slots[a]? = some (.live v)
  chain : ∃ l, Chain P.slots P.freeList l ∧ l.Nodup ∧ ∀ a, a ∈ l ↔ a < P.slots.length ∧ a ∉ owned

theorem sound_empty : Sound ({} : Pool V) ∅ where
  live a ha := absurd ha (Finset.notMem_empty a)
  chain := ⟨[], .nil, List.nodup_nil, fun a => by simp⟩

namespace Sound

variable {P : Pool V} {owned : Finset ℕ} (h : Sound P owned)

include h

theorem lt_length {a : ℕ} (ha : a ∈ owned) : a < P.slots.length := by
  obtain ⟨v, hv⟩ := h.live a ha
  exact (List.getElem?_eq_some_iff.1 hv).1

theorem read {a : ℕ} (ha : a ∈ owned) : ∃ v, P.read a = some v := by
  obtain ⟨v, hv⟩ := h.live a ha
  exact ⟨v, by rw [Pool.read, hv]⟩

/-- At least the owned slots are there. -/
theorem card_le : owned.card ≤ P.slots.length := by
  have hsub : owned ⊆ Finset.range P.slots.length := fun a ha => Finset.mem_range.2 (h.lt_length ha)
  have hcard := Finset.card_le_card hsub
  rwa [Finset.card_range] at hcard

/-- With a free slot, there are more. -/
theorem card_lt {a : ℕ} (hlt : a < P.slots.length) (ha : a ∉ owned) :
    owned.card < P.slots.length := by
  have hsub : owned ⊂ Finset.range P.slots.length :=
    ⟨fun b hb => Finset.mem_range.2 (h.lt_length hb), fun hall => ha (hall (Finset.mem_range.2 hlt))⟩
  have hcard := Finset.card_lt_card hsub
  rwa [Finset.card_range] at hcard

/-- An allocation succeeds with a slot nobody owns, and obtains storage only when every slot is
owned. -/
theorem allocate (fresh : V) :
    ∃ a P', P.allocate fresh = some (a, P') ∧ a ∉ owned ∧ Sound P' (insert a owned) ∧
      P'.read a = some fresh ∧ (∀ b ∈ owned, P'.read b = P.read b) ∧
      P'.slots.length = max P.slots.length (owned.card + 1) := by
  obtain ⟨l, hchain, hnodup, hmem⟩ := h.chain
  cases hfree : P.freeList with
  | none =>
    rw [hfree] at hchain
    cases hchain
    -- No free slot: the owned ones are all there are.
    have hall : owned = Finset.range P.slots.length := by
      ext b
      rw [Finset.mem_range]
      refine ⟨h.lt_length, fun hb => ?_⟩
      by_contra hnot
      exact List.not_mem_nil ((hmem b).2 ⟨hb, hnot⟩)
    have hnew : P.slots.length ∉ owned := fun hin => absurd (h.lt_length hin) (lt_irrefl _)
    refine ⟨P.slots.length, _, by rw [Pool.allocate, hfree], hnew, ⟨?_, [], ?_, List.nodup_nil, ?_⟩,
      ?_, ?_, ?_⟩
    · intro b hb
      rcases Finset.mem_insert.1 hb with heq | hold
      · subst heq
        exact ⟨fresh, by simp⟩
      · rw [List.getElem?_append_left (h.lt_length hold)]
        exact h.live b hold
    · exact .nil
    · intro b
      refine iff_of_false List.not_mem_nil fun hb => hb.2 (Finset.mem_insert.2 ?_)
      have hlt : b < P.slots.length + 1 := by simpa using hb.1
      rcases Nat.lt_succ_iff_lt_or_eq.1 hlt with hlt' | heq
      · rw [hall]
        exact .inr (Finset.mem_range.2 hlt')
      · exact .inl heq
    · simp [Pool.read]
    · intro b hb
      simp only [Pool.read, List.getElem?_append_left (h.lt_length hb)]
    · rw [hall, Finset.card_range]
      simp
  | some a =>
    rw [hfree] at hchain
    cases hchain with
    | @cons _ next l hslot htail =>
      obtain ⟨hlt, ha⟩ := (hmem a).1 List.mem_cons_self
      obtain ⟨hal, hnodup'⟩ := List.nodup_cons.1 hnodup
      have hread : ∀ b ∈ owned, (P.slots.set a (.live fresh))[b]? = P.slots[b]? := fun b hb =>
        List.getElem?_set_ne fun heq : a = b => ha (heq.symm ▸ hb)
      refine ⟨a, ⟨P.slots.set a (.live fresh), next⟩, by simp only [Pool.allocate, hfree, hslot], ha,
        ⟨?_, l, htail.set hal _, hnodup', ?_⟩, ?_, ?_, ?_⟩
      · intro b hb
        rcases Finset.mem_insert.1 hb with heq | hold
        · subst heq
          exact ⟨fresh, List.getElem?_set_self hlt⟩
        · rw [hread b hold]
          exact h.live b hold
      · intro b
        rw [List.length_set, Finset.mem_insert, not_or]
        constructor
        · intro hb
          obtain ⟨hblt, hbo⟩ := (hmem b).1 (List.mem_cons_of_mem _ hb)
          exact ⟨hblt, fun heq => hal (heq ▸ hb), hbo⟩
        · rintro ⟨hblt, hne, hbo⟩
          exact (List.mem_cons.1 ((hmem b).2 ⟨hblt, hbo⟩)).resolve_left hne
      · simp only [Pool.read, List.getElem?_set_self hlt]
      · intro b hb
        simp only [Pool.read, hread b hb]
      · have hcard := h.card_lt hlt ha
        rw [List.length_set, Nat.max_eq_left (by omega)]

/-- A deallocation of an owned slot succeeds and makes it the first to be used again. -/
theorem deallocate {a : ℕ} (ha : a ∈ owned) :
    ∃ P', P.deallocate a = some P' ∧ Sound P' (owned.erase a) ∧
      (∀ b ∈ owned.erase a, P'.read b = P.read b) ∧ P'.slots.length = P.slots.length := by
  obtain ⟨v, hv⟩ := h.live a ha
  obtain ⟨l, hchain, hnodup, hmem⟩ := h.chain
  have hlt := h.lt_length ha
  have hal : a ∉ l := fun hin => ((hmem a).1 hin).2 ha
  have hread : ∀ b ∈ owned.erase a, (P.slots.set a (.free P.freeList))[b]? = P.slots[b]? :=
    fun b hb => List.getElem?_set_ne fun heq : a = b => (Finset.mem_erase.1 hb).1 heq.symm
  refine ⟨⟨P.slots.set a (.free P.freeList), some a⟩, by simp only [Pool.deallocate, hv],
    ⟨?_, a :: l, ?_, List.nodup_cons.2 ⟨hal, hnodup⟩, ?_⟩, ?_, List.length_set⟩
  · intro b hb
    rw [hread b hb]
    exact h.live b (Finset.mem_of_mem_erase hb)
  · exact .cons (List.getElem?_set_self hlt) (hchain.set hal _)
  · intro b
    rw [List.length_set, List.mem_cons, hmem, Finset.mem_erase, not_and_or, not_not]
    constructor
    · rintro (heq | ⟨hblt, hbo⟩)
      · subst heq
        exact ⟨hlt, .inl rfl⟩
      · exact ⟨hblt, .inr hbo⟩
    · rintro ⟨hblt, heq | hbo⟩
      · exact .inl heq
      · exact .inr ⟨hblt, hbo⟩
  · intro b hb
    simp only [Pool.read, hread b hb]

/-- A write to an owned slot succeeds and changes no other. -/
theorem write {a : ℕ} (ha : a ∈ owned) (v : V) :
    ∃ P', P.write a v = some P' ∧ Sound P' owned ∧ P'.read a = some v ∧
      (∀ b ∈ owned, b ≠ a → P'.read b = P.read b) ∧ P'.slots.length = P.slots.length := by
  obtain ⟨u, hu⟩ := h.live a ha
  obtain ⟨l, hchain, hnodup, hmem⟩ := h.chain
  have hlt := h.lt_length ha
  have hal : a ∉ l := fun hin => ((hmem a).1 hin).2 ha
  refine ⟨{ P with slots := P.slots.set a (.live v) }, by simp only [Pool.write, hu],
    ⟨?_, l, hchain.set hal _, hnodup, ?_⟩, ?_, ?_, List.length_set⟩
  · intro b hb
    by_cases hba : b = a
    · subst hba
      exact ⟨v, List.getElem?_set_self hlt⟩
    · rw [List.getElem?_set_ne (Ne.symm hba)]
      exact h.live b hb
  · intro b
    rw [List.length_set]
    exact hmem b
  · simp only [Pool.read, List.getElem?_set_self hlt]
  · intro b _ hba
    simp only [Pool.read, List.getElem?_set_ne (Ne.symm hba)]

end Sound

end Pool

end SlotPool
