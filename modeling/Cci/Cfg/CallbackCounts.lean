import Cci.Cfg.CallbackHolders
import Cci.Cfg.Registrations

/-!
# Reference counts of callback objects

`m_refcnt` is adjusted by hand in the constructors, `reset`, `clone` and the adapter.  A clone of an
adapter makes a clone of its `m_func`, which has a holder from its construction, and acquires it once
more.

* `CallbackSystem.holderCount` — the variables, entries and adapters that hold an object;
* `Exact` — each object counts its holders, and is there as long as it has one;
* `CallbackSystem.copiesAdapter` — a copy of a `cci_callback` that holds an adapter;
* `refcounts_exact` — along which runs the counts are exact.
-/

namespace Cci

open RefCount Bindings

/-! ### Holders -/

namespace CallbackSystem

/-- How many `cci_callback` objects, handles (variables and entries of the lists) and adapters hold
the object at `a`. -/
def holderCount (s : CallbackSystem) (a : ℕ) : ℕ :=
  s.holders.entries.countP (fun x => x.2 == some a) +
    ∑ k, (s.vec k).countP (fun e => e.callback == some a) +
      s.memory.entries.countP fun x => x.2.item.mFunc == some a

/-- A variable holds a `callback_generic_adapt`. -/
def holdsAdapter (s : CallbackSystem) (x : CallbackHolder) : Bool :=
  match s.mCb x with
  | some c =>
    match item? s.memory c with
    | some (.genericAdapt _ _) => true
    | _ => false
  | none => false

/-- The command is a copy of a `cci_callback` that holds an adapter. -/
def copiesAdapter (s : CallbackSystem) : CallbackCommand → Bool
  | .copyCallback _ w _ _ => s.holdsAdapter (.callback w)
  | _ => false

/-- The state after a sequence of commands. -/
def run (s : CallbackSystem) (cs : List CallbackCommand) : CallbackSystem := cs.foldl exec s

/-- The commands can be issued one after the other. -/
def AllowedRun (s : CallbackSystem) : List CallbackCommand → Prop
  | [] => True
  | c :: cs => s.Allowed c ∧ (s.exec c).AllowedRun cs

/-- None of them copies a callback that holds an adapter. -/
def NeverCopiesAdapter (s : CallbackSystem) : List CallbackCommand → Prop
  | [] => True
  | c :: cs => s.copiesAdapter c = false ∧ (s.exec c).NeverCopiesAdapter cs

end CallbackSystem

/-- `m_refcnt` of each object is the number of its holders, and the object is there exactly as long as
it has a holder. -/
structure Exact (s : CallbackSystem) : Prop where
  count : ∀ a x, s.memory.lookup a = some x → x.count = s.holderCount a
  live_iff : ∀ a, a ∈ s.memory ↔ 0 < s.holderCount a

/-! ### References and holders -/

theorem pointers_add (H H' : Multiset (Option ℕ × CallbackHandle)) :
    pointers (H + H') = pointers H + pointers H' := Multiset.filterMap_add _ H H'

theorem pointers_sum (f : CallbackKind → Multiset (Option ℕ × CallbackHandle)) :
    pointers (∑ k, f k) = ∑ k, pointers (f k) :=
  map_sum (⟨⟨pointers, rfl⟩, pointers_add⟩ : Multiset _ →+ Multiset ℕ) f Finset.univ

theorem count_pointers (l : List (Option ℕ × CallbackHandle)) (a : ℕ) :
    (pointers ↑l).count a = l.countP fun x => x.1 == some a := by
  show (↑(l.filterMap Prod.fst) : Multiset ℕ).count a = _
  rw [Multiset.coe_count, List.count_filterMap]

variable {T : Type}

namespace Related

variable {s : CallbackSystem} {t : CallbackClient T} {E : EntryPairs}
  {L : Multiset (Option ℕ × CallbackHandle)}

/-- The references that are not lost are the holders. -/
theorem count_holders (h : Related s t E L) (a : ℕ) :
    (pointers (∑ k, listed (E k) + readings s.holders t.denotes) +
      inner CallbackObject.mFunc s.memory).count a = s.holderCount a := by
  have hvariables : (pointers (readings s.holders t.denotes)).count a =
      s.holders.entries.countP fun x => x.2 == some a := by
    show (pointers ↑(s.holders.entries.map fun x => (x.2, t.denotes x.1))).count a = _
    rw [count_pointers, List.countP_map]
    rfl
  have hentries : ∀ k, (pointers (listed (E k))).count a =
      (s.vec k).countP fun e => e.callback == some a := by
    intro k
    rw [listed, count_pointers, h.vec, List.countP_map, List.countP_map]
    rfl
  rw [pointers_add, pointers_sum, Multiset.count_add, Multiset.count_add, Multiset.count_sum',
    count_inner, hvariables, CallbackSystem.holderCount]
  simp only [hentries]
  omega

/-- The counts are exact as long as no reference is lost. -/
theorem exact_iff (h : Related s t E L) : Exact s ↔ pointers L = 0 := by
  have hbal : Balanced CallbackObject.mFunc s.memory
      (pointers (∑ k, listed (E k) + readings s.holders t.denotes) + pointers L) := by
    rw [← pointers_add]
    exact h.sound.balanced
  have hcounts := hbal.exact_iff
  simp only [h.count_holders] at hcounts
  constructor
  · intro hexact
    exact hcounts.1 hexact.count
  · intro hL
    refine ⟨hcounts.2 hL, fun a => ?_⟩
    rw [hL, add_zero] at hbal
    rw [hbal.mem_iff, h.count_holders]

/-- Copies of adapters lose a reference, and nothing else does. -/
theorem lost_iff (h : Related s t E L) {c : CallbackCommand} (hc : s.Allowed c) :
    pointers (t.lost c) = 0 ↔ s.copiesAdapter c = false := by
  cases c with
  | copyCallback v w a b =>
    have hsees := h.sees hc.2.1
    rw [CallbackClient.lost, CallbackSystem.copiesAdapter, CallbackSystem.holdsAdapter]
    cases hp : s.mCb (.callback w) with
    | none =>
      rw [hp] at hsees
      rw [hsees.eq_none]
      exact iff_of_true rfl rfl
    | some d =>
      rw [hp] at hsees
      obtain ⟨held, hd⟩ := hsees.exists_held
      rw [hd] at hsees ⊢
      show pointers (held.lost t.nextId b) = 0 ↔ (match item? s.memory d with
        | some (.genericAdapt _ _) => true
        | _ => false) = false
      cases hsees with
      | impl hitem =>
        rw [hitem]
        exact iff_of_true rfl rfl
      | adapt hitem =>
        rw [hitem]
        exact iff_of_false (Multiset.singleton_ne_zero b) Bool.false_ne_true.symm
  | _ => exact iff_of_true rfl rfl

/-- After a run the references lost are those of the copies of adapters in it. -/
theorem run (h : Related s t E L) {cs : List CallbackCommand} (hcs : s.AllowedRun cs) :
    ∃ t' : CallbackClient T, ∃ E' L', Related (s.run cs) t' E' L' ∧
      (pointers L' = 0 ↔ s.NeverCopiesAdapter cs ∧ pointers L = 0) := by
  induction cs generalizing s t E L with
  | nil => exact ⟨t, E, L, h, (and_iff_right trivial).symm⟩
  | cons c cs ih =>
    obtain ⟨hc, hrest⟩ := hcs
    obtain ⟨E₁, h₁⟩ := h.exec hc
    obtain ⟨t', E', L', h', hlost⟩ := ih h₁ hrest
    refine ⟨t', E', L', h', ?_⟩
    rw [hlost, pointers_add, add_eq_zero, h.lost_iff hc, CallbackSystem.NeverCopiesAdapter,
      and_left_comm, and_assoc]

end Related

/-- **Reference counts.**  From an empty memory, after any run of commands, `m_refcnt` of every
object is the number of its holders, and there are no objects without one, exactly if the run
never copied a `cci_callback` that held an adapter. -/
theorem refcounts_exact {cs : List CallbackCommand} (hcs : CallbackSystem.AllowedRun {} cs) :
    Exact (CallbackSystem.run {} cs) ↔ CallbackSystem.NeverCopiesAdapter {} cs := by
  obtain ⟨t, E, L, h, hlost⟩ := (Related.start (q := freshParam) fun _ => rfl).run hcs
  rw [h.exact_iff, hlost]
  exact and_iff_left rfl

/-- The signature of an untyped post-write callback, and that of a typed one. -/
def untypedPostWrite : Signature := ⟨.writeEvent none, .void⟩
def typedPostWrite : Signature := CallbackKind.postWrite.signature 0

/-- An untyped callback is generalized; the adapter gets a handle, and the callback a handle of the
type through another adapter. -/
def handledRun : List CallbackCommand :=
  [.construct 0 untypedPostWrite 1, .generalise 1 0 typedPostWrite 2, .copyHandle 0 (.callback 1),
    .copyHandle 1 (.callback 0), .typedHandle 2 1 typedPostWrite 3, .destroy (.callback 1)]

theorem handledRun_allowed : CallbackSystem.AllowedRun {} handledRun :=
  ⟨⟨by decide, by decide⟩,
    ⟨by decide, by decide, by decide, 1, untypedPostWrite, rfl, rfl, rfl, rfl, rfl⟩,
    ⟨by decide, by decide⟩, ⟨by decide, by decide⟩, ⟨by decide, by decide, by decide⟩,
    (by decide : CallbackHolder.callback 1 ∈ _), trivial⟩

theorem refcounts_exact_handled : Exact (CallbackSystem.run {} handledRun) :=
  (refcounts_exact handledRun_allowed).2 ⟨rfl, rfl, rfl, rfl, rfl, rfl, trivial⟩

/-- A generalized callback is copied, and all callbacks end. -/
def copiedRun : List CallbackCommand :=
  [.construct 0 untypedPostWrite 1, .generalise 1 0 typedPostWrite 2, .copyCallback 2 1 3 4,
    .destroy (.callback 0), .destroy (.callback 1), .destroy (.callback 2)]

theorem copiedRun_allowed : CallbackSystem.AllowedRun {} copiedRun :=
  ⟨⟨by decide, by decide⟩,
    ⟨by decide, by decide, by decide, 1, untypedPostWrite, rfl, rfl, rfl, rfl, rfl⟩,
    ⟨by decide, by decide, by decide, by decide, by decide⟩,
    (by decide : CallbackHolder.callback 0 ∈ _), (by decide : CallbackHolder.callback 1 ∈ _),
    (by decide : CallbackHolder.callback 2 ∈ _), trivial⟩

/-- The clone of the untyped callback is never deleted. -/
theorem adapter_copy_leaks :
    ¬∀ cs, CallbackSystem.AllowedRun {} cs → Exact (CallbackSystem.run {} cs) := by
  intro h
  have hexact := h copiedRun copiedRun_allowed
  have hlive : 4 ∈ (CallbackSystem.run {} copiedRun).memory := by decide
  have hnone : (CallbackSystem.run {} copiedRun).holderCount 4 = 0 := by decide
  have hpos := (hexact.live_iff 4).1 hlive
  omega

end Cci
