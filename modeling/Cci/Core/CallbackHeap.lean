import Cci.Core.Callback
import Cci.Lib.RefCount

/-!
# Callback objects in memory

`cci_callback` and the handles hold pointers to counted objects: a `callback_impl` around the
functor, or a `callback_generic_adapt` that holds a `callback_impl` of the untyped signature.  The
address of a deleted object may be given to a later one.

* `CallbackObject`, `acquirePtr`, `releasePtr`, `getPtr` — the objects and their virtual functions;
* `convertPtr`, `typedHandlePtr`, `cloneObject` — recovery of a type, and copies of a callback;
* `Sees` — the callback to which a pointer leads;
* `Sound` — some pointers lead to callbacks and account for the counts; a lemma for each operation.
-/

namespace Cci

open RefCount

/-- An object behind a callback: a `callback_impl`, with the number of its construction, which is
never given again, or a `callback_generic_adapt` with its `m_func`. -/
inductive CallbackObject where
  | callbackImpl (id : ℕ) (sig : Signature)
  | genericAdapt (sig : Signature) (mFunc : ℕ)
deriving DecidableEq, Repr

namespace CallbackObject

/-- The signature of the `callback_typed_if` that the object implements. -/
def sig : CallbackObject → Signature
  | .callbackImpl _ s => s
  | .genericAdapt s _ => s

def mFunc : CallbackObject → Option ℕ
  | .callbackImpl _ _ => none
  | .genericAdapt _ f => some f

end CallbackObject

abbrev CallbackMemory := Memory CallbackObject

/-! ### Operations -/

/-- `if (m_cb) m_cb->acquire()`. -/
def acquirePtr (p : Option ℕ) (m : CallbackMemory) : CallbackMemory :=
  match p with
  | some a => acquire m a
  | none => m

/-- `if (m_cb) m_cb->release()`. -/
def releasePtr (p : Option ℕ) (m : CallbackMemory) : CallbackMemory :=
  match p with
  | some a => release CallbackObject.mFunc m a
  | none => m

/-- `get()`: an adapter asks its `m_func`. -/
def getPtr (p : Option ℕ) (m : CallbackMemory) : Option ℕ := p.map (root CallbackObject.mFunc m)

/-- The signature that `dynamic_cast` finds. -/
def sigAt (m : CallbackMemory) (a : ℕ) : Option Signature := (item? m a).map CallbackObject.sig

/-- `new callback_generic_adapt(f)`, placed at `a`. -/
def newAdapt (s : Signature) (a f : ℕ) (m : CallbackMemory) : CallbackMemory :=
  alloc (acquire m f) a (.genericAdapt s f)

/-- `callback_generic_adapt<traits>::convert(f)`. -/
def convertPtr (s : Signature) (a : ℕ) (f : Option ℕ) (m : CallbackMemory) :
    Option ℕ × CallbackMemory :=
  match s.arg.genericType, f with
  | some g, some f => if sigAt m f = some ⟨g, s.result⟩ then (some a, newAdapt s a f m) else (none, m)
  | _, _ => (none, m)

/-- `cci_callback_typed_handle(const cci_callback_untyped_handle&)`: the pointer of the new handle.
The base class is copied, and reset to the adapter where one is made. -/
def typedHandlePtr (s : Signature) (a : ℕ) (p : Option ℕ) (m : CallbackMemory) :
    Option ℕ × CallbackMemory :=
  match p with
  | none => (none, m)
  | some b =>
    let m' := acquirePtr p m
    if sigAt m' b = some s then (p, m')
    else
      let r := convertPtr s a (getPtr p m') m'
      (r.1, releasePtr r.1 (acquirePtr r.1 (releasePtr p r.2)))

/-- `callback_impl::clone()`, placed at `a`. -/
def cloneImpl (id a f : ℕ) (m : CallbackMemory) : CallbackMemory :=
  match item? m f with
  | some (.callbackImpl _ s) => alloc m a (.callbackImpl id s)
  | _ => m

/-- `clone()`, placed at `a`: an adapter makes one for the clone of its `m_func`, placed at `b`. -/
def cloneObject (id a b c : ℕ) (m : CallbackMemory) : CallbackMemory :=
  match item? m c with
  | some (.genericAdapt s f) => newAdapt s a b (cloneImpl id b f m)
  | _ => cloneImpl id a c m

/-- What the clone of a callback denotes, if `n` is the number of its construction. -/
def Held.clone (n : ℕ) : Held → Held
  | .impl f => .impl ⟨n, f.sig⟩
  | .adapt f t => .adapt ⟨n, f.sig⟩ t

/-- The untyped form of an event has none itself. -/
theorem ArgType.genericType_of_eq_some {x g : ArgType} (h : x.genericType = some g) :
    g.genericType = none := by
  rcases x with (_ | _) | (_ | _) | _ <;> cases h <;> rfl

/-! ### What a pointer leads to -/

/-- The pointer leads to the callback; the address in `CallbackImpl` stands for the number of the
construction. -/
inductive Sees (m : CallbackMemory) : Option ℕ → CallbackHandle → Prop
  | null : Sees m none none
  | impl {a id : ℕ} {s : Signature} : item? m a = some (.callbackImpl id s) →
      Sees m (some a) (some (.impl ⟨id, s⟩))
  | adapt {a f id : ℕ} {s t : Signature} : item? m a = some (.genericAdapt t f) →
      item? m f = some (.callbackImpl id s) → t.arg.genericType = some s.arg →
      Sees m (some a) (some (.adapt ⟨id, s⟩ t))

/-- The addresses among some pointers. -/
def pointers (H : Multiset (Option ℕ × CallbackHandle)) : Multiset ℕ := H.filterMap Prod.fst

theorem pointers_cons (p : Option ℕ) (v : CallbackHandle)
    (H : Multiset (Option ℕ × CallbackHandle)) :
    pointers ((p, v) ::ₘ H) = single p + pointers H := by
  rw [pointers, Multiset.filterMap_cons]
  cases p <;> rfl

/-- The pointers of `H` lead where they are said to, and account for the counts, and no two
`callback_impl` objects have the same number, all below `n`. -/
structure Sound (m : CallbackMemory) (n : ℕ) (H : Multiset (Option ℕ × CallbackHandle)) : Prop where
  balanced : Balanced CallbackObject.mFunc m (pointers H)
  sees : ∀ x ∈ H, Sees m x.1 x.2
  below : ∀ a id s, item? m a = some (.callbackImpl id s) → id < n
  distinct : ∀ a b id s t, item? m a = some (.callbackImpl id s) →
    item? m b = some (.callbackImpl id t) → a = b

/-- The reference that nobody has after a clone. -/
def Held.lost (n b : ℕ) : Held → Multiset (Option ℕ × CallbackHandle)
  | .impl _ => 0
  | .adapt f _ => {(some b, some (.impl ⟨n, f.sig⟩))}

namespace Sees

variable {m m' : CallbackMemory} {p : Option ℕ} {v : CallbackHandle}

theorem mono (h : Sees m p v) (hm : Within m m') : Sees m' p v := by
  cases h with
  | null => exact .null
  | impl ha => exact .impl (hm _ _ ha)
  | adapt ha hf hg => exact .adapt (hm _ _ ha) (hm _ _ hf) hg

/-- A pointer that still counts leads where it did, whatever was deleted. -/
theorem of_within (h : Sees m p v) (hm : Within m' m) {R : Multiset ℕ}
    (hbal : Balanced CallbackObject.mFunc m' R) (hp : ∀ a, p = some a → a ∈ R) : Sees m' p v := by
  have hstays : ∀ {a : ℕ} {i : CallbackObject}, item? m a = some i →
      (∃ j, item? m' a = some j) → item? m' a = some i := by
    rintro a i ha ⟨j, hj⟩
    rw [hj, ← hm a j hj, ha]
  cases h with
  | null => exact .null
  | impl ha => exact .impl (hstays ha (hbal.live (hp _ rfl)))
  | adapt ha hf hg =>
    have ha' := hstays ha (hbal.live (hp _ rfl))
    exact .adapt ha' (hstays hf (hbal.live_owned ha' rfl)) hg

theorem exists_held {a : ℕ} (h : Sees m (some a) v) : ∃ held, v = some held := by
  cases h with
  | impl => exact ⟨_, rfl⟩
  | adapt => exact ⟨_, rfl⟩

theorem eq_none (h : Sees m none v) : v = none := by
  cases h
  rfl

/-- `get()` finds the `callback_impl` itself. -/
theorem getPtr_eq (h : Sees m p v) : (p = none ∧ v = none) ∨ ∃ f held, v = some held ∧
    getPtr p m = some f ∧ item? m f = some (.callbackImpl held.get.addr held.get.sig) := by
  cases h with
  | null => exact .inl ⟨rfl, rfl⟩
  | impl ha =>
    refine .inr ⟨_, _, rfl, ?_, ha⟩
    rw [getPtr, Option.map_some, root_of_owns_none (by rw [ha]; rfl)]
  | adapt ha hf =>
    refine .inr ⟨_, _, rfl, ?_, hf⟩
    rw [getPtr, Option.map_some, root_of_owns (by rw [ha]; rfl) (by rw [hf]; rfl)]

/-- What `dynamic_cast` finds is the signature of the held object. -/
theorem sigAt_eq {a : ℕ} {held : Held} (h : Sees m (some a) (some held)) :
    sigAt m a = some held.sig := by
  cases h with
  | impl ha => rw [sigAt, ha]; rfl
  | adapt ha => rw [sigAt, ha]; rfl

end Sees

/-! ### The operations keep it -/

namespace Sound

variable {m m' : CallbackMemory} {n : ℕ} {H : Multiset (Option ℕ × CallbackHandle)}
  {p : Option ℕ} {v : CallbackHandle}

theorem acquire (h : Sound m n H) (hp : Sees m p v) : Sound (acquirePtr p m) n ((p, v) ::ₘ H) := by
  have hsame : ∀ b, item? (acquirePtr p m) b = item? m b := by
    intro b
    cases p with
    | none => rfl
    | some a => exact item?_acquire m a b
  have hwithin : Within m (acquirePtr p m) := fun b j hj => (hsame b).trans hj
  refine ⟨?_, ?_, ?_, ?_⟩
  · rw [pointers_cons]
    cases hp with
    | null => exact (zero_add (pointers H)).symm ▸ h.balanced
    | impl ha => exact h.balanced.acquire ha
    | adapt ha => exact h.balanced.acquire ha
  · intro x hx
    rcases Multiset.mem_cons.1 hx with rfl | hx
    · exact hp.mono hwithin
    · exact (h.sees x hx).mono hwithin
  · intro a id s ha
    exact h.below a id s ((hsame a).symm.trans ha)
  · intro a b id s t ha hb
    exact h.distinct a b id s t ((hsame a).symm.trans ha) ((hsame b).symm.trans hb)

theorem release (h : Sound m n ((p, v) ::ₘ H)) : Sound (releasePtr p m) n H := by
  have hbal := h.balanced
  rw [pointers_cons] at hbal
  have hstep : Within (releasePtr p m) m ∧
      Balanced CallbackObject.mFunc (releasePtr p m) (pointers H) := by
    cases p with
    | none =>
      rw [single, zero_add] at hbal
      exact ⟨fun _ _ => id, hbal⟩
    | some a =>
      rw [single, Multiset.singleton_add] at hbal
      exact ⟨release_within m a, hbal.release⟩
  obtain ⟨hwithin, hbal'⟩ := hstep
  refine ⟨hbal', ?_, ?_, ?_⟩
  · intro x hx
    refine (h.sees x (Multiset.mem_cons_of_mem hx)).of_within hwithin hbal' fun a ha => ?_
    exact (Multiset.mem_filterMap _ _).2 ⟨x, hx, ha⟩
  · intro a id s ha
    exact h.below a id s (hwithin _ _ ha)
  · intro a b id s t ha hb
    exact h.distinct a b id s t (hwithin _ _ ha) (hwithin _ _ hb)

/-- A new `callback_impl` takes the next number. -/
theorem newImpl (h : Sound m n H) {a : ℕ} (ha : a ∉ m) (s : Signature) :
    Sound (alloc m a (.callbackImpl n s)) (n + 1) ((some a, some (.impl ⟨n, s⟩)) ::ₘ H) := by
  have hwithin := within_alloc ha (CallbackObject.callbackImpl n s)
  have hcases : ∀ {b id t}, item? (alloc m a (.callbackImpl n s)) b = some (.callbackImpl id t) →
      (b = a ∧ id = n) ∨ item? m b = some (.callbackImpl id t) := by
    intro b id t hb
    rw [alloc, item?_insert] at hb
    split at hb
    · rename_i hba
      cases hb
      exact .inl ⟨hba, rfl⟩
    · exact .inr hb
  refine ⟨?_, ?_, ?_, ?_⟩
  · rw [pointers_cons, single, Multiset.singleton_add]
    exact Balanced.alloc ((zero_add (pointers H)).symm ▸ h.balanced) ha
  · intro x hx
    rcases Multiset.mem_cons.1 hx with rfl | hx
    · exact .impl (by rw [alloc, item?_insert, if_pos rfl])
    · exact (h.sees x hx).mono hwithin
  · intro b id t hb
    rcases hcases hb with ⟨-, hid⟩ | hold
    · omega
    · have hlt := h.below b id t hold
      omega
  · intro b c id t u hb hc
    rcases hcases hb with ⟨hba, hid⟩ | hold
    · rcases hcases hc with ⟨hca, -⟩ | hold'
      · exact hba.trans hca.symm
      · have hlt := h.below c id u hold'
        omega
    · rcases hcases hc with ⟨-, hid⟩ | hold'
      · have hlt := h.below b id t hold
        omega
      · exact h.distinct b c id t u hold hold'

/-- A new adapter holds the callback it is for. -/
theorem newAdapt (h : Sound m n H) {a f id : ℕ} {s t : Signature} (ha : a ∉ m)
    (hf : item? m f = some (.callbackImpl id s)) (hg : t.arg.genericType = some s.arg) :
    Sound (newAdapt t a f m) n ((some a, some (.adapt ⟨id, s⟩ t)) ::ₘ H) := by
  have hacq := h.acquire (.impl hf)
  have ha' : a ∉ RefCount.acquire m f := by
    rw [notMem_iff, item?_acquire, ← notMem_iff]
    exact ha
  have hwithin := within_alloc ha' (CallbackObject.genericAdapt t f)
  have hold : ∀ {b id u}, item? (Cci.newAdapt t a f m) b = some (.callbackImpl id u) →
      item? m b = some (.callbackImpl id u) := by
    intro b id u hb
    rw [Cci.newAdapt, alloc, item?_insert, item?_acquire] at hb
    split at hb
    · cases hb
    · exact hb
  refine ⟨?_, ?_, ?_, ?_⟩
  · have hbal := hacq.balanced
    rw [pointers_cons] at hbal
    rw [pointers_cons, single, Multiset.singleton_add]
    exact Balanced.alloc hbal ha'
  · intro x hx
    rcases Multiset.mem_cons.1 hx with rfl | hx
    · refine .adapt (by rw [Cci.newAdapt, alloc, item?_insert, if_pos rfl]) ?_ hg
      exact hwithin _ _ ((item?_acquire m f f).trans hf)
    · exact (hacq.sees x (Multiset.mem_cons_of_mem hx)).mono hwithin
  · intro b id u hb
    exact h.below b id u (hold hb)
  · intro b c id u w hb hc
    exact h.distinct b c id u w (hold hb) (hold hc)

theorem null (h : Sound m n H) : Sound m n ((none, none) ::ₘ H) := h.acquire .null

/-- An untyped callback is wrapped, anything else is refused. -/
theorem convertPtr (h : Sound m n H) (hp : Sees m p v) {a : ℕ} (ha : a ∉ m) (s : Signature) :
    Sound (convertPtr s a (getPtr p m) m).2 n
      (((convertPtr s a (getPtr p m) m).1, genericAdaptConvert s v.get) ::ₘ H) := by
  rcases hp.getPtr_eq with ⟨rfl, rfl⟩ | ⟨f, held, rfl, hget, hf⟩
  · have hnull : Cci.convertPtr s a (getPtr none m) m = (none, m) := by
      unfold Cci.convertPtr
      cases s.arg.genericType <;> rfl
    have hnone : genericAdaptConvert s (CallbackHandle.get none) = none := by
      unfold genericAdaptConvert
      cases s.arg.genericType <;> rfl
    rw [hnull, hnone]
    exact h.null
  · have hsome : CallbackHandle.get (some held) = some held.get := rfl
    have hsig : sigAt m f = some held.get.sig := by
      rw [sigAt, hf]
      rfl
    rw [hget, hsome]
    unfold Cci.convertPtr genericAdaptConvert
    cases hg : s.arg.genericType with
    | none => exact h.null
    | some g =>
      simp only [hsig, Option.some.injEq]
      by_cases hmatch : held.get.sig = ⟨g, s.result⟩
      · have harg : s.arg.genericType = some held.get.sig.arg := by rw [hg, hmatch]
        rw [if_pos hmatch, if_pos hmatch]
        exact h.newAdapt ha hf harg
      · rw [if_neg hmatch, if_neg hmatch]
        exact h.null

/-- The recovered handle is the one that the value of the source says. -/
theorem typedHandle (h : Sound m n H) (hp : Sees m p v) {a : ℕ} (ha : a ∉ m) (s : Signature) :
    Sound (typedHandlePtr s a p m).2 n
      (((typedHandlePtr s a p m).1, cciCallbackTypedHandle s v) ::ₘ H) := by
  cases p with
  | none =>
    rw [hp.eq_none]
    exact h.null
  | some b =>
    obtain ⟨held, rfl⟩ := hp.exists_held
    have hacq := h.acquire hp
    have hsees := hacq.sees _ (Multiset.mem_cons_self _ _)
    have hsig := hsees.sigAt_eq
    have hvalid : CallbackHandle.validFor (some held) s = true ↔ held.sig = s := beq_iff_eq
    rw [cciCallbackTypedHandle]
    by_cases hs : held.sig = s
    · have hkept : typedHandlePtr s a (some b) m = (some b, acquirePtr (some b) m) := by
        unfold typedHandlePtr
        exact if_pos (hsig.trans (congrArg some hs))
      rw [hkept, if_pos (hvalid.2 hs)]
      exact hacq
    · have hreset : typedHandlePtr s a (some b) m =
          let r := Cci.convertPtr s a (getPtr (some b) (acquirePtr (some b) m)) (acquirePtr (some b) m)
          (r.1, releasePtr r.1 (acquirePtr r.1 (releasePtr (some b) r.2))) := by
        unfold typedHandlePtr
        exact if_neg fun h => hs (Option.some.inj (hsig.symm.trans h))
      have ha' : a ∉ acquirePtr (some b) m := by
        rw [notMem_iff, acquirePtr, item?_acquire, ← notMem_iff]
        exact ha
      rw [hreset, if_neg fun h => hs (hvalid.1 h)]
      have hmade := hacq.convertPtr hsees ha' s
      -- the copy of the base class is given up for the adapter
      rw [Multiset.cons_swap] at hmade
      have hfreed := hmade.release
      exact (hfreed.acquire (hfreed.sees _ (Multiset.mem_cons_self _ _))).release

/-- A clone is a callback of its own.  The one that an adapter makes of its `m_func` is created with
a holder and acquired by the new adapter, and nobody gives up the first reference. -/
theorem cloneObject (h : Sound m n H) {c : ℕ} {held : Held} (hp : Sees m (some c) (some held))
    {a b : ℕ} (ha : a ∉ m) (hb : b ∉ m) (hab : a ≠ b) :
    Sound (cloneObject n a b c m) (n + 1) ((some a, some (held.clone n)) ::ₘ (held.lost n b + H)) := by
  cases hp with
  | impl hc =>
    rw [Cci.cloneObject, hc, cloneImpl, hc, Held.lost, zero_add]
    exact h.newImpl ha _
  | @adapt _ f _ s t hc hf hg =>
    have hclone : Cci.cloneObject n a b c m =
        Cci.newAdapt t a b (alloc m b (.callbackImpl n s)) := by
      simp only [Cci.cloneObject, cloneImpl, hc, hf]
    have hfunc : item? (alloc m b (.callbackImpl n s)) b = some (.callbackImpl n s) := by
      rw [alloc, item?_insert, if_pos rfl]
    have ha' : a ∉ alloc m b (.callbackImpl n s) := by
      rw [notMem_iff, alloc, item?_insert, if_neg hab, ← notMem_iff]
      exact ha
    rw [hclone, Held.lost, Multiset.singleton_add]
    exact (h.newImpl hb s).newAdapt ha' hfunc hg

/-- `operator==` of two handles decides whether they denote one callback. -/
theorem getPtr_beq (h : Sound m n H) {q : Option ℕ} {w : CallbackHandle} (hp : Sees m p v)
    (hq : Sees m q w) : (getPtr p m == getPtr q m) = v.eq w := by
  rw [CallbackHandle.eq, Bool.eq_iff_iff, beq_iff_eq, beq_iff_eq]
  rcases hp.getPtr_eq with ⟨rfl, rfl⟩ | ⟨f, held, rfl, hpf, hf⟩
  · rcases hq.getPtr_eq with ⟨rfl, rfl⟩ | ⟨g, held', rfl, hqg, hg⟩
    · exact iff_of_true rfl rfl
    · rw [hqg]
      exact iff_of_false (Option.some_ne_none g).symm (Option.some_ne_none _).symm
  · rcases hq.getPtr_eq with ⟨rfl, rfl⟩ | ⟨g, held', rfl, hqg, hg⟩
    · rw [hpf]
      exact iff_of_false (Option.some_ne_none f) (Option.some_ne_none _)
    · rw [hpf, hqg, Option.some.injEq]
      show f = g ↔ some held.get.addr = some held'.get.addr
      rw [Option.some.injEq]
      constructor
      · rintro rfl
        rw [hf] at hg
        exact (CallbackObject.callbackImpl.inj (Option.some.inj hg)).1
      · intro hid
        rw [← hid] at hg
        exact h.distinct f g _ _ _ hf hg

/-- What a pointer leads to was constructed before. -/
theorem addr_lt (h : Sound m n H) {held : Held} (hp : Sees m p (some held)) : held.get.addr < n := by
  cases hp with
  | impl ha => exact h.below _ _ _ ha
  | adapt _ hf => exact h.below _ _ _ hf

end Sound

end Cci
