import Cci.Lib.EraseLoop
import Cci.Utils.ConsumingBroker

/-!
# The callback lists of a broker

A broker has two callback lists, for the creation and for the destruction of parameters, with the
same registration functions as the four lists of a parameter.

* `registerCallback`, `unregisterCallback`, `unregisterAllCallbacks`, `hasCallbacks` — one
  definition for the two lists;
* `RemovesExactly` — what removing one originator's callbacks means, for any family of lists;
* `unregister_all_exact` — when `unregister_all_callbacks` does that.
-/

namespace Cci

open EraseLoop

/-- The two callback lists of a broker. -/
inductive BrokerCallbackKind where
  | create | destroy
deriving DecidableEq, Repr

namespace ConsumingBroker

variable {P C : Type}

/-- `m_create_callbacks` or `m_destroy_callbacks`. -/
def callbackVec (b : ConsumingBroker P C) : BrokerCallbackKind → List BrokerCallbackObj
  | .create => b.mCreateCallbacks
  | .destroy => b.mDestroyCallbacks

def setCallbackVec (k : BrokerCallbackKind) (v : List BrokerCallbackObj)
    (b : ConsumingBroker P C) : ConsumingBroker P C :=
  match k with
  | .create => { b with mCreateCallbacks := v }
  | .destroy => { b with mDestroyCallbacks := v }

theorem callbackVec_setCallbackVec (b : ConsumingBroker P C) (k k' : BrokerCallbackKind)
    (v : List BrokerCallbackObj) :
    (b.setCallbackVec k v).callbackVec k' = if k' = k then v else b.callbackVec k' := by
  cases k <;> cases k' <;> rfl

/-- `register_<kind>_callback(cb, orig)`. -/
def registerCallback (k : BrokerCallbackKind) (cb : CallbackHandle) (orig : CciOriginator)
    (b : ConsumingBroker P C) : CallbackHandle × ConsumingBroker P C :=
  (cb, b.setCallbackVec k (b.callbackVec k ++ [⟨cb, orig⟩]))

/-- The test of `unregister_<kind>_callback`. -/
def matchesEntry (cb : CallbackHandle) (orig : CciOriginator) (e : BrokerCallbackObj) : Bool :=
  e.callback.eq cb && e.originator == orig

/-- `unregister_<kind>_callback(cb, orig)`: the first matching entry is erased. -/
def unregisterCallback (k : BrokerCallbackKind) (cb : CallbackHandle) (orig : CciOriginator)
    (b : ConsumingBroker P C) : Bool × ConsumingBroker P C :=
  if (b.callbackVec k).any (matchesEntry cb orig) then
    (true, b.setCallbackVec k ((b.callbackVec k).eraseP (matchesEntry cb orig)))
  else (false, b)

/-- One of the two loops of `unregister_all_callbacks`. -/
def unregisterAllOf (orig : CciOriginator) (k : BrokerCallbackKind) (b : ConsumingBroker P C) :
    Bool × ConsumingBroker P C :=
  let r := eraseLoop (fun e => e.originator == orig) (b.callbackVec k)
  (r.1, b.setCallbackVec k r.2)

/-- `unregister_all_callbacks(orig)`. -/
def unregisterAllCallbacks (orig : CciOriginator) (b : ConsumingBroker P C) :
    Bool × ConsumingBroker P C :=
  let r₁ := unregisterAllOf orig .create b
  let r₂ := unregisterAllOf orig .destroy r₁.2
  (r₁.1 || r₂.1, r₂.2)

/-- `has_callbacks()`. -/
def hasCallbacks (b : ConsumingBroker P C) : Bool :=
  !b.mCreateCallbacks.isEmpty || !b.mDestroyCallbacks.isEmpty

end ConsumingBroker

/-! ### Unregistering all callbacks of one originator -/

/-- Of a family of callback lists exactly the entries that are `mine` are gone, and the result tells
whether there were any. -/
structure RemovesExactly {ι E : Type} (mine : E → Bool) (before after : ι → List E)
    (result : Bool) : Prop where
  none_left : ∀ k, ∀ e ∈ after k, mine e = false
  others_kept : ∀ k, (after k).filter (fun e => !mine e) = (before k).filter fun e => !mine e
  truthful : result = true ↔ ∃ k, (after k).length < (before k).length

/-- No two neighbours in the list are both `mine`. -/
abbrev Apart {E : Type} (mine : E → Bool) (l : List E) : Prop :=
  l.IsChain fun a b => ¬(mine a = true ∧ mine b = true)

/-- The erasing loop over each list of a family removes exactly the entries that are `mine` if and
only if no two of these are neighbours. -/
theorem removesExactly_iff {ι E : Type} {mine : E → Bool} {before after : ι → List E}
    {result : Bool} (hafter : ∀ k, after k = (eraseLoop mine (before k)).2)
    (hresult : result = true ↔ ∃ k, (eraseLoop mine (before k)).1 = true) :
    RemovesExactly mine before after result ↔ ∀ k, Apart mine (before k) := by
  constructor
  · intro h k
    apply (eraseLoop_clears_iff (before k)).1
    rw [← hafter k]
    exact h.none_left k
  · intro h
    refine ⟨fun k => ?_, fun k => ?_, ?_⟩
    · rw [hafter k]
      exact (eraseLoop_clears_iff (before k)).2 (h k)
    · rw [hafter k]
      exact eraseLoop_others (before k)
    · simp only [hresult, eraseLoop_fst_iff, hafter]

namespace CciParamUntyped

variable {T : Type}

theorem eraseLoop_eq (orig : CciOriginator) (l : List CallbackObj) :
    eraseLoop orig l = EraseLoop.eraseLoop (fun e => e.originator == orig) l := by
  induction l using List.twoStepInduction with
  | nil => rfl
  | singleton a => cases h : a.originator == orig <;> simp [eraseLoop, EraseLoop.eraseLoop, h]
  | cons_cons a b l ih ihb =>
    cases h : a.originator == orig with
    | false =>
      rw [eraseLoop.eq_def, EraseLoop.eraseLoop.eq_def]
      simp only [h, Bool.false_eq_true, if_false, ihb b]
    | true =>
      rw [eraseLoop.eq_def, EraseLoop.eraseLoop.eq_def]
      simp only [h, if_true, ih]

theorem vec_unregisterAllOf (orig : CciOriginator) (k k' : CallbackKind) (q : CciParam T) :
    (unregisterAllOf orig k q).2.vec k' =
      if k' = k then (EraseLoop.eraseLoop (fun e => e.originator == orig) (q.vec k)).2
      else q.vec k' := by
  rw [unregisterAllOf, CciParam.vec_setVec, eraseLoop_eq]

/-- Each of the four loops works on its own list. -/
theorem vec_unregisterAllCallbacks (orig : CciOriginator) (q : CciParam T) (k : CallbackKind) :
    (unregisterAllCallbacks orig q).2.vec k =
      (EraseLoop.eraseLoop (fun e => e.originator == orig) (q.vec k)).2 := by
  cases k <;> simp [unregisterAllCallbacks, vec_unregisterAllOf]

theorem unregisterAllCallbacks_fst (orig : CciOriginator) (q : CciParam T) :
    (unregisterAllCallbacks orig q).1 = true ↔
      ∃ k, (EraseLoop.eraseLoop (fun e => e.originator == orig) (q.vec k)).1 = true := by
  have hfst : ∀ (k : CallbackKind) (q : CciParam T), (unregisterAllOf orig k q).1 =
      (EraseLoop.eraseLoop (fun e => e.originator == orig) (q.vec k)).1 := by
    intro k q
    rw [unregisterAllOf, eraseLoop_eq]
  simp only [unregisterAllCallbacks, hfst, vec_unregisterAllOf, Bool.or_eq_true]
  constructor
  · rintro (((h | h) | h) | h)
    · exact ⟨_, h⟩
    · exact ⟨_, h⟩
    · exact ⟨_, h⟩
    · exact ⟨_, h⟩
  · rintro ⟨k, h⟩
    cases k with
    | preWrite => exact .inl (.inl (.inl h))
    | postWrite => exact .inl (.inl (.inr h))
    | preRead => exact .inl (.inr h)
    | postRead => exact .inr h

end CciParamUntyped

namespace ConsumingBroker

variable {P C : Type}

theorem callbackVec_unregisterAllCallbacks (orig : CciOriginator) (b : ConsumingBroker P C)
    (k : BrokerCallbackKind) : (unregisterAllCallbacks orig b).2.callbackVec k =
      (eraseLoop (fun e => e.originator == orig) (b.callbackVec k)).2 := by
  cases k <;> rfl

theorem unregisterAllCallbacks_fst (orig : CciOriginator) (b : ConsumingBroker P C) :
    (unregisterAllCallbacks orig b).1 = true ↔
      ∃ k, (eraseLoop (fun e => e.originator == orig) (b.callbackVec k)).1 = true := by
  show ((eraseLoop _ b.mCreateCallbacks).1 || (eraseLoop _ b.mDestroyCallbacks).1) = true ↔ _
  rw [Bool.or_eq_true]
  constructor
  · rintro (h | h)
    · exact ⟨.create, h⟩
    · exact ⟨.destroy, h⟩
  · rintro ⟨k, h⟩
    cases k with
    | create => exact .inl h
    | destroy => exact .inr h

end ConsumingBroker

/-- **Unregistering all callbacks of an originator.**  On a parameter and on a broker alike it
removes exactly the entries of that originator if and only if no two of them are neighbours in one
list. -/
theorem unregister_all_exact (orig : CciOriginator) :
    (∀ (T : Type) (q : CciParam T),
      RemovesExactly (fun e : CallbackObj => e.originator == orig) q.vec
        (CciParamUntyped.unregisterAllCallbacks orig q).2.vec
        (CciParamUntyped.unregisterAllCallbacks orig q).1 ↔
      ∀ k, Apart (fun e : CallbackObj => e.originator == orig) (q.vec k)) ∧
    (∀ (P C : Type) (b : ConsumingBroker P C),
      RemovesExactly (fun e : BrokerCallbackObj => e.originator == orig) b.callbackVec
        (b.unregisterAllCallbacks orig).2.callbackVec (b.unregisterAllCallbacks orig).1 ↔
      ∀ k, Apart (fun e : BrokerCallbackObj => e.originator == orig) (b.callbackVec k)) := by
  constructor
  · intro T q
    exact removesExactly_iff (CciParamUntyped.vec_unregisterAllCallbacks orig q)
      (CciParamUntyped.unregisterAllCallbacks_fst orig q)
  · intro P C b
    exact removesExactly_iff (ConsumingBroker.callbackVec_unregisterAllCallbacks orig b)
      (ConsumingBroker.unregisterAllCallbacks_fst orig b)

/-- Of two callbacks an originator registered one after the other the second one stays. -/
theorem unregister_all_leaves_neighbour :
    ¬∀ (T : Type) (q : CciParam T) (orig : CciOriginator),
      RemovesExactly (fun e : CallbackObj => e.originator == orig) q.vec
        (CciParamUntyped.unregisterAllCallbacks orig q).2.vec
        (CciParamUntyped.unregisterAllCallbacks orig q).1 := by
  intro h
  let tool : CciOriginator := .named "tool"
  let f (addr : ℕ) : CallbackHandle := some (.impl ⟨addr, CallbackKind.signature .postWrite 0⟩)
  let q : CciParam ℕ := {
    mName := "top.p", mValue := 0, mDefaultValue := 0, mValueOrigin := .named "owner",
    mOriginator := .named "owner", this := 0,
    callbacks := fun k => if k = .postWrite then ⟨[⟨f 1, tool⟩, ⟨f 2, tool⟩], false⟩ else {} }
  have hleft := (h ℕ q tool).none_left .postWrite ⟨f 2, tool⟩
  have hmem : (⟨f 2, tool⟩ : CallbackObj) ∈
      (CciParamUntyped.unregisterAllCallbacks tool q).2.vec .postWrite := by decide +kernel
  have hno : ((tool == tool) : Bool) = false := hleft hmem
  rw [beq_self_eq_true] at hno
  cases hno

end Cci
