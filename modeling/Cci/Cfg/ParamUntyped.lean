import Cci.Cfg.Originator
import Cci.Core.Callback

/-!
# The parameter object and its type-independent operations

`CciParam T` is the state of a `cci_param_typed<T,TM>` object together with its
`cci_param_untyped` base.  The operations of this file are those of `cci_param_untyped` that need
neither the broker nor the callbacks: the lock, the four callback lists and their queries.

* `lock`, `unlock`, `isLocked` — the lock key; a NULL password stands for the parameter's own
  address;
* `registerCallback`, `unregisterCallback`, `unregisterAllCallbacks`, `hasCallbacks` — one
  definition for the four lists, which the source generates from one macro;
* the field lemmas: what each operation leaves alone.
-/

namespace Cci

/-- `cci_param_mutable_type`. -/
inductive CciParamMutableType where
  | mutableParam | immutableParam | otherMutability
deriving DecidableEq, Repr

/-- A `callback_obj`: the registered handle and who registered it. -/
structure CallbackObj where
  callback : CallbackHandle
  originator : CciOriginator
deriving DecidableEq, Repr

/-- A `callback_obj_vector`; `oncall` is set while the list is being dispatched. -/
structure CallbackObjVector where
  vec : List CallbackObj := []
  oncall : Bool := false
deriving DecidableEq, Repr

/-- A parameter object of value type `T`. -/
structure CciParam (T : Type) where
  mName : String
  mValue : T
  mDefaultValue : T
  mValueOrigin : CciOriginator
  mOriginator : CciOriginator
  mLockPwd : Option ℕ := none
  /-- The address of the object: the internal key of a lock without a password. -/
  this : ℕ
  callbacks : CallbackKind → CallbackObjVector := fun _ => {}
  fastRead : Bool := false
  fastWrite : Bool := false

namespace CciParam

variable {T : Type}

/-- `m_<kind>_callbacks.vec`. -/
def vec (q : CciParam T) (k : CallbackKind) : List CallbackObj := (q.callbacks k).vec

/-- `m_<kind>_callbacks.oncall`. -/
def oncall (q : CciParam T) (k : CallbackKind) : Bool := (q.callbacks k).oncall

def setVec (q : CciParam T) (k : CallbackKind) (v : List CallbackObj) : CciParam T :=
  { q with callbacks := Function.update q.callbacks k { q.callbacks k with vec := v } }

def setOncall (q : CciParam T) (k : CallbackKind) (b : Bool) : CciParam T :=
  { q with callbacks := Function.update q.callbacks k { q.callbacks k with oncall := b } }

theorem vec_setVec (q : CciParam T) (k k' : CallbackKind) (v : List CallbackObj) :
    (q.setVec k v).vec k' = if k' = k then v else q.vec k' := by
  by_cases h : k' = k
  · subst h; simp [setVec, vec]
  · simp [setVec, vec, h]

@[simp] theorem oncall_setVec (q : CciParam T) (k k' : CallbackKind) (v : List CallbackObj) :
    (q.setVec k v).oncall k' = q.oncall k' := by
  by_cases h : k' = k
  · subst h; simp [setVec, oncall]
  · simp [setVec, oncall, h]

theorem oncall_setOncall (q : CciParam T) (k k' : CallbackKind) (b : Bool) :
    (q.setOncall k b).oncall k' = if k' = k then b else q.oncall k' := by
  by_cases h : k' = k
  · subst h; simp [setOncall, oncall]
  · simp [setOncall, oncall, h]

@[simp] theorem vec_setOncall (q : CciParam T) (k k' : CallbackKind) (b : Bool) :
    (q.setOncall k b).vec k' = q.vec k' := by
  by_cases h : k' = k
  · subst h; simp [setOncall, vec]
  · simp [setOncall, vec, h]

/-- Setting a clear guard and clearing it again changes nothing. -/
theorem setOncall_setOncall (q : CciParam T) (k : CallbackKind) (h : q.oncall k = false) :
    (q.setOncall k true).setOncall k false = q := by
  have hk : ({ q.callbacks k with oncall := false } : CallbackObjVector) = q.callbacks k := by
    rw [← h]
    rfl
  simp only [setOncall, Function.update_self, Function.update_idem]
  rw [hk, Function.update_eq_self]

end CciParam

namespace CciParamUntyped

variable {T : Type}

/-! ### The lock -/

/-- `if (!pwd) pwd = this`. -/
def keyOf (q : CciParam T) (pwd : Option ℕ) : ℕ := pwd.getD q.this

/-- `cci_param_untyped::lock`. -/
def lock (pwd : Option ℕ) (q : CciParam T) : Bool × CciParam T :=
  if some (keyOf q pwd) ≠ q.mLockPwd ∧ q.mLockPwd ≠ none then (false, q)
  else (true, { q with mLockPwd := some (keyOf q pwd) })

/-- `cci_param_untyped::unlock`. -/
def unlock (pwd : Option ℕ) (q : CciParam T) : Bool × CciParam T :=
  if some (keyOf q pwd) = q.mLockPwd then (true, { q with mLockPwd := none }) else (false, q)

/-- `cci_param_untyped::is_locked`. -/
def isLocked (q : CciParam T) : Bool := q.mLockPwd.isSome

/-! ### The callback lists -/

/-- `register_<kind>_callback(cb, orig)`. -/
def registerCallback (k : CallbackKind) (cb : CallbackHandle) (orig : CciOriginator)
    (q : CciParam T) : CallbackHandle × CciParam T :=
  (cb, ({ q with fastRead := false, fastWrite := false } : CciParam T).setVec k
    (q.vec k ++ [⟨cb, orig⟩]))

/-- The test of `unregister_<kind>_callback`. -/
def matchesEntry (cb : CallbackHandle) (orig : CciOriginator) (e : CallbackObj) : Bool :=
  e.callback.eq cb && e.originator == orig

/-- `unregister_<kind>_callback(cb, orig)`: the first matching entry is erased. -/
def unregisterCallback (k : CallbackKind) (cb : CallbackHandle) (orig : CciOriginator)
    (q : CciParam T) : Bool × CciParam T :=
  if (q.vec k).any (matchesEntry cb orig) then
    (true, q.setVec k ((q.vec k).eraseP (matchesEntry cb orig)))
  else (false, q)

theorem vec_registerCallback (k k' : CallbackKind) (cb : CallbackHandle) (orig : CciOriginator)
    (q : CciParam T) : (registerCallback k cb orig q).2.vec k' =
      if k' = k then q.vec k ++ [⟨cb, orig⟩] else q.vec k' := by
  rw [registerCallback, CciParam.vec_setVec]
  rfl

theorem vec_unregisterCallback (k k' : CallbackKind) (cb : CallbackHandle) (orig : CciOriginator)
    (q : CciParam T) : (unregisterCallback k cb orig q).2.vec k' =
      if k' = k then (q.vec k).eraseP (matchesEntry cb orig) else q.vec k' := by
  unfold unregisterCallback
  split
  · rw [CciParam.vec_setVec]
  · rename_i hno
    have hnone : (q.vec k).eraseP (matchesEntry cb orig) = q.vec k :=
      List.eraseP_of_forall_not fun e he hhit => hno (List.any_eq_true.2 ⟨e, he, hhit⟩)
    rw [hnone]
    split
    · rename_i hk
      rw [hk]
    · rfl

/-- The loop of `unregister_all_callbacks` over one list, and whether it erased anything: after
`erase(it)` the iterator already stands on the next entry, which the `it++` of the loop then steps
over. -/
def eraseLoop (orig : CciOriginator) : List CallbackObj → Bool × List CallbackObj
  | [] => (false, [])
  | e :: es =>
      if e.originator == orig then
        match es with
        | [] => (true, [])
        | next :: rest => (true, next :: (eraseLoop orig rest).2)
      else ((eraseLoop orig es).1, e :: (eraseLoop orig es).2)

/-- One of the four loops of `unregister_all_callbacks`. -/
def unregisterAllOf (orig : CciOriginator) (k : CallbackKind) (q : CciParam T) :
    Bool × CciParam T :=
  ((eraseLoop orig (q.vec k)).1, q.setVec k (eraseLoop orig (q.vec k)).2)

/-- `unregister_all_callbacks(orig)`. -/
def unregisterAllCallbacks (orig : CciOriginator) (q : CciParam T) : Bool × CciParam T :=
  let r₁ := unregisterAllOf orig .preWrite q
  let r₂ := unregisterAllOf orig .postWrite r₁.2
  let r₃ := unregisterAllOf orig .preRead r₂.2
  let r₄ := unregisterAllOf orig .postRead r₃.2
  (r₁.1 || r₂.1 || r₃.1 || r₄.1, r₄.2)

/-- `has_callbacks()`. -/
def hasCallbacks (q : CciParam T) : Bool :=
  !(q.vec .postWrite).isEmpty || !(q.vec .preWrite).isEmpty

end CciParamUntyped

end Cci
