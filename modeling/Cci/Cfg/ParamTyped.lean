import Cci.Cfg.World

/-!
# Typed parameters

`cci_param_typed<T,TM>`: reading and writing the value with the dispatch of the four callback
lists, the preset, the reset and the lock.  Each definition follows the member function it is
named after; the body of a callback is a parameter (`Interp.call`), so that these definitions are
not recursive.

* `scopedTrue`, `preWriteCallback`, `postWriteCallback`, `preReadCallback`, `postReadCallback` —
  the guarded dispatch loops;
* `setRawValue`, `setValue`, `getRawValue`, `getValue`, `setCciValue`, `presetCciValue`, `reset` —
  the operations.  Those that write answer whether the write went through, which the source leaves
  to the error reports.
-/

namespace Cci

open Effect

variable {D : Design} {B : Type}

/-- What a callback body receives: the typed event, or the untyped one built by an adapter. -/
inductive Payload (D : Design) where
  | typed (p : D.Param) (ev : ParamEvent (D.Value p)) : Payload D
  | untyped (p : D.Param) (ev : ParamEvent D.CciValue) : Payload D

/-- How callback bodies run, and the fuel of the dispatch loops. -/
structure Interp (D : Design) (B : Type) where
  call : CallbackImpl → Payload D → CciM D B Bool
  fuel : ℕ

namespace CciParamTyped

/-! ### Invoking a callback -/

/-- `generic_wrap`: the untyped form of an event. -/
def genericWrap (p : D.Param) : ParamEvent (D.Value p) → CciM D B (ParamEvent D.CciValue)
  | .write oldValue newValue originator paramHandle => do
      let oldCci ← cciValueOf p oldValue
      let newCci ← cciValueOf p newValue
      pure (.write oldCci newCci originator paramHandle)
  | .read value originator paramHandle => do
      let cci ← cciValueOf p value
      pure (.read cci originator paramHandle)

/-- `callback_impl::invoke`, or `callback_generic_adapt::invoke` around it. -/
def invokeHeld (I : Interp D B) (p : D.Param) (k : CallbackKind) (entry : CallbackObj)
    (ev : ParamEvent (D.Value p)) : Held → CciM D B Bool
  | .impl f => do
      log (.invoked p k entry ev)
      I.call f (.typed p ev)
  | .adapt f _ => do
      let cciEv ← genericWrap p ev
      log (.invoked p k entry ev)
      I.call f (.untyped p cciEv)

/-- `cci_callback_typed_handle::invoke`: an invalid handle fails `sc_assert( m_cb )`. -/
def invokeTyped (I : Interp D B) (p : D.Param) (k : CallbackKind) (entry : CallbackObj)
    (ev : ParamEvent (D.Value p)) : CallbackHandle → CciM D B Bool
  | none => Eff.abort
  | some held => invokeHeld I p k entry ev held

/-- The typed handle a dispatch loop recovers from an entry of its list. -/
def typedHandle (p : D.Param) (k : CallbackKind) (entry : CallbackObj) : CallbackHandle :=
  cciCallbackTypedHandle (k.signature (D.typeId p)) entry.callback

/-! ### The dispatch loops -/

/-- The constructor of `scoped_true`, with the ghost stack. -/
def enterDispatch (p : D.Param) (k : CallbackKind) (w : World D B) : World D B :=
  { (w.setParam p ((w.param p).setOncall k true)).record (.dispatch p k w.stack) with
    stack := (p, k) :: w.stack }

/-- The destructor of `scoped_true`. -/
def leaveDispatch (p : D.Param) (k : CallbackKind) (w : World D B) : World D B :=
  { w.setParam p ((w.param p).setOncall k false) with stack := w.stack.tail }

/-- Run `m` under `scoped_true oncall( m_<kind>_callbacks.oncall )`. -/
def scopedTrue {α : Type} (p : D.Param) (k : CallbackKind) (m : CciM D B α) : CciM D B α := do
  Eff.modify (enterDispatch p k)
  Eff.finalizing (leaveDispatch p k) m

/-- `m_<kind>_callbacks.vec[i]`, in the current state. -/
def entryAt (p : D.Param) (k : CallbackKind) (w : World D B) (i : ℕ) : Option CallbackObj :=
  ((w.param p).vec k)[i]?

/-- A dispatch loop over `m_<kind>_callbacks` under its guard. -/
def dispatch {α : Type} (I : Interp D B) (p : D.Param) (k : CallbackKind)
    (act : CallbackObj → α → CciM D B α) (init : α) : CciM D B α :=
  scopedTrue p k (Eff.forEach (entryAt p k) act I.fuel 0 init)

/-- The body of the loop in `pre_write_callback`: there is no validity check before `invoke`. -/
def preWriteEntry (I : Interp D B) (p : D.Param) (value : D.Value p) (originator : CciOriginator)
    (entry : CallbackObj) (result : Bool) : CciM D B Bool := do
  let q ← getParam p
  let ev := .write q.mValue value originator entry.originator
  let accepted ← invokeTyped I p .preWrite entry ev (typedHandle p .preWrite entry)
  if accepted then pure result
  else
    reportError (setParamFailed "Value rejected by callback.")
    pure false

/-- `pre_write_callback`. -/
def preWriteCallback (I : Interp D B) (p : D.Param) (value : D.Value p)
    (originator : CciOriginator) : CciM D B Bool := do
  let q ← getParam p
  if q.oncall .preWrite then pure false
  else dispatch I p .preWrite (preWriteEntry I p value originator) true

/-- The body of the other three loops: `if (cb.valid()) cb.invoke(ev)`. -/
def observerEntry (I : Interp D B) (p : D.Param) (k : CallbackKind)
    (mkEvent : CciParam (D.Value p) → CallbackObj → ParamEvent (D.Value p))
    (entry : CallbackObj) (_ : Unit) : CciM D B Unit := do
  if (typedHandle p k entry).isSome then
    let q ← getParam p
    let _ ← invokeTyped I p k entry (mkEvent q entry) (typedHandle p k entry)
    pure ()
  else pure ()

/-- The common shape of `post_write_callback`, `pre_read_callback` and `post_read_callback`. -/
def observe (I : Interp D B) (p : D.Param) (k : CallbackKind)
    (mkEvent : CciParam (D.Value p) → CallbackObj → ParamEvent (D.Value p)) : CciM D B Unit := do
  let q ← getParam p
  if q.oncall k then pure ()
  else dispatch I p k (observerEntry I p k mkEvent) ()

/-- `post_write_callback`. -/
def postWriteCallback (I : Interp D B) (p : D.Param) (oldValue newValue : D.Value p)
    (originator : CciOriginator) : CciM D B Unit :=
  observe I p .postWrite fun _ entry => .write oldValue newValue originator entry.originator

/-- `pre_read_callback(m_value, originator)`: the event refers to `m_value` itself. -/
def preReadCallback (I : Interp D B) (p : D.Param) (originator : CciOriginator) :
    CciM D B Unit :=
  observe I p .preRead fun q entry => .read q.mValue originator entry.originator

/-- `post_read_callback(m_value, originator)`. -/
def postReadCallback (I : Interp D B) (p : D.Param) (originator : CciOriginator) :
    CciM D B Unit :=
  observe I p .postRead fun q entry => .read q.mValue originator entry.originator

/-! ### Writing -/

/-- `cci_param_untyped::set_cci_value_allowed`. -/
def setCciValueAllowed (p : D.Param) : CciM D B Bool := do
  if D.mutableType p = .immutableParam then
    let q ← getParam p
    reportError (setParamFailed ("Parameter (" ++ q.mName ++ ") is immutable."))
    pure false
  else pure true

/-- The key test of `set_raw_value`. -/
def keyAccepted (p : D.Param) (pwd : Option ℕ) : CciM D B Bool := do
  let q ← getParam p
  match pwd with
  | none =>
      if CciParamUntyped.isLocked q then
        reportError (setParamFailed "Parameter locked.")
        pure false
      else pure true
  | some key =>
      if some key ≠ q.mLockPwd then
        reportError (setParamFailed "Wrong key.")
        pure false
      else pure true

/-- The assignments of an accepted write. -/
def store (p : D.Param) (value : D.Value p) (originator : CciOriginator) : CciM D B Unit := do
  modifyParam p fun q => { q with mValue := value }
  modifyParam p fun q => { q with mValueOrigin := originator }

/-- The condition under which `set_raw_value` enables the fast path. -/
def fastWriteAllowed (p : D.Param) (originator : CciOriginator) (q : CciParam (D.Value p)) : Bool :=
  decide (D.mutableType p = .mutableParam) && !CciParamUntyped.isLocked q
    && decide ((q.vec .preWrite).length = 0) && decide ((q.vec .postWrite).length = 0)
    && originator == q.mOriginator

/-- `set_raw_value`, of an object that nobody else changes. -/
def setRawValue (I : Interp D B) (p : D.Param) (value : D.Value p) (pwd : Option ℕ)
    (originator : CciOriginator) : CciM D B Bool := do
  if !(← setCciValueAllowed p) then pure false
  else if !(← keyAccepted p pwd) then pure false
  else if !(← preWriteCallback I p value originator) then pure false
  else
    let oldValue := (← getParam p).mValue
    store p value originator
    postWriteCallback I p oldValue value originator
    modifyParam p fun q => { q with fastWrite := fastWriteAllowed p originator q }
    pure true

/-- `set_value(value)`, also reached through `operator=`. -/
def setValue (I : Interp D B) (p : D.Param) (value : D.Value p) : CciM D B Bool := do
  let q ← getParam p
  if q.fastWrite then
    modifyParam p fun q => { q with mValue := value }
    pure true
  else setRawValue I p value none q.mOriginator

/-- `set_value(value, pwd)`. -/
def setValuePwd (I : Interp D B) (p : D.Param) (value : D.Value p) (pwd : Option ℕ) :
    CciM D B Bool := do
  let q ← getParam p
  setRawValue I p value pwd q.mOriginator

/-- `set_cci_value(val, pwd, originator)`. -/
def setCciValue (I : Interp D B) (p : D.Param) (val : D.CciValue) (pwd : Option ℕ)
    (originator : CciOriginator) : CciM D B Bool := do
  let v ← cciValueGet p val
  setRawValue I p v pwd originator

/-- `preset_cci_value`. -/
def presetCciValue (I : Interp D B) (p : D.Param) (val : D.CciValue) (originator : CciOriginator) :
    CciM D B Bool := do
  let oldValue := (← getParam p).mValue
  let newValue ← cciValueGet p val
  if !(← preWriteCallback I p newValue originator) then pure false
  else
    store p newValue originator
    postWriteCallback I p oldValue newValue originator
    pure true

/-! ### Reading -/

/-- The condition under which `get_raw_value` enables the fast path. -/
def fastReadAllowed {T : Type} (q : CciParam T) : Bool :=
  decide ((q.vec .preRead).length = 0) && decide ((q.vec .postRead).length = 0)

/-- `get_raw_value`, and the value its pointer leads to when it returns. -/
def getRawValue (I : Interp D B) (p : D.Param) (originator : CciOriginator) :
    CciM D B (D.Value p) := do
  preReadCallback I p originator
  postReadCallback I p originator
  modifyParam p fun q => { q with fastRead := fastReadAllowed q }
  return (← getParam p).mValue

/-- `get_value()`. -/
def getValue (I : Interp D B) (p : D.Param) : CciM D B (D.Value p) := do
  let q ← getParam p
  if q.fastRead then pure q.mValue else getRawValue I p q.mOriginator

/-- `get_cci_value(originator)`. -/
def getCciValue (I : Interp D B) (p : D.Param) (originator : CciOriginator) :
    CciM D B D.CciValue := do
  let v ← getRawValue I p originator
  cciValueOf p v

/-! ### Value status, lock, registration and reset -/

variable [CciBrokerIf B D.BrokerHandle D.CciValue]

/-- `is_default_value()`. -/
def isDefaultValue (w : World D B) (p : D.Param) : Bool :=
  D.valueEq p (w.param p).mDefaultValue (w.param p).mValue

/-- `is_preset_value()`. -/
def isPresetValue (w : World D B) (p : D.Param) : Bool :=
  let h := w.store.mBrokerHandle p
  let nm := (w.param p).mName
  if CciBrokerIf.hasPresetValue w.store.broker h nm then
    let r := D.unpack p (D.uninit p) (CciBrokerIf.getPresetCciValue w.store.broker h nm)
    r.1 && D.valueEq p r.2 (w.param p).mValue
  else false

/-- `cci_param_typed::lock`, which overrides the untyped one. -/
def lock {T : Type} (pwd : Option ℕ) (q : CciParam T) : Bool × CciParam T :=
  CciParamUntyped.lock pwd { q with fastWrite := false }

/-- `register_<kind>_callback` of the typed class, in its typed and untyped forms. -/
def registerCallback {T : Type} (k : CallbackKind) (cb : CallbackHandle) (q : CciParam T) :
    CallbackHandle × CciParam T :=
  CciParamUntyped.registerCallback k cb q.mOriginator
    { q with fastRead := false, fastWrite := false }

/-- `reset()`. -/
def reset (I : Interp D B) (p : D.Param) : CciM D B Bool := do
  let w ← Eff.get
  if CciParamUntyped.isLocked (w.param p) then pure false
  else
    let h := w.store.mBrokerHandle p
    let nm := (w.param p).mName
    if CciBrokerIf.hasPresetValue w.store.broker h nm then
      let preset := CciBrokerIf.getPresetCciValue w.store.broker h nm
      let _ ← presetCciValue I p preset
        (CciBrokerIf.getPresetValueOrigin w.store.broker h nm)
      pure true
    else
      let q ← getParam p
      if !(← preWriteCallback I p q.mDefaultValue q.mOriginator) then pure false
      else
        let oldValue := (← getParam p).mValue
        store p q.mDefaultValue q.mOriginator
        postWriteCallback I p oldValue q.mDefaultValue q.mOriginator
        pure true

end CciParamTyped

end Cci
