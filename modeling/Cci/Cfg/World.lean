import Cci.Lib.Effect
import Cci.Cfg.ParamUntyped

/-!
# The world of a configured design

The state every parameter operation works on: a family of parameter objects of different value
types, the state of the broker they are registered with, and two ghost components, the stack of
callback lists under dispatch and the trace of what happened.

* `Design` — what is fixed: the parameters, their value types with the `cci_value` conversions,
  their template arguments, and whether `SC_ERROR` reports throw;
* `CciBrokerIf` — the part of the broker interface a parameter uses;
* `Cmd` — the calls client code can make on a parameter or its broker;
* `World`, `CciM` — the state and the computations over it; `log`, `reportError`.
-/

namespace Cci

open Effect

/-! ### Reports -/

/-- An `sc_report` of severity `SC_ERROR`: its message type and its text. -/
structure Report where
  msgType : String
  msg : String
deriving DecidableEq, Repr

/-- `CCI_SC_REPORT_MSG_TYPE_PREFIX_`. -/
def reportMsgTypePrefix : String := "/Accellera/CCI/"

/-- `cci_report_handler::report` with severity `SC_ERROR`. -/
def cciReport (msgType msg : String) : Report := ⟨reportMsgTypePrefix ++ msgType, msg⟩

def setParamFailed (msg : String) : Report := cciReport "SET_PARAM_FAILED" msg
def getParamFailed (msg : String) : Report := cciReport "GET_PARAM_FAILED" msg
def cciValueFailure (msg : String) : Report := cciReport "CCI_VALUE_FAILURE" msg

/-! ### Events and commands -/

/-- The payload of a callback: `cci_param_write_event<V>` or `cci_param_read_event<V>`.  Of the
parameter handle in it only the originator is kept, the one the callback was registered with. -/
inductive ParamEvent (V : Type) where
  | write (oldValue newValue : V) (originator paramHandle : CciOriginator) : ParamEvent V
  | read (value : V) (originator paramHandle : CciOriginator) : ParamEvent V

/-- What is fixed over a run: the parameter objects with their value types and conversions. -/
structure Design where
  Param : Type
  decParam : DecidableEq Param
  Value : Param → Type
  CciValue : Type
  BrokerHandle : Type
  /-- `typeid(T)`. -/
  typeId : Param → ℕ
  /-- The template argument `TM`. -/
  mutableType : Param → CciParamMutableType
  /-- `cci_value_converter<T>::pack`: its result and the destination afterwards. -/
  pack : (p : Param) → Value p → Bool × CciValue
  /-- `cci_value_converter<T>::unpack`: its result and the destination afterwards. -/
  unpack : (p : Param) → Value p → CciValue → Bool × Value p
  /-- The value of `T result;` before it is assigned. -/
  uninit : (p : Param) → Value p
  /-- `operator==` of the value type. -/
  valueEq : (p : Param) → Value p → Value p → Bool
  /-- `SC_ERROR` reports throw, which is the default of SystemC; otherwise they are suppressed. -/
  throws : Bool

attribute [instance] Design.decParam

/-- What a parameter uses of its broker, reached through the broker handle it was built with. -/
class CciBrokerIf (B : Type) (H : Type) (C : outParam Type) where
  hasPresetValue : B → H → String → Bool
  getPresetCciValue : B → H → String → C
  getPresetValueOrigin : B → H → String → CciOriginator
  /-- The new broker state, or the report of a refused preset, which changes nothing. -/
  setPresetCciValue : B → H → String → C → CciOriginator → Except Report B

/-- The calls client code makes.  A call through a parameter handle carries the originator of the
handle; an owner's call uses the parameter's own one. -/
inductive Cmd (D : Design) where
  | setValue (p : D.Param) (v : D.Value p) : Cmd D
  | setValuePwd (p : D.Param) (v : D.Value p) (pwd : Option ℕ) : Cmd D
  | handleSetValue (p : D.Param) (v : D.Value p) (pwd : Option ℕ) (o : CciOriginator) : Cmd D
  | setCciValue (p : D.Param) (c : D.CciValue) (pwd : Option ℕ) (o : CciOriginator) : Cmd D
  | getValue (p : D.Param) : Cmd D
  | handleGetValue (p : D.Param) (o : CciOriginator) : Cmd D
  | getCciValue (p : D.Param) (o : CciOriginator) : Cmd D
  | reset (p : D.Param) : Cmd D
  | lock (p : D.Param) (pwd : Option ℕ) : Cmd D
  | unlock (p : D.Param) (pwd : Option ℕ) : Cmd D
  | isLocked (p : D.Param) : Cmd D
  | registerCallback (p : D.Param) (k : CallbackKind) (cb : CallbackHandle) : Cmd D
  | handleRegisterCallback (p : D.Param) (k : CallbackKind) (cb : CallbackHandle)
      (o : CciOriginator) : Cmd D
  | unregisterCallback (p : D.Param) (k : CallbackKind) (cb : CallbackHandle)
      (o : CciOriginator) : Cmd D
  | unregisterAllCallbacks (p : D.Param) (o : CciOriginator) : Cmd D
  | setPresetCciValue (h : D.BrokerHandle) (parname : String) (c : D.CciValue)
      (o : CciOriginator) : Cmd D

/-! ### The state -/

/-- The parameter objects and the broker. -/
structure Store (D : Design) (B : Type) where
  params : (p : D.Param) → CciParam (D.Value p)
  mBrokerHandle : D.Param → D.BrokerHandle
  broker : B

/-- What the trace records: client commands with the store before and after them, the dispatch of
a callback list with the stack it starts on, invoked callbacks and error reports. -/
inductive TraceEvent (D : Design) (B : Type) where
  | step : Cmd D → Store D B → TraceEvent D B
  | done : Cmd D → Store D B → TraceEvent D B
  | dispatch : D.Param → CallbackKind → List (D.Param × CallbackKind) → TraceEvent D B
  | invoked : (p : D.Param) → CallbackKind → CallbackObj → ParamEvent (D.Value p) → TraceEvent D B
  | report : Report → TraceEvent D B

structure World (D : Design) (B : Type) where
  store : Store D B
  /-- Ghost: the callback lists under dispatch, innermost first. -/
  stack : List (D.Param × CallbackKind) := []
  /-- Ghost: what happened so far, in order. -/
  trace : List (TraceEvent D B) := []

abbrev CciM (D : Design) (B : Type) (α : Type) : Type := Eff Report (World D B) α

variable {D : Design} {B : Type}

namespace World

def param (w : World D B) (p : D.Param) : CciParam (D.Value p) := w.store.params p

def setParam (w : World D B) (p : D.Param) (q : CciParam (D.Value p)) : World D B :=
  { w with store := { w.store with params := Function.update w.store.params p q } }

def record (w : World D B) (e : TraceEvent D B) : World D B := { w with trace := w.trace ++ [e] }

@[simp] theorem param_setParam (w : World D B) (p : D.Param) (q : CciParam (D.Value p)) :
    (w.setParam p q).param p = q := by simp [setParam, param]

theorem param_setParam_of_ne (w : World D B) {p r : D.Param} (q : CciParam (D.Value p))
    (h : r ≠ p) : (w.setParam p q).param r = w.param r := by simp [setParam, param, h]

@[simp] theorem setParam_param (w : World D B) (p : D.Param) : w.setParam p (w.param p) = w := by
  simp [setParam, param]

@[simp] theorem setParam_setParam (w : World D B) (p : D.Param) (q q' : CciParam (D.Value p)) :
    (w.setParam p q).setParam p q' = w.setParam p q' := by simp [setParam]

@[simp] theorem stack_setParam (w : World D B) (p : D.Param) (q : CciParam (D.Value p)) :
    (w.setParam p q).stack = w.stack := rfl
@[simp] theorem trace_setParam (w : World D B) (p : D.Param) (q : CciParam (D.Value p)) :
    (w.setParam p q).trace = w.trace := rfl
@[simp] theorem broker_setParam (w : World D B) (p : D.Param) (q : CciParam (D.Value p)) :
    (w.setParam p q).store.broker = w.store.broker := rfl
@[simp] theorem param_record (w : World D B) (e : TraceEvent D B) (p : D.Param) :
    (w.record e).param p = w.param p := rfl
@[simp] theorem store_record (w : World D B) (e : TraceEvent D B) : (w.record e).store = w.store := rfl
@[simp] theorem stack_record (w : World D B) (e : TraceEvent D B) : (w.record e).stack = w.stack := rfl
@[simp] theorem trace_record (w : World D B) (e : TraceEvent D B) :
    (w.record e).trace = w.trace ++ [e] := rfl

end World

/-! ### Primitive computations -/

def getParam (p : D.Param) : CciM D B (CciParam (D.Value p)) := Eff.gets fun w => w.param p

def modifyParam (p : D.Param) (f : CciParam (D.Value p) → CciParam (D.Value p)) :
    CciM D B Unit := Eff.modify fun w => w.setParam p (f (w.param p))

def log (e : TraceEvent D B) : CciM D B Unit := Eff.modify fun w => w.record e

/-- `cci_report_handler::report` with severity `SC_ERROR`: recorded, and thrown unless the
application has configured such reports not to throw. -/
def reportError (r : Report) : CciM D B Unit := do
  log (.report r)
  if D.throws then Eff.raise r else pure ()

/-- `cci_value_cref::get<T>()`. -/
def cciValueGet (p : D.Param) (c : D.CciValue) : CciM D B (D.Value p) := do
  let r := D.unpack p (D.uninit p) c
  if r.1 then pure r.2
  else
    reportError (cciValueFailure "conversion from cci_value failed")
    pure r.2

/-- The constructor `cci_value(const T&)`. -/
def cciValueOf (p : D.Param) (v : D.Value p) : CciM D B D.CciValue := do
  let r := D.pack p v
  if r.1 then pure r.2
  else
    reportError (cciValueFailure "conversion to cci_value failed")
    pure r.2

end Cci
