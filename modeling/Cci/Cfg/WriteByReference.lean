import Cci.Cfg.WriteSpec

/-!
# Writes whose argument is an object of somebody else

`set_raw_value` gets the address of the new value and reads it again whenever it needs the value:
for the events of the pre-write callbacks, for the assignment, and for the events of the post-write
callbacks.  When a callback changes that object (`p = q` passes the value of `q`), the write goes on
with what it holds then.  Here the argument is a function of the state.

* `preWriteCallbackRef`, `storeRef`, `postWriteCallbackRef`, `setRawValueRef` — the member functions
  with a referred argument;
* `setRawValueRef_const` — an argument that nobody changes is a value: this is `setRawValue`;
* `Steady` — what keeps the argument as it is while the write runs.
-/

namespace Cci

open Effect

variable {D : Design} {B : Type}

namespace CciParamTyped

/-- The body of the loop in `pre_write_callback`. -/
def preWriteEntryRef (I : Interp D B) (p : D.Param) (value : World D B → D.Value p)
    (originator : CciOriginator) (entry : CallbackObj) (result : Bool) : CciM D B Bool := do
  let newValue ← Eff.gets value
  preWriteEntry I p newValue originator entry result

/-- `pre_write_callback`. -/
def preWriteCallbackRef (I : Interp D B) (p : D.Param) (value : World D B → D.Value p)
    (originator : CciOriginator) : CciM D B Bool := do
  let q ← getParam p
  if q.oncall .preWrite then pure false
  else dispatch I p .preWrite (preWriteEntryRef I p value originator) true

/-- The assignments of an accepted write. -/
def storeRef (p : D.Param) (value : World D B → D.Value p) (originator : CciOriginator) :
    CciM D B Unit := do
  let newValue ← Eff.gets value
  store p newValue originator

/-- The body of the loop in `post_write_callback`. -/
def postWriteEntryRef (I : Interp D B) (p : D.Param) (oldValue : D.Value p)
    (newValue : World D B → D.Value p) (originator : CciOriginator) (entry : CallbackObj)
    (u : Unit) : CciM D B Unit := do
  let v ← Eff.gets newValue
  observerEntry I p .postWrite (fun _ entry => .write oldValue v originator entry.originator) entry u

/-- `post_write_callback`. -/
def postWriteCallbackRef (I : Interp D B) (p : D.Param) (oldValue : D.Value p)
    (newValue : World D B → D.Value p) (originator : CciOriginator) : CciM D B Unit := do
  let q ← getParam p
  if q.oncall .postWrite then pure ()
  else dispatch I p .postWrite (postWriteEntryRef I p oldValue newValue originator) ()

/-- What `set_raw_value` does with an accepted value. -/
def finishWriteRef (I : Interp D B) (p : D.Param) (value : World D B → D.Value p)
    (originator : CciOriginator) (oldValue : D.Value p) : CciM D B Bool := do
  storeRef p value originator
  postWriteCallbackRef I p oldValue value originator
  modifyParam p fun q => { q with fastWrite := fastWriteAllowed p originator q }
  pure true

/-- `set_raw_value` past its gates. -/
def rawWriteRef (I : Interp D B) (p : D.Param) (value : World D B → D.Value p)
    (originator : CciOriginator) : CciM D B Bool := do
  if !(← preWriteCallbackRef I p value originator) then pure false
  else
    let oldValue := (← getParam p).mValue
    finishWriteRef I p value originator oldValue

/-- `set_raw_value(&value, pwd, originator)`. -/
def setRawValueRef (I : Interp D B) (p : D.Param) (value : World D B → D.Value p)
    (pwd : Option ℕ) (originator : CciOriginator) : CciM D B Bool := do
  if !(← setCciValueAllowed p) then pure false
  else if !(← keyAccepted p pwd) then pure false
  else rawWriteRef I p value originator

end CciParamTyped

open CciParamTyped

/-- An argument that nobody changes is a value. -/
theorem setRawValueRef_const (I : Interp D B) (p : D.Param) (v : D.Value p) (pwd : Option ℕ)
    (o : CciOriginator) : setRawValueRef I p (fun _ => v) pwd o = setRawValue I p v pwd o := rfl

theorem setRawValueRef_eq (I : Interp D B) (p : D.Param) (value : World D B → D.Value p)
    (pwd : Option ℕ) (originator : CciOriginator) (w : World D B) :
    setRawValueRef I p value pwd originator w = match writeRefusal p pwd (w.param p) with
      | some r => refuse r w
      | none => rawWriteRef I p value originator w :=
  gates_run p pwd (rawWriteRef I p value originator) w

/-- While the rest of the design is as `P` says and `p` still has the value `oldValue`, or has got
the value `v`, the argument refers to an object that is `v`.  So it is for an argument that nobody
changes, and for `p` itself when `v` is its old value. -/
def Steady (p : D.Param) (value : World D B → D.Value p) (P : World D B → Prop)
    (oldValue v : D.Value p) : Prop :=
  ∀ w, P w → (w.param p).mValue = oldValue ∨ (w.param p).mValue = v → value w = v

section

variable {I : Interp D B} {p : D.Param} {value : World D B → D.Value p} {P : World D B → Prop}
variable {oldValue v : D.Value p}

/-- A write that the pre-write dispatch does not let pass ends with it. -/
theorem rawWriteRef_stopped {o : CciOriginator} {w t : World D B} {out : Outcome Report Bool}
    (h : preWriteCallbackRef I p value o w = (out, t)) (hout : out ≠ .ok true) :
    rawWriteRef I p value o w = (out, t) := by
  rw [rawWriteRef, Eff.bind_run, h]
  rcases out with (_ | _) | _ | _ | _
  · rfl
  · exact absurd rfl hout
  · rfl
  · rfl
  · rfl

theorem rawWriteRef_passed {o : CciOriginator} {w t : World D B}
    (h : preWriteCallbackRef I p value o w = (.ok true, t)) :
    rawWriteRef I p value o w = finishWriteRef I p value o (t.param p).mValue t := by
  rw [rawWriteRef, Eff.bind_run_ok h]
  rfl

/-- The end of a write after its assignments, by how its post-write dispatch ends. -/
theorem finishWriteRef_run {o : CciOriginator} {t u : World D B} {out : Outcome Report Unit}
    (hv : value t = v) (hpost : postWriteCallbackRef I p oldValue value o
      (t.setParam p (stored v o (t.param p))) = (out, u)) :
    (out = .ok () → finishWriteRef I p value o oldValue t = (.ok true, u.setParam p
        { u.param p with fastWrite := fastWriteAllowed p o (u.param p) })) ∧
      ∀ r, out = .throw r → finishWriteRef I p value o oldValue t = (.throw r, u) := by
  have hstore : storeRef p value o t = (.ok (), t.setParam p (stored v o (t.param p))) := by
    rw [storeRef, Eff.gets_bind_run, hv]
    exact store_run p v o t
  rw [finishWriteRef, Eff.bind_run_ok hstore, Eff.bind_run, hpost]
  constructor
  · rintro rfl
    rfl
  · rintro r rfl
    rfl

end

end Cci
