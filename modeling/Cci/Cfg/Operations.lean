import Cci.Cfg.Client

/-!
# The operations on one parameter

A property of computations that follows the constructs of the language holds of every operation on a
parameter.  Which constructs it must follow depends on what the operation does: administer the object,
read its value with the dispatch of callbacks, or write it.

* `Administering`, `Reading`, `Writing` — the constructs, each with those before;
* `Reading.getRawValue`, `Writing.setRawValue`, `Writing.reset` — the operations;
* `Cmd.param?`, `Cmd.access`, `run_of_access` — every command on a parameter.
-/

namespace Cci

open Effect CciParamTyped

variable {D : Design} {B : Type}

/-- The parameter an event is about. -/
def Payload.param : Payload D → D.Param
  | .typed p _ | .untyped p _ => p

/-- The parameter a command is about; a preset concerns the broker. -/
def Cmd.param? : Cmd D → Option D.Param
  | .setValue p _ | .setValuePwd p _ _ | .handleSetValue p _ _ _ | .setCciValue p _ _ _
  | .getValue p | .handleGetValue p _ | .getCciValue p _ | .reset p | .lock p _ | .unlock p _
  | .isLocked p | .registerCallback p _ _ | .handleRegisterCallback p _ _ _
  | .unregisterCallback p _ _ _ | .unregisterAllCallbacks p _ => some p
  | .setPresetCciValue .. => none

/-- What a command does with the value. -/
inductive Access where
  | none | read | write
deriving DecidableEq, Repr

def Cmd.access : Cmd D → Access
  | .setValue .. | .setValuePwd .. | .handleSetValue .. | .setCciValue .. | .reset .. => .write
  | .getValue .. | .handleGetValue .. | .getCciValue .. => .read
  | _ => .none

/-- `K` follows what administering `p` takes. -/
structure Administering (p : D.Param) (K : (α : Type) → CciM D B α → Prop) : Prop where
  pure : ∀ {α : Type} (a : α), K α (Pure.pure a)
  bind : ∀ {α β : Type} {m : CciM D B α} {f : α → CciM D B β}, K α m → (∀ a, K β (f a)) →
    K β (m >>= f)
  getParam : K _ (getParam p)
  modifyParam : ∀ f : CciParam (D.Value p) → CciParam (D.Value p), K Unit (modifyParam p f)

/-- `K` follows what reading `p` takes beside: conversions, and dispatches of its lists. -/
structure Reading (I : Interp D B) (p : D.Param) (K : (α : Type) → CciM D B α → Prop) : Prop extends
    Administering p K where
  log : ∀ e : TraceEvent D B, K Unit (log e)
  abort : ∀ {α : Type}, K α Eff.abort
  valueFailure : ∀ msg : String, K Unit (reportError (cciValueFailure msg))
  scopedTrue : ∀ {α : Type} (k : CallbackKind) {m : CciM D B α}, K α m → K α (scopedTrue p k m)
  loop : ∀ {α : Type} (k : CallbackKind) {act : CallbackObj → α → CciM D B α},
    (∀ e a, K α (act e a)) → ∀ fuel i acc, K α (Eff.forEach (entryAt p k) act fuel i acc)
  call : ∀ f ev, ev.param = p → K Bool (I.call f ev)

/-- `K` follows what writing `p` takes beside: refusals, and the presets a reset consults. -/
structure Writing (I : Interp D B) (p : D.Param) (K : (α : Type) → CciM D B α → Prop) : Prop extends
    Reading I p K where
  setFailure : ∀ msg : String, K Unit (reportError (setParamFailed msg))
  consult : ∀ {α : Type} {k : World D B → CciM D B α},
    (∀ w w' : World D B, w.param p = w'.param p → w.store.mBrokerHandle = w'.store.mBrokerHandle →
      w.store.broker = w'.store.broker → k w = k w') → (∀ w, K α (k w)) → K α (Eff.get >>= k)

theorem Administering.ite {p : D.Param} {K : (α : Type) → CciM D B α → Prop}
    (_ : Administering p K) {α : Type} {c : Prop} [Decidable c] {m m' : CciM D B α} (hm : K α m)
    (hm' : K α m') : K α (if c then m else m') := by
  split
  · exact hm
  · exact hm'

theorem Administering.onParam {p : D.Param} {K : (α : Type) → CciM D B α → Prop}
    (hK : Administering p K) {α : Type} (f : CciParam (D.Value p) → α × CciParam (D.Value p)) :
    K α (onParam p f) :=
  hK.bind hK.getParam fun _ => hK.bind (hK.modifyParam _) fun _ => hK.pure _

namespace Reading

variable {I : Interp D B} {p : D.Param} {K : (α : Type) → CciM D B α → Prop} (hK : Reading I p K)

include hK

theorem cciValueGet (c : D.CciValue) : K _ (cciValueGet p c) :=
  hK.ite (hK.pure _) (hK.bind (hK.valueFailure _) fun _ => hK.pure _)

theorem cciValueOf (v : D.Value p) : K _ (cciValueOf p v) :=
  hK.ite (hK.pure _) (hK.bind (hK.valueFailure _) fun _ => hK.pure _)

theorem genericWrap (ev : ParamEvent (D.Value p)) : K _ (genericWrap p ev) := by
  cases ev with
  | write oldValue newValue originator paramHandle =>
    exact hK.bind (hK.cciValueOf _) fun _ => hK.bind (hK.cciValueOf _) fun _ => hK.pure _
  | read value originator paramHandle => exact hK.bind (hK.cciValueOf _) fun _ => hK.pure _

theorem invokeTyped (k : CallbackKind) (entry : CallbackObj) (ev : ParamEvent (D.Value p))
    (h : CallbackHandle) : K Bool (invokeTyped I p k entry ev h) := by
  cases h with
  | none => exact hK.abort
  | some held =>
    cases held with
    | impl f => exact hK.bind (hK.log _) fun _ => hK.call _ _ rfl
    | adapt f s =>
      exact hK.bind (hK.genericWrap ev) fun _ => hK.bind (hK.log _) fun _ => hK.call _ _ rfl

theorem dispatch {α : Type} (k : CallbackKind) {act : CallbackObj → α → CciM D B α}
    (hact : ∀ e a, K α (act e a)) (init : α) : K α (dispatch I p k act init) :=
  hK.scopedTrue k (hK.loop k hact _ _ _)

theorem observerEntry (k : CallbackKind)
    (mkEvent : CciParam (D.Value p) → CallbackObj → ParamEvent (D.Value p)) (entry : CallbackObj)
    (u : Unit) : K Unit (observerEntry I p k mkEvent entry u) :=
  hK.ite (hK.bind hK.getParam fun _ => hK.bind (hK.invokeTyped _ _ _ _) fun _ => hK.pure _)
    (hK.pure _)

theorem observe (k : CallbackKind)
    (mkEvent : CciParam (D.Value p) → CallbackObj → ParamEvent (D.Value p)) :
    K Unit (observe I p k mkEvent) :=
  hK.bind hK.getParam fun _ => hK.ite (hK.pure _)
    (hK.dispatch _ (fun e a => hK.observerEntry k mkEvent e a) _)

theorem getRawValue (o : CciOriginator) : K _ (getRawValue I p o) := by
  refine hK.bind (hK.observe _ _) fun _ => hK.bind (hK.observe _ _) fun _ => ?_
  exact hK.bind (hK.modifyParam _) fun _ => hK.bind hK.getParam fun _ => hK.pure _

theorem getValue : K _ (getValue I p) :=
  hK.bind hK.getParam fun _ => hK.ite (hK.pure _) (hK.getRawValue _)

theorem getCciValue (o : CciOriginator) : K _ (getCciValue I p o) :=
  hK.bind (hK.getRawValue o) fun v => hK.cciValueOf v

end Reading

namespace Writing

variable {I : Interp D B} {p : D.Param} {K : (α : Type) → CciM D B α → Prop} (hK : Writing I p K)

include hK

theorem setCciValueAllowed : K Bool (setCciValueAllowed p) :=
  hK.ite (hK.bind hK.getParam fun _ => hK.bind (hK.setFailure _) fun _ => hK.pure _) (hK.pure _)

theorem keyAccepted (pwd : Option ℕ) : K Bool (keyAccepted p pwd) := by
  refine hK.bind hK.getParam fun q => ?_
  cases pwd with
  | none => exact hK.ite (hK.bind (hK.setFailure _) fun _ => hK.pure _) (hK.pure _)
  | some key => exact hK.ite (hK.bind (hK.setFailure _) fun _ => hK.pure _) (hK.pure _)

theorem preWriteEntry (v : D.Value p) (o : CciOriginator) (entry : CallbackObj) (result : Bool) :
    K Bool (preWriteEntry I p v o entry result) :=
  hK.bind hK.getParam fun _ => hK.bind (hK.invokeTyped _ _ _ _) fun _ =>
    hK.ite (hK.pure _) (hK.bind (hK.setFailure _) fun _ => hK.pure _)

theorem preWriteCallback (v : D.Value p) (o : CciOriginator) : K Bool (preWriteCallback I p v o) :=
  hK.bind hK.getParam fun _ => hK.ite (hK.pure _)
    (hK.dispatch _ (fun e a => hK.preWriteEntry v o e a) _)

theorem store (v : D.Value p) (o : CciOriginator) : K Unit (store p v o) :=
  hK.bind (hK.modifyParam _) fun _ => hK.modifyParam _

theorem setRawValue (v : D.Value p) (pwd : Option ℕ) (o : CciOriginator) :
    K Bool (setRawValue I p v pwd o) := by
  refine hK.bind hK.setCciValueAllowed fun _ => hK.ite (hK.pure _) ?_
  refine hK.bind (hK.keyAccepted pwd) fun _ => hK.ite (hK.pure _) ?_
  refine hK.bind (hK.preWriteCallback v o) fun _ => hK.ite (hK.pure _) ?_
  refine hK.bind hK.getParam fun _ => hK.bind (hK.store v o) fun _ => ?_
  exact hK.bind (hK.observe _ _) fun _ => hK.bind (hK.modifyParam _) fun _ => hK.pure _

theorem setValue (v : D.Value p) : K Bool (setValue I p v) :=
  hK.bind hK.getParam fun _ => hK.ite (hK.bind (hK.modifyParam _) fun _ => hK.pure _)
    (hK.setRawValue v _ _)

theorem setValuePwd (v : D.Value p) (pwd : Option ℕ) : K Bool (setValuePwd I p v pwd) :=
  hK.bind hK.getParam fun _ => hK.setRawValue v _ _

theorem setCciValue (c : D.CciValue) (pwd : Option ℕ) (o : CciOriginator) :
    K Bool (setCciValue I p c pwd o) :=
  hK.bind (hK.cciValueGet c) fun v => hK.setRawValue v _ _

theorem presetCciValue (c : D.CciValue) (o : CciOriginator) : K Bool (presetCciValue I p c o) := by
  refine hK.bind hK.getParam fun _ => hK.bind (hK.cciValueGet c) fun v => ?_
  refine hK.bind (hK.preWriteCallback v o) fun _ => hK.ite (hK.pure _) ?_
  exact hK.bind (hK.store v o) fun _ => hK.bind (hK.observe _ _) fun _ => hK.pure _

theorem reset [CciBrokerIf B D.BrokerHandle D.CciValue] : K Bool (reset I p) := by
  refine hK.consult (fun w w' hparam hhandle hbroker => ?_) fun w => ?_
  · simp only [hparam, hhandle, hbroker]
  · refine hK.ite (hK.pure _) (hK.ite ?_ ?_)
    · exact hK.bind (hK.presetCciValue _ _) fun _ => hK.pure _
    · refine hK.bind hK.getParam fun _ => hK.bind (hK.preWriteCallback _ _) fun _ => ?_
      refine hK.ite (hK.pure _) (hK.bind hK.getParam fun _ => hK.bind (hK.store _ _) fun _ => ?_)
      exact hK.bind (hK.observe _ _) fun _ => hK.pure _

end Writing

/-- Every command on `p`, if `K` follows what its access to the value takes. -/
theorem run_of_access [CciBrokerIf B D.BrokerHandle D.CciValue] {I : Interp D B} {p : D.Param}
    {K : (α : Type) → CciM D B α → Prop} {c : Cmd D} (hc : c.param? = some p)
    (hA : Administering p K) (hR : c.access ≠ .none → Reading I p K)
    (hW : c.access = .write → Writing I p K) : K _ (c.run I) := by
  have hans : ∀ {α : Type} {m : CciM D B α} (f : α → Answer D), K α m →
      K _ (m >>= fun a => pure (f a)) := fun f hm => hA.bind hm fun a => hA.pure (f a)
  have hread : Access.read ≠ .none := by decide
  cases c with
  | setPresetCciValue h n c o => cases hc
  | setValue q v => cases hc; exact hans _ ((hW rfl).setValue v)
  | setValuePwd q v pwd => cases hc; exact hans _ ((hW rfl).setValuePwd v pwd)
  | handleSetValue q v pwd o => cases hc; exact hans _ ((hW rfl).setRawValue v pwd o)
  | setCciValue q c pwd o => cases hc; exact hans _ ((hW rfl).setCciValue c pwd o)
  | getValue q => cases hc; exact hans _ (hR hread).getValue
  | handleGetValue q o => cases hc; exact hans _ ((hR hread).getRawValue o)
  | getCciValue q o => cases hc; exact hans _ ((hR hread).getCciValue o)
  | reset q => cases hc; exact hans _ (hW rfl).reset
  | lock q pwd => cases hc; exact hans _ (hA.onParam _)
  | unlock q pwd => cases hc; exact hans _ (hA.onParam _)
  | isLocked q => cases hc; exact hans _ hA.getParam
  | registerCallback q k cb => cases hc; exact hans _ (hA.onParam _)
  | handleRegisterCallback q k cb o => cases hc; exact hans _ (hA.onParam _)
  | unregisterCallback q k cb o => cases hc; exact hans _ (hA.onParam _)
  | unregisterAllCallbacks q o => cases hc; exact hans _ (hA.onParam _)

end Cci
