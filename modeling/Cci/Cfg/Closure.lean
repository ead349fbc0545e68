import Cci.Lib.Relations
import Cci.Cfg.Client

/-!
# Going through the operations once

Every operation of a parameter is put together from error reports, guarded dispatch loops and
assignments to the parameter object.  A relation between computations that is closed under these
holds of the operations under two interpretations of the callback bodies; a property of one
interpretation is such a relation too.

* `Reports` — closed under the language and the recording of reports;
* `guarded` — a dispatch loop under its reentrancy test;
* `Closed` — `K` holds of the dispatch of the lists in `G`, `K'` of what runs inside it;
* `Stores` — `K` holds of the assignments of a write as well;
* `Closed.run` — then `K` holds of a command.
-/

namespace Cci

open Effect CciParamTyped

variable {D : Design} {B : Type}

/-- The events that record no store and open no dispatch. -/
def TraceEvent.plain : TraceEvent D B → Bool
  | .invoked .. | .report _ => true
  | _ => false

theorem TraceEvent.store?_of_plain {e : TraceEvent D B} (he : e.plain = true) : e.store? = none := by
  cases e with
  | step c s => cases he
  | done c s => cases he
  | _ => rfl

/-- Closed under the constructs of the language and the recording of reports. -/
structure Reports (K : (α : Type) → CciM D B α → CciM D B α → Prop) : Prop extends
    Plumbing K where
  report : ∀ r : Report, K Unit (log (.report r)) (log (.report r))

namespace Reports

variable {K : (α : Type) → CciM D B α → CciM D B α → Prop} (hK : Reports K)

include hK

theorem getParam (p : D.Param) : K _ (getParam p) (getParam p) := hK.gets _

theorem reportError (r : Report) : K Unit (reportError r) (reportError r) :=
  hK.bind (hK.report r) fun _ => hK.ite (hK.raise r) (hK.pure ())

theorem cciValueGet (p : D.Param) (c : D.CciValue) : K _ (cciValueGet p c) (cciValueGet p c) :=
  hK.ite (hK.pure _) (hK.bind (hK.reportError _) fun _ => hK.pure _)

theorem cciValueOf (p : D.Param) (v : D.Value p) : K _ (cciValueOf p v) (cciValueOf p v) :=
  hK.ite (hK.pure _) (hK.bind (hK.reportError _) fun _ => hK.pure _)

theorem genericWrap (p : D.Param) (ev : ParamEvent (D.Value p)) :
    K _ (genericWrap p ev) (genericWrap p ev) := by
  cases ev with
  | write oldValue newValue originator paramHandle =>
    exact hK.bind (hK.cciValueOf p _) fun _ => hK.bind (hK.cciValueOf p _) fun _ => hK.pure _
  | read value originator paramHandle =>
    exact hK.bind (hK.cciValueOf p _) fun _ => hK.pure _

theorem setCciValueAllowed (p : D.Param) :
    K Bool (setCciValueAllowed p) (setCciValueAllowed p) :=
  hK.ite (hK.bind (hK.getParam p) fun _ => hK.bind (hK.reportError _) fun _ => hK.pure _) (hK.pure _)

theorem keyAccepted (p : D.Param) (pwd : Option ℕ) :
    K Bool (keyAccepted p pwd) (keyAccepted p pwd) := by
  refine hK.bind (hK.getParam p) fun q => ?_
  cases pwd with
  | none => exact hK.ite (hK.bind (hK.reportError _) fun _ => hK.pure _) (hK.pure _)
  | some key => exact hK.ite (hK.bind (hK.reportError _) fun _ => hK.pure _) (hK.pure _)

/-- A registration, a lock or an unlock. -/
theorem onParam {α : Type} (p : D.Param) {f : CciParam (D.Value p) → α × CciParam (D.Value p)}
    (hf : K Unit (modifyParam p fun q => (f q).2) (modifyParam p fun q => (f q).2)) :
    K α (onParam p f) (onParam p f) :=
  hK.bind (hK.getParam p) fun _ => hK.bind hf fun _ => hK.pure _

theorem setPreset [CciBrokerIf B D.BrokerHandle D.CciValue]
    (hbroker : ∀ b, K Unit (Eff.modify fun w => { w with store := { w.store with broker := b } })
      (Eff.modify fun w => { w with store := { w.store with broker := b } }))
    (h : D.BrokerHandle) (n : String) (c : D.CciValue) (o : CciOriginator) :
    K Unit (setPreset h n c o) (setPreset h n c o) := by
  refine hK.bind (hK.gets id) fun w => ?_
  cases CciBrokerIf.setPresetCciValue w.store.broker h n c o with
  | error r => exact hK.reportError r
  | ok b => exact hbroker b

end Reports

/-- A dispatch loop under its reentrancy test: `if (oncall) return skip;`. -/
def guarded {α : Type} (I : Interp D B) (p : D.Param) (k : CallbackKind)
    (act : CallbackObj → α → CciM D B α) (init skip : α) : CciM D B α := do
  let q ← getParam p
  if q.oncall k then pure skip
  else dispatch I p k act init

section

variable {α : Type} {I : Interp D B} {p : D.Param} {k : CallbackKind}
variable {act : CallbackObj → α → CciM D B α} {init skip : α} {w : World D B}

theorem guarded_skip (h : (w.param p).oncall k = true) :
    guarded I p k act init skip w = (.ok skip, w) := by
  show (if (w.param p).oncall k then (pure skip : CciM D B α) else dispatch I p k act init) w = _
  rw [if_pos h]
  rfl

theorem guarded_open (h : (w.param p).oncall k = false) :
    guarded I p k act init skip w = dispatch I p k act init w := by
  show (if (w.param p).oncall k then (pure skip : CciM D B α) else dispatch I p k act init) w = _
  rw [if_neg (by rw [h]; exact Bool.false_ne_true)]

/-- Leaving a dispatch right after entering it. -/
theorem leaveDispatch_enterDispatch (h : (w.param p).oncall k = false) :
    leaveDispatch p k (enterDispatch p k w) = w.record (.dispatch p k w.stack) := by
  have hparam : (enterDispatch p k w).param p = (w.param p).setOncall k true :=
    w.param_setParam p _
  unfold leaveDispatch
  rw [hparam, CciParam.setOncall_setOncall _ _ h]
  simp only [enterDispatch, World.record, World.setParam, Function.update_idem, List.tail_cons]
  congr 1
  congr 1
  exact Function.update_eq_self p _

/-- The dispatch of an empty list runs nothing. -/
theorem guarded_empty (h : (w.param p).oncall k = false) (hvec : (w.param p).vec k = []) :
    guarded I p k act init skip w = (.ok init, w.record (.dispatch p k w.stack)) := by
  have hentry : entryAt p k (enterDispatch p k w) 0 = none := by
    show (((w.setParam p ((w.param p).setOncall k true)).param p).vec k)[0]? = none
    rw [World.param_setParam, CciParam.vec_setOncall, hvec]
    rfl
  have hloop : (Eff.forEach (entryAt p k) act I.fuel 0 init : CciM D B α) (enterDispatch p k w) =
      (.ok init, enterDispatch p k w) := by
    cases I.fuel <;> simp only [Eff.forEach, hentry]
  rw [guarded_open h, ← leaveDispatch_enterDispatch h]
  simp only [dispatch, scopedTrue, Eff.modify_bind_run, Eff.finalizing, hloop]

end

theorem preWriteCallback_eq_guarded (I : Interp D B) (p : D.Param) (v : D.Value p)
    (o : CciOriginator) :
    preWriteCallback I p v o = guarded I p .preWrite (preWriteEntry I p v o) true false := rfl

theorem observe_eq_guarded (I : Interp D B) (p : D.Param) (k : CallbackKind)
    (mkEvent : CciParam (D.Value p) → CallbackObj → ParamEvent (D.Value p)) :
    observe I p k mkEvent = guarded I p k (observerEntry I p k mkEvent) () () := rfl

/-- The reads of parameters and what they dispatch, under the interpretations `I` and `I'`: `K'`
holds inside the dispatch of a list in `G`, `K` outside. -/
structure Closed (I I' : Interp D B) (G : D.Param → CallbackKind → Prop)
    (K K' : (α : Type) → CciM D B α → CciM D B α → Prop) : Prop where
  outer : Reports K
  inner : Reports K'
  call : ∀ f ev, K' Bool (I.call f ev) (I'.call f ev)
  invoked : ∀ (p : D.Param) (k : CallbackKind), G p k →
    ∀ (entry : CallbackObj) (ev : ParamEvent (D.Value p)),
      K' Unit (log (.invoked p k entry ev)) (log (.invoked p k entry ev))
  guarded : ∀ {α : Type} {act act' : CallbackObj → α → CciM D B α} (p : D.Param)
    (k : CallbackKind) (init skip : α), G p k → (∀ e a, K' α (act e a) (act' e a)) →
      K α (guarded I p k act init skip) (guarded I' p k act' init skip)
  fastRead : ∀ p : D.Param, K Unit (modifyParam p fun q => { q with fastRead := fastReadAllowed q })
    (modifyParam p fun q => { q with fastRead := fastReadAllowed q })

namespace Closed

variable {I I' : Interp D B} {G : D.Param → CallbackKind → Prop}
variable {K K' : (α : Type) → CciM D B α → CciM D B α → Prop} (hC : Closed I I' G K K')

include hC

theorem invokeTyped {p : D.Param} {k : CallbackKind} (hG : G p k) (entry : CallbackObj)
    (ev : ParamEvent (D.Value p)) (h : CallbackHandle) :
    K' Bool (invokeTyped I p k entry ev h) (invokeTyped I' p k entry ev h) := by
  cases h with
  | none => exact hC.inner.abort
  | some held =>
    cases held with
    | impl f => exact hC.inner.bind (hC.invoked p k hG _ _) fun _ => hC.call _ _
    | adapt f s =>
      exact hC.inner.bind (hC.inner.genericWrap p ev) fun _ =>
        hC.inner.bind (hC.invoked p k hG _ _) fun _ => hC.call _ _

theorem preWriteEntry {p : D.Param} (hG : G p .preWrite) (v : D.Value p) (o : CciOriginator) (entry : CallbackObj)
    (result : Bool) :
    K' Bool (preWriteEntry I p v o entry result) (preWriteEntry I' p v o entry result) := by
  refine hC.inner.bind (hC.inner.getParam p) fun _ =>
    hC.inner.bind (hC.invokeTyped hG _ _ _) fun _ => ?_
  exact hC.inner.ite (hC.inner.pure _)
    (hC.inner.bind (hC.inner.reportError _) fun _ => hC.inner.pure _)

theorem observerEntry {p : D.Param} {k : CallbackKind} (hG : G p k)
    (mkEvent : CciParam (D.Value p) → CallbackObj → ParamEvent (D.Value p)) (entry : CallbackObj)
    (u : Unit) :
    K' Unit (observerEntry I p k mkEvent entry u) (observerEntry I' p k mkEvent entry u) := by
  refine hC.inner.ite (hC.inner.bind (hC.inner.getParam p) fun _ => ?_) (hC.inner.pure _)
  exact hC.inner.bind (hC.invokeTyped hG _ _ _) fun _ => hC.inner.pure _

theorem preWriteCallback {p : D.Param} (hG : G p .preWrite) (v : D.Value p) (o : CciOriginator) :
    K Bool (preWriteCallback I p v o) (preWriteCallback I' p v o) :=
  hC.guarded p _ true false hG fun e a => hC.preWriteEntry hG v o e a

theorem observe {p : D.Param} {k : CallbackKind} (hG : G p k)
    (mkEvent : CciParam (D.Value p) → CallbackObj → ParamEvent (D.Value p)) :
    K Unit (observe I p k mkEvent) (observe I' p k mkEvent) :=
  hC.guarded p k () () hG fun e a => hC.observerEntry hG mkEvent e a

theorem getRawValue {p : D.Param} (hG : G p .preRead ∧ G p .postRead) (o : CciOriginator) :
    K _ (getRawValue I p o) (getRawValue I' p o) := by
  refine hC.outer.bind (hC.observe hG.1 _) fun _ => hC.outer.bind (hC.observe hG.2 _) fun _ => ?_
  exact hC.outer.bind (hC.fastRead p) fun _ => hC.outer.bind (hC.outer.getParam p) fun _ =>
    hC.outer.pure _

theorem getValue {p : D.Param} (hG : G p .preRead ∧ G p .postRead) :
    K _ (getValue I p) (getValue I' p) :=
  hC.outer.bind (hC.outer.getParam p) fun _ =>
    hC.outer.ite (hC.outer.pure _) (hC.getRawValue hG _)

theorem getCciValue {p : D.Param} (hG : G p .preRead ∧ G p .postRead) (o : CciOriginator) :
    K _ (getCciValue I p o) (getCciValue I' p o) :=
  hC.outer.bind (hC.getRawValue hG o) fun v => hC.outer.cciValueOf p v

end Closed

/-- The assignments of a write to `p`, one by one. -/
structure Stores (K : (α : Type) → CciM D B α → CciM D B α → Prop) (p : D.Param) : Prop where
  value : ∀ v : D.Value p, K Unit (modifyParam p fun q => { q with mValue := v })
    (modifyParam p fun q => { q with mValue := v })
  origin : ∀ o : CciOriginator, K Unit (modifyParam p fun q => { q with mValueOrigin := o })
    (modifyParam p fun q => { q with mValueOrigin := o })
  fastWrite : ∀ o : CciOriginator,
    K Unit (modifyParam p fun q => { q with fastWrite := fastWriteAllowed p o q })
      (modifyParam p fun q => { q with fastWrite := fastWriteAllowed p o q })

namespace Closed

variable {I I' : Interp D B} {G : D.Param → CallbackKind → Prop}
variable {K K' : (α : Type) → CciM D B α → CciM D B α → Prop} (hC : Closed I I' G K K')
variable {p : D.Param} (hS : Stores K p) (hG : G p .preWrite ∧ G p .postWrite)

include hC hS

theorem store (v : D.Value p) (o : CciOriginator) :
    K Unit (CciParamTyped.store p v o) (CciParamTyped.store p v o) :=
  hC.outer.bind (hS.value v) fun _ => hS.origin o

include hG

theorem setRawValue (v : D.Value p) (pwd : Option ℕ) (o : CciOriginator) :
    K Bool (setRawValue I p v pwd o) (setRawValue I' p v pwd o) := by
  refine hC.outer.bind (hC.outer.setCciValueAllowed p) fun _ => hC.outer.ite (hC.outer.pure _) ?_
  refine hC.outer.bind (hC.outer.keyAccepted p pwd) fun _ => hC.outer.ite (hC.outer.pure _) ?_
  refine hC.outer.bind (hC.preWriteCallback hG.1 v o) fun _ => hC.outer.ite (hC.outer.pure _) ?_
  refine hC.outer.bind (hC.outer.getParam p) fun _ => hC.outer.bind (hC.store hS v o) fun _ => ?_
  refine hC.outer.bind (hC.observe hG.2 _) fun _ => ?_
  exact hC.outer.bind (hS.fastWrite o) fun _ => hC.outer.pure _

theorem setValue (v : D.Value p) : K Bool (setValue I p v) (setValue I' p v) := by
  refine hC.outer.bind (hC.outer.getParam p) fun _ =>
    hC.outer.ite ?_ (hC.setRawValue hS hG v _ _)
  exact hC.outer.bind (hS.value v) fun _ => hC.outer.pure _

theorem setValuePwd (v : D.Value p) (pwd : Option ℕ) :
    K Bool (setValuePwd I p v pwd) (setValuePwd I' p v pwd) :=
  hC.outer.bind (hC.outer.getParam p) fun _ => hC.setRawValue hS hG v _ _

theorem setCciValue (c : D.CciValue) (pwd : Option ℕ) (o : CciOriginator) :
    K Bool (setCciValue I p c pwd o) (setCciValue I' p c pwd o) :=
  hC.outer.bind (hC.outer.cciValueGet p c) fun v => hC.setRawValue hS hG v _ _

theorem presetCciValue (c : D.CciValue) (o : CciOriginator) :
    K Bool (presetCciValue I p c o) (presetCciValue I' p c o) := by
  refine hC.outer.bind (hC.outer.getParam p) fun _ =>
    hC.outer.bind (hC.outer.cciValueGet p c) fun v => ?_
  refine hC.outer.bind (hC.preWriteCallback hG.1 v o) fun _ => hC.outer.ite (hC.outer.pure _) ?_
  refine hC.outer.bind (hC.store hS v o) fun _ => ?_
  exact hC.outer.bind (hC.observe hG.2 _) fun _ => hC.outer.pure _

theorem reset [CciBrokerIf B D.BrokerHandle D.CciValue] :
    K Bool (reset I p) (reset I' p) := by
  refine hC.outer.bind (hC.outer.gets id) fun w =>
    hC.outer.ite (hC.outer.pure _) (hC.outer.ite ?_ ?_)
  · exact hC.outer.bind (hC.presetCciValue hS hG _ _) fun _ => hC.outer.pure _
  · refine hC.outer.bind (hC.outer.getParam p) fun q =>
      hC.outer.bind (hC.preWriteCallback hG.1 _ _) fun _ => hC.outer.ite (hC.outer.pure _) ?_
    refine hC.outer.bind (hC.outer.getParam p) fun _ => hC.outer.bind (hC.store hS _ _) fun _ => ?_
    exact hC.outer.bind (hC.observe hG.2 _) fun _ => hC.outer.pure _

end Closed

/-! ### Commands -/

/-- The commands that change no registration. -/
def Cmd.keepsRegistrations : Cmd D → Bool
  | .registerCallback .. | .handleRegisterCallback .. | .unregisterCallback ..
  | .unregisterAllCallbacks .. => false
  | _ => true

/-- The command may write the value of `p`. -/
def Cmd.writes (p : D.Param) : Cmd D → Prop
  | .setValue r _ | .setValuePwd r _ _ | .handleSetValue r _ _ _ | .setCciValue r _ _ _
  | .reset r => r = p
  | _ => False

/-- What `K` needs for the commands that keep the registrations, beside the writes. -/
structure Administers [CciBrokerIf B D.BrokerHandle D.CciValue]
    (K : (α : Type) → CciM D B α → CciM D B α → Prop) : Prop where
  lock : ∀ (p : D.Param) (pwd : Option ℕ), K Unit
    (modifyParam p fun q => (CciParamTyped.lock pwd q).2)
    (modifyParam p fun q => (CciParamTyped.lock pwd q).2)
  unlock : ∀ (p : D.Param) (pwd : Option ℕ), K Unit
    (modifyParam p fun q => (CciParamUntyped.unlock pwd q).2)
    (modifyParam p fun q => (CciParamUntyped.unlock pwd q).2)
  setPreset : ∀ (h : D.BrokerHandle) (n : String) (c : D.CciValue) (o : CciOriginator),
    K Unit (setPreset h n c o) (setPreset h n c o)

/-- What `K` needs for the commands that change registrations. -/
structure Registers (K : (α : Type) → CciM D B α → CciM D B α → Prop) : Prop where
  register : ∀ (p : D.Param) (k : CallbackKind) (cb : CallbackHandle) (o : CciOriginator), K Unit
    (modifyParam p fun q => (CciParamUntyped.registerCallback k cb o q).2)
    (modifyParam p fun q => (CciParamUntyped.registerCallback k cb o q).2)
  registerOwn : ∀ (p : D.Param) (k : CallbackKind) (cb : CallbackHandle), K Unit
    (modifyParam p fun q => (CciParamTyped.registerCallback k cb q).2)
    (modifyParam p fun q => (CciParamTyped.registerCallback k cb q).2)
  unregister : ∀ (p : D.Param) (k : CallbackKind) (cb : CallbackHandle) (o : CciOriginator), K Unit
    (modifyParam p fun q => (CciParamUntyped.unregisterCallback k cb o q).2)
    (modifyParam p fun q => (CciParamUntyped.unregisterCallback k cb o q).2)
  unregisterAll : ∀ (p : D.Param) (o : CciOriginator), K Unit
    (modifyParam p fun q => (CciParamUntyped.unregisterAllCallbacks o q).2)
    (modifyParam p fun q => (CciParamUntyped.unregisterAllCallbacks o q).2)

variable [CciBrokerIf B D.BrokerHandle D.CciValue]
variable {I I' : Interp D B} {G : D.Param → CallbackKind → Prop}
variable {K K' : (α : Type) → CciM D B α → CciM D B α → Prop}

/-- Every command that keeps the registrations; the assignments of a write are needed for the
parameter it writes. -/
theorem Closed.run (hC : Closed I I' G K K') (hread : ∀ p, G p .preRead ∧ G p .postRead) (c : Cmd D)
    (hS : ∀ p, c.writes p → Stores K p ∧ G p .preWrite ∧ G p .postWrite) (hA : Administers K)
    (hc : c.keepsRegistrations = true) : K _ (c.run I) (c.run I') := by
  have hans : ∀ {α : Type} {m m' : CciM D B α} (f : α → Answer D), K α m m' →
      K _ (m >>= fun a => pure (f a)) (m' >>= fun a => pure (f a)) :=
    fun f hm => hC.outer.bind hm fun a => hC.outer.pure (f a)
  cases c with
  | setValue p v => exact hans _ (hC.setValue (hS p rfl).1 (hS p rfl).2 v)
  | setValuePwd p v pwd => exact hans _ (hC.setValuePwd (hS p rfl).1 (hS p rfl).2 v pwd)
  | handleSetValue p v pwd o => exact hans _ (hC.setRawValue (hS p rfl).1 (hS p rfl).2 v pwd o)
  | setCciValue p c pwd o => exact hans _ (hC.setCciValue (hS p rfl).1 (hS p rfl).2 c pwd o)
  | getValue p => exact hans _ (hC.getValue (hread p))
  | handleGetValue p o => exact hans _ (hC.getRawValue (hread p) o)
  | getCciValue p o => exact hans _ (hC.getCciValue (hread p) o)
  | reset p => exact hans _ (hC.reset (hS p rfl).1 (hS p rfl).2)
  | lock p pwd => exact hans _ (hC.outer.onParam p (hA.lock p pwd))
  | unlock p pwd => exact hans _ (hC.outer.onParam p (hA.unlock p pwd))
  | isLocked p => exact hans _ (hC.outer.getParam p)
  | setPresetCciValue h n c o => exact hans _ (hA.setPreset h n c o)
  | registerCallback p k cb => cases hc
  | handleRegisterCallback p k cb o => cases hc
  | unregisterCallback p k cb o => cases hc
  | unregisterAllCallbacks p o => cases hc

/-- Every command. -/
theorem Closed.run_all (hC : Closed I I' G K K') (hread : ∀ p, G p .preRead ∧ G p .postRead)
    (c : Cmd D) (hS : ∀ p, c.writes p → Stores K p ∧ G p .preWrite ∧ G p .postWrite)
    (hA : Administers K) (hR : Registers K) : K _ (c.run I) (c.run I') := by
  have hans : ∀ {α : Type} {m m' : CciM D B α} (f : α → Answer D), K α m m' →
      K _ (m >>= fun a => pure (f a)) (m' >>= fun a => pure (f a)) :=
    fun f hm => hC.outer.bind hm fun a => hC.outer.pure (f a)
  cases hc : c.keepsRegistrations with
  | true => exact hC.run hread c hS hA hc
  | false =>
    cases c with
    | registerCallback p k cb => exact hans _ (hC.outer.onParam p (hR.registerOwn p k cb))
    | handleRegisterCallback p k cb o => exact hans _ (hC.outer.onParam p (hR.register p k cb o))
    | unregisterCallback p k cb o => exact hans _ (hC.outer.onParam p (hR.unregister p k cb o))
    | unregisterAllCallbacks p o => exact hans _ (hC.outer.onParam p (hR.unregisterAll p o))
    | _ => cases hc

/-- A client program, if its commands are. -/
theorem Reports.runProg (hK : Reports K) (I I' : Interp D B) {prog : Prog D} (P : Cmd D → Prop)
    (hexec : ∀ c, P c → K _ (exec I c) (exec I' c)) (hprog : prog.All P) :
    K Bool (runProg I prog) (runProg I' prog) := by
  induction hprog with
  | ret b => exact hK.pure b
  | raise r => exact hK.raise r
  | cmd hc _ ih => exact hK.bind (hK.attempt (hexec _ hc)) ih

end Cci
