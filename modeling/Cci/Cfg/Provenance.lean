import Cci.Lib.Projection
import Cci.Cfg.Updates

/-!
# How a value was put in place

The same operations, run on parameters that hold in place of a value the way it was put there: the
default value, a preset of the broker, or a write.  These runs carry the history of every parameter
with them, and seen through the value each history comes to they are the runs of the design itself.

* `Source` — the history of a value, and `Source.value`;
* `Design.sourced`, `SourcedBroker` — the design over histories, and the broker whose presets are
  marked as such;
* `World.erase` — a world of histories, seen as one of values;
* `exec_projects` — every command does the same in both;
* `Calls.sourced` — every run of the design is the projection of one over histories.
-/

namespace Cci

open Effect CciParamTyped

variable {D : Design} {B : Type}

/-! ### Histories -/

/-- How the present value of a parameter was put in place: it is the default value, it was taken from
a preset of the broker, or it was written. -/
inductive Source (D : Design) (p : D.Param) where
  | default : Source D p
  | preset (c : D.CciValue) : Source D p
  | write (v : D.Value p) : Source D p

/-- The value that was put in place. -/
def Source.value (dflt : (p : D.Param) → D.Value p) {p : D.Param} : Source D p → D.Value p
  | .default => dflt p
  | .preset c => (D.unpack p (D.uninit p) c).2
  | .write v => v

/-- A `cci_value`, as a preset that the broker gave or as any other. -/
inductive SourcedCci (C : Type) where
  | preset (c : C) : SourcedCci C
  | other (c : C) : SourcedCci C

def SourcedCci.value {C : Type} : SourcedCci C → C
  | .preset c | .other c => c

/-- The design over histories: the parameters with the default values `dflt`. -/
def Design.sourced (D : Design) (dflt : (p : D.Param) → D.Value p) : Design where
  Param := D.Param
  decParam := D.decParam
  Value := Source D
  CciValue := SourcedCci D.CciValue
  BrokerHandle := D.BrokerHandle
  typeId := D.typeId
  mutableType := D.mutableType
  pack p s := ((D.pack p (s.value dflt)).1, .other (D.pack p (s.value dflt)).2)
  unpack p dst
    | .preset c => ((D.unpack p (D.uninit p) c).1, .preset c)
    | .other c => ((D.unpack p (dst.value dflt) c).1, .write (D.unpack p (dst.value dflt) c).2)
  uninit p := .write (D.uninit p)
  valueEq p a b := D.valueEq p (a.value dflt) (b.value dflt)
  throws := D.throws

/-- A broker whose presets are marked as such. -/
structure SourcedBroker (B : Type) where
  broker : B

variable {dflt : (p : D.Param) → D.Value p}

instance [CciBrokerIf B D.BrokerHandle D.CciValue] :
    CciBrokerIf (SourcedBroker B) (D.sourced dflt).BrokerHandle (D.sourced dflt).CciValue where
  hasPresetValue b (h : D.BrokerHandle) n := CciBrokerIf.hasPresetValue b.broker h n
  getPresetCciValue b (h : D.BrokerHandle) n := .preset (CciBrokerIf.getPresetCciValue b.broker h n)
  getPresetValueOrigin b (h : D.BrokerHandle) n := CciBrokerIf.getPresetValueOrigin b.broker h n
  setPresetCciValue b (h : D.BrokerHandle) n c o :=
    (CciBrokerIf.setPresetCciValue b.broker h n c.value o).map SourcedBroker.mk

/-! ### Histories seen as values -/

def ParamEvent.map {V W : Type} (f : V → W) : ParamEvent V → ParamEvent W
  | .write oldValue newValue originator paramHandle =>
      .write (f oldValue) (f newValue) originator paramHandle
  | .read value originator paramHandle => .read (f value) originator paramHandle

def CciParam.map {T U : Type} (f : T → U) (q : CciParam T) : CciParam U where
  mName := q.mName
  mValue := f q.mValue
  mDefaultValue := f q.mDefaultValue
  mValueOrigin := q.mValueOrigin
  mOriginator := q.mOriginator
  mLockPwd := q.mLockPwd
  this := q.this
  callbacks := q.callbacks
  fastRead := q.fastRead
  fastWrite := q.fastWrite

def Payload.erase : Payload (D.sourced dflt) → Payload D
  | .typed p ev => .typed p (ev.map (Source.value dflt))
  | .untyped p ev => .untyped p (ev.map SourcedCci.value)

def Answer.erase : Answer (D.sourced dflt) → Answer D
  | .unit => .unit
  | .flag b => .flag b
  | .value p v => .value p (Source.value dflt v)
  | .cci c => .cci (SourcedCci.value c)

def Cmd.erase : Cmd (D.sourced dflt) → Cmd D
  | .setValue p v => .setValue p (Source.value dflt v)
  | .setValuePwd p v pwd => .setValuePwd p (Source.value dflt v) pwd
  | .handleSetValue p v pwd o => .handleSetValue p (Source.value dflt v) pwd o
  | .setCciValue p c pwd o => .setCciValue p (SourcedCci.value c) pwd o
  | .getValue p => .getValue p
  | .handleGetValue p o => .handleGetValue p o
  | .getCciValue p o => .getCciValue p o
  | .reset p => .reset p
  | .lock p pwd => .lock p pwd
  | .unlock p pwd => .unlock p pwd
  | .isLocked p => .isLocked p
  | .registerCallback p k cb => .registerCallback p k cb
  | .handleRegisterCallback p k cb o => .handleRegisterCallback p k cb o
  | .unregisterCallback p k cb o => .unregisterCallback p k cb o
  | .unregisterAllCallbacks p o => .unregisterAllCallbacks p o
  | .setPresetCciValue h n c o => .setPresetCciValue h n (SourcedCci.value c) o

def Store.erase (s : Store (D.sourced dflt) (SourcedBroker B)) : Store D B where
  params p := (s.params p).map (Source.value dflt)
  mBrokerHandle := s.mBrokerHandle
  broker := s.broker.broker

def TraceEvent.erase : TraceEvent (D.sourced dflt) (SourcedBroker B) → TraceEvent D B
  | .step c s => .step c.erase s.erase
  | .done c s => .done c.erase s.erase
  | .dispatch p k st => .dispatch p k st
  | .invoked p k entry ev => .invoked p k entry (ev.map (Source.value dflt))
  | .report r => .report r

def World.erase (w : World (D.sourced dflt) (SourcedBroker B)) : World D B where
  store := w.store.erase
  stack := w.stack
  trace := w.trace.map TraceEvent.erase

/-! ### Client code over histories -/

/-- A command of client code: what it writes is a write. -/
def Cmd.sourced (dflt : (p : D.Param) → D.Value p) : Cmd D → Cmd (D.sourced dflt)
  | .setValue p v => .setValue p (.write v)
  | .setValuePwd p v pwd => .setValuePwd p (.write v) pwd
  | .handleSetValue p v pwd o => .handleSetValue p (.write v) pwd o
  | .setCciValue p c pwd o => .setCciValue p (.other c) pwd o
  | .getValue p => .getValue p
  | .handleGetValue p o => .handleGetValue p o
  | .getCciValue p o => .getCciValue p o
  | .reset p => .reset p
  | .lock p pwd => .lock p pwd
  | .unlock p pwd => .unlock p pwd
  | .isLocked p => .isLocked p
  | .registerCallback p k cb => .registerCallback p k cb
  | .handleRegisterCallback p k cb o => .handleRegisterCallback p k cb o
  | .unregisterCallback p k cb o => .unregisterCallback p k cb o
  | .unregisterAllCallbacks p o => .unregisterAllCallbacks p o
  | .setPresetCciValue h n c o => .setPresetCciValue h n (.other c) o

theorem Cmd.erase_sourced (c : Cmd D) : (c.sourced dflt).erase = c := by
  cases c <;> rfl

/-- A client program, which sees values. -/
def Prog.sourced (dflt : (p : D.Param) → D.Value p) : Prog D → Prog (D.sourced dflt)
  | .ret b => .ret b
  | .raise r => .raise r
  | .cmd c k => .cmd (c.sourced dflt) fun a => (k (a.map Answer.erase)).sourced dflt

/-- A table of callback bodies, which see values. -/
def sourcedBodies (dflt : (p : D.Param) → D.Value p) (Γ : CallbackImpl → Payload D → Prog D) :
    CallbackImpl → Payload (D.sourced dflt) → Prog (D.sourced dflt) :=
  fun f ev => (Γ f ev.erase).sourced dflt

/-! ### The same steps -/

/-- Seen as a computation over values, `m'` is `m`. -/
abbrev Mirrors {α' α : Type} (f : α' → α) (m' : CciM (D.sourced dflt) (SourcedBroker B) α')
    (m : CciM D B α) : Prop := Projects World.erase f m' m

theorem World.erase_setParam (w : World (D.sourced dflt) (SourcedBroker B)) (p : D.Param)
    (q : CciParam (Source D p)) :
    (World.setParam w p q).erase = w.erase.setParam p (q.map (Source.value dflt)) := by
  have hparams : (fun r : D.Param => CciParam.map (Source.value dflt)
      (World.param (D := D.sourced dflt) (World.setParam w p q) r)) =
      Function.update w.erase.store.params p (q.map (Source.value dflt)) := by
    funext r
    by_cases hr : r = p
    · subst hr
      rw [Function.update_self]
      exact congrArg (CciParam.map _) (World.param_setParam (D := D.sourced dflt) w r q)
    · rw [Function.update_of_ne hr]
      exact congrArg (CciParam.map _) (World.param_setParam_of_ne (D := D.sourced dflt) w q hr)
  exact congrArg (fun ps => (⟨⟨ps, _, _⟩, _, _⟩ : World D B)) hparams

theorem World.erase_record (w : World (D.sourced dflt) (SourcedBroker B))
    (e : TraceEvent (D.sourced dflt) (SourcedBroker B)) :
    (w.record e).erase = w.erase.record e.erase :=
  congrArg (fun tr => (⟨_, _, tr⟩ : World D B)) List.map_append

theorem getParam_mirrors (p : D.Param) :
    Mirrors (CciParam.map (Source.value dflt))
      (getParam (D := D.sourced dflt) (B := SourcedBroker B) p) (getParam p) :=
  Projects.gets fun _ => rfl

theorem modifyParam_mirrors (p : D.Param) {g' : CciParam (Source D p) → CciParam (Source D p)}
    {g : CciParam (D.Value p) → CciParam (D.Value p)}
    (h : ∀ q, g (q.map (Source.value dflt)) = (g' q).map (Source.value dflt)) :
    Mirrors id (modifyParam (D := D.sourced dflt) (B := SourcedBroker B) p g') (modifyParam p g) := by
  refine Projects.modify fun w => ?_
  rw [World.erase_setParam]
  exact congrArg (w.erase.setParam p) (h _)

theorem log_mirrors (e : TraceEvent (D.sourced dflt) (SourcedBroker B)) :
    Mirrors id (log e) (log e.erase) :=
  Projects.modify fun w => (w.erase_record e).symm

theorem reportError_mirrors (r : Report) :
    Mirrors id (reportError (D := D.sourced dflt) (B := SourcedBroker B) r) (reportError r) :=
  (log_mirrors (.report r)).bind fun _ => .ite (.raise r) (.pure ())

theorem cciValueGet_mirrors (p : D.Param) (c : SourcedCci D.CciValue) :
    Mirrors (Source.value dflt) (cciValueGet (D := D.sourced dflt) (B := SourcedBroker B) p c)
      (cciValueGet p c.value) := by
  cases c with
  | preset c => exact .ite (.pure _) ((reportError_mirrors _).bind fun _ => .pure _)
  | other c => exact .ite (.pure _) ((reportError_mirrors _).bind fun _ => .pure _)

theorem cciValueOf_mirrors (p : D.Param) (v : Source D p) :
    Mirrors SourcedCci.value (cciValueOf (D := D.sourced dflt) (B := SourcedBroker B) p v)
      (cciValueOf p (v.value dflt)) :=
  .ite (.pure _) ((reportError_mirrors _).bind fun _ => .pure _)

theorem genericWrap_mirrors (p : D.Param) (ev : ParamEvent (Source D p)) :
    Mirrors (ParamEvent.map SourcedCci.value)
      (genericWrap (D := D.sourced dflt) (B := SourcedBroker B) p ev)
      (genericWrap p (ev.map (Source.value dflt))) := by
  cases ev with
  | write oldValue newValue originator paramHandle =>
    exact (cciValueOf_mirrors p oldValue).bind fun _ =>
      (cciValueOf_mirrors p newValue).bind fun _ => .pure _
  | read value originator paramHandle =>
    exact (cciValueOf_mirrors p value).bind fun _ => .pure _

/-- Callback bodies that do the same, with the same fuel. -/
structure Interp.MirroredBy (I : Interp D B) (I' : Interp (D.sourced dflt) (SourcedBroker B)) :
    Prop where
  call : ∀ f ev, Mirrors id (I'.call f ev) (I.call f ev.erase)
  fuel : I'.fuel = I.fuel

section Operations

variable {I : Interp D B} {I' : Interp (D.sourced dflt) (SourcedBroker B)}

theorem invokeTyped_mirrors (hI : I.MirroredBy I') (p : D.Param) (k : CallbackKind)
    (entry : CallbackObj) (ev : ParamEvent (Source D p)) (h : CallbackHandle) :
    Mirrors id (invokeTyped I' p k entry ev h)
      (invokeTyped I p k entry (ev.map (Source.value dflt)) h) := by
  cases h with
  | none => exact .abort
  | some held =>
    cases held with
    | impl f => exact (log_mirrors (.invoked p k entry ev)).bind fun _ => hI.call f (.typed p ev)
    | adapt f s =>
      refine (genericWrap_mirrors p ev).bind fun cciEv => ?_
      exact (log_mirrors (.invoked p k entry ev)).bind fun _ => hI.call f (.untyped p cciEv)

theorem World.erase_enterDispatch (w : World (D.sourced dflt) (SourcedBroker B)) (p : D.Param)
    (k : CallbackKind) :
    (enterDispatch (D := D.sourced dflt) p k w).erase = enterDispatch p k w.erase := by
  have hset := World.erase_setParam w p ((World.param (D := D.sourced dflt) w p).setOncall k true)
  have hrecord := World.erase_record (World.setParam (D := D.sourced dflt) w p
    ((World.param (D := D.sourced dflt) w p).setOncall k true)) (.dispatch p k w.stack)
  exact congrArg (fun u : World D B => { u with stack := (p, k) :: w.stack })
    (hrecord.trans (congrArg (fun u : World D B => u.record (.dispatch p k w.stack)) hset))

theorem World.erase_leaveDispatch (w : World (D.sourced dflt) (SourcedBroker B)) (p : D.Param)
    (k : CallbackKind) :
    (leaveDispatch (D := D.sourced dflt) p k w).erase = leaveDispatch p k w.erase :=
  congrArg (fun u : World D B => { u with stack := w.stack.tail })
    (World.erase_setParam w p ((World.param (D := D.sourced dflt) w p).setOncall k false))

/-- A dispatch loop under its reentrancy test. -/
theorem guarded_mirrors (hI : I.MirroredBy I') {α : Type} (p : D.Param) (k : CallbackKind)
    {act' : CallbackObj → α → CciM (D.sourced dflt) (SourcedBroker B) α}
    {act : CallbackObj → α → CciM D B α} (hact : ∀ e a, Mirrors id (act' e a) (act e a))
    (init skip : α) : Mirrors id (guarded I' p k act' init skip) (guarded I p k act init skip) := by
  refine (getParam_mirrors p).bind fun q => .ite (.pure skip) ?_
  refine (Projects.modify fun w => (World.erase_enterDispatch w p k).symm).bind fun _ => ?_
  refine .finalizing (fun w => (World.erase_leaveDispatch w p k).symm) ?_
  rw [hI.fuel]
  exact .forEach (fun _ _ => rfl) hact _ _ _

theorem preWriteCallback_mirrors (hI : I.MirroredBy I') (p : D.Param) (v : Source D p)
    (o : CciOriginator) :
    Mirrors id (preWriteCallback I' p v o) (preWriteCallback I p (v.value dflt) o) := by
  refine guarded_mirrors hI p .preWrite (fun entry result => ?_) true false
  refine (getParam_mirrors p).bind fun q => ?_
  refine (invokeTyped_mirrors hI p .preWrite entry (.write q.mValue v o entry.originator) _).bind
    fun accepted => ?_
  exact .ite (.pure result) ((reportError_mirrors _).bind fun _ => .pure false)

theorem observe_mirrors (hI : I.MirroredBy I') (p : D.Param) (k : CallbackKind)
    {mkEvent' : CciParam (Source D p) → CallbackObj → ParamEvent (Source D p)}
    {mkEvent : CciParam (D.Value p) → CallbackObj → ParamEvent (D.Value p)}
    (h : ∀ q e, mkEvent (q.map (Source.value dflt)) e = (mkEvent' q e).map (Source.value dflt)) :
    Mirrors id (observe I' p k mkEvent') (observe I p k mkEvent) := by
  refine guarded_mirrors hI p k (fun entry _ => .ite ?_ (.pure ())) () ()
  refine (getParam_mirrors p).bind fun q => ?_
  rw [h]
  exact (invokeTyped_mirrors hI p k entry (mkEvent' q entry) _).bind fun _ => .pure ()

theorem postWriteCallback_mirrors (hI : I.MirroredBy I') (p : D.Param) (old new : Source D p)
    (o : CciOriginator) :
    Mirrors id (postWriteCallback I' p old new o)
      (postWriteCallback I p (old.value dflt) (new.value dflt) o) :=
  observe_mirrors hI p .postWrite fun _ _ => rfl

/-! ### Writing and reading -/

theorem setCciValueAllowed_mirrors (p : D.Param) :
    Mirrors id (setCciValueAllowed (D := D.sourced dflt) (B := SourcedBroker B) p)
      (setCciValueAllowed p) :=
  .ite ((getParam_mirrors p).bind fun _ => (reportError_mirrors _).bind fun _ => .pure false)
    (.pure true)

theorem keyAccepted_mirrors (p : D.Param) (pwd : Option ℕ) :
    Mirrors id (keyAccepted (D := D.sourced dflt) (B := SourcedBroker B) p pwd)
      (keyAccepted p pwd) := by
  refine (getParam_mirrors p).bind fun q => ?_
  cases pwd with
  | none => exact .ite ((reportError_mirrors _).bind fun _ => .pure false) (.pure true)
  | some key => exact .ite ((reportError_mirrors _).bind fun _ => .pure false) (.pure true)

theorem store_mirrors (p : D.Param) (v : Source D p) (o : CciOriginator) :
    Mirrors id (CciParamTyped.store (D := D.sourced dflt) (B := SourcedBroker B) p v o)
      (CciParamTyped.store p (v.value dflt) o) :=
  (modifyParam_mirrors p fun _ => rfl).bind fun _ => modifyParam_mirrors p fun _ => rfl

theorem setRawValue_mirrors (hI : I.MirroredBy I') (p : D.Param) (v : Source D p)
    (pwd : Option ℕ) (o : CciOriginator) :
    Mirrors id (setRawValue I' p v pwd o) (setRawValue I p (v.value dflt) pwd o) := by
  refine (setCciValueAllowed_mirrors p).bind fun _ => .ite (.pure false) ?_
  refine (keyAccepted_mirrors p pwd).bind fun _ => .ite (.pure false) ?_
  refine (preWriteCallback_mirrors hI p v o).bind fun _ => .ite (.pure false) ?_
  refine (getParam_mirrors p).bind fun q => (store_mirrors p v o).bind fun _ => ?_
  refine (postWriteCallback_mirrors hI p q.mValue v o).bind fun _ => ?_
  exact (modifyParam_mirrors p fun _ => rfl).bind fun _ => .pure true

theorem setValue_mirrors (hI : I.MirroredBy I') (p : D.Param) (v : Source D p) :
    Mirrors id (setValue I' p v) (setValue I p (v.value dflt)) := by
  refine (getParam_mirrors p).bind fun q => .ite ?_ (setRawValue_mirrors hI p v none _)
  exact (modifyParam_mirrors p fun _ => rfl).bind fun _ => .pure true

theorem setValuePwd_mirrors (hI : I.MirroredBy I') (p : D.Param) (v : Source D p)
    (pwd : Option ℕ) : Mirrors id (setValuePwd I' p v pwd) (setValuePwd I p (v.value dflt) pwd) :=
  (getParam_mirrors p).bind fun _ => setRawValue_mirrors hI p v pwd _

theorem setCciValue_mirrors (hI : I.MirroredBy I') (p : D.Param) (c : SourcedCci D.CciValue)
    (pwd : Option ℕ) (o : CciOriginator) :
    Mirrors id (setCciValue I' p c pwd o) (setCciValue I p c.value pwd o) :=
  (cciValueGet_mirrors p c).bind fun v => setRawValue_mirrors hI p v pwd o

theorem presetCciValue_mirrors (hI : I.MirroredBy I') (p : D.Param) (c : SourcedCci D.CciValue)
    (o : CciOriginator) :
    Mirrors id (presetCciValue I' p c o) (presetCciValue I p c.value o) := by
  refine (getParam_mirrors p).bind fun q => (cciValueGet_mirrors p c).bind fun v => ?_
  refine (preWriteCallback_mirrors hI p v o).bind fun _ => .ite (.pure false) ?_
  refine (store_mirrors p v o).bind fun _ => ?_
  exact (postWriteCallback_mirrors hI p q.mValue v o).bind fun _ => .pure true

theorem getRawValue_mirrors (hI : I.MirroredBy I') (p : D.Param) (o : CciOriginator) :
    Mirrors (Source.value dflt) (getRawValue I' p o) (getRawValue I p o) := by
  refine (observe_mirrors hI p .preRead fun _ _ => rfl).bind fun _ => ?_
  refine (observe_mirrors hI p .postRead fun _ _ => rfl).bind fun _ => ?_
  refine (modifyParam_mirrors p fun _ => rfl).bind fun _ => ?_
  exact (getParam_mirrors p).bind fun _ => .pure _

theorem getValue_mirrors (hI : I.MirroredBy I') (p : D.Param) :
    Mirrors (Source.value dflt) (getValue I' p) (getValue I p) :=
  (getParam_mirrors p).bind fun _ => .ite (.pure _) (getRawValue_mirrors hI p _)

theorem getCciValue_mirrors (hI : I.MirroredBy I') (p : D.Param) (o : CciOriginator) :
    Mirrors SourcedCci.value (getCciValue I' p o) (getCciValue I p o) :=
  (getRawValue_mirrors hI p o).bind fun v => cciValueOf_mirrors p v

/-! ### Commands and programs -/

/-- An operation that does not look at values. -/
theorem onParam_mirrors {α : Type} (p : D.Param)
    {f' : CciParam (Source D p) → α × CciParam (Source D p)}
    {f : CciParam (D.Value p) → α × CciParam (D.Value p)}
    (h : ∀ q, f (q.map (Source.value dflt)) = ((f' q).1, (f' q).2.map (Source.value dflt))) :
    Mirrors id (onParam (D := D.sourced dflt) (B := SourcedBroker B) p f') (onParam p f) := by
  refine (getParam_mirrors p).bind fun q => ?_
  refine (modifyParam_mirrors p fun r => congrArg Prod.snd (h r)).bind fun _ => ?_
  rw [h]
  exact .pure (f' q).1

theorem untypedLock_map {T U : Type} (f : T → U) (pwd : Option ℕ) (q : CciParam T) :
    CciParamUntyped.lock pwd (q.map f) =
      ((CciParamUntyped.lock pwd q).1, (CciParamUntyped.lock pwd q).2.map f) := by
  by_cases h : some (CciParamUntyped.keyOf q pwd) ≠ q.mLockPwd ∧ q.mLockPwd ≠ none
  · have hq : CciParamUntyped.lock pwd q = (false, q) := if_pos h
    rw [hq]
    exact if_pos h
  · have hq : CciParamUntyped.lock pwd q =
        (true, { q with mLockPwd := some (CciParamUntyped.keyOf q pwd) }) := if_neg h
    rw [hq]
    exact if_neg h

theorem lock_map {T U : Type} (f : T → U) (pwd : Option ℕ) (q : CciParam T) :
    CciParamTyped.lock pwd (q.map f) =
      ((CciParamTyped.lock pwd q).1, (CciParamTyped.lock pwd q).2.map f) :=
  untypedLock_map f pwd { q with fastWrite := false }

theorem unlock_map {T U : Type} (f : T → U) (pwd : Option ℕ) (q : CciParam T) :
    CciParamUntyped.unlock pwd (q.map f) =
      ((CciParamUntyped.unlock pwd q).1, (CciParamUntyped.unlock pwd q).2.map f) := by
  by_cases h : some (CciParamUntyped.keyOf q pwd) = q.mLockPwd
  · have hq : CciParamUntyped.unlock pwd q = (true, { q with mLockPwd := none }) := if_pos h
    rw [hq]
    exact if_pos h
  · have hq : CciParamUntyped.unlock pwd q = (false, q) := if_neg h
    rw [hq]
    exact if_neg h

theorem unregisterCallback_map {T U : Type} (f : T → U) (k : CallbackKind) (cb : CallbackHandle)
    (o : CciOriginator) (q : CciParam T) :
    CciParamUntyped.unregisterCallback k cb o (q.map f) =
      ((CciParamUntyped.unregisterCallback k cb o q).1,
        (CciParamUntyped.unregisterCallback k cb o q).2.map f) := by
  by_cases h : (q.vec k).any (CciParamUntyped.matchesEntry cb o) = true
  · have hq : CciParamUntyped.unregisterCallback k cb o q =
        (true, q.setVec k ((q.vec k).eraseP (CciParamUntyped.matchesEntry cb o))) := if_pos h
    rw [hq]
    exact if_pos h
  · have hq : CciParamUntyped.unregisterCallback k cb o q = (false, q) := if_neg h
    rw [hq]
    exact if_neg h

theorem answer_mirrors {α' α : Type} {f : α' → α} {g' : α' → Answer (D.sourced dflt)}
    {g : α → Answer D} {m' : CciM (D.sourced dflt) (SourcedBroker B) α'} {m : CciM D B α}
    (hm : Mirrors f m' m) (h : ∀ a, g (f a) = (g' a).erase) :
    Mirrors Answer.erase (m' >>= fun a => pure (g' a)) (m >>= fun a => pure (g a)) := by
  refine hm.bind fun a => ?_
  rw [h]
  exact .pure (g' a)

variable [CciBrokerIf B D.BrokerHandle D.CciValue]

theorem reset_mirrors (hI : I.MirroredBy I') (p : D.Param) :
    Mirrors id (reset I' p) (reset I p) := by
  refine Projects.get.bind fun w => .ite (.pure false) (.ite ?_ ?_)
  · exact (presetCciValue_mirrors hI p (.preset _) _).bind fun _ => .pure true
  · refine (getParam_mirrors p).bind fun q => ?_
    refine (preWriteCallback_mirrors hI p q.mDefaultValue q.mOriginator).bind fun _ =>
      .ite (.pure false) ?_
    refine (getParam_mirrors p).bind fun r => ?_
    refine (store_mirrors p q.mDefaultValue q.mOriginator).bind fun _ => ?_
    exact (postWriteCallback_mirrors hI p r.mValue q.mDefaultValue _).bind fun _ => .pure true

theorem setPreset_mirrors (h : D.BrokerHandle) (n : String) (c : SourcedCci D.CciValue)
    (o : CciOriginator) :
    Mirrors id (setPreset (D := D.sourced dflt) (B := SourcedBroker B) h n c o)
      (setPreset h n c.value o) := by
  refine Projects.get.bind fun w => ?_
  have hset : CciBrokerIf.setPresetCciValue (C := (D.sourced dflt).CciValue) w.store.broker
      (show (D.sourced dflt).BrokerHandle from h) n c o =
        (CciBrokerIf.setPresetCciValue w.store.broker.broker h n c.value o).map SourcedBroker.mk :=
    rfl
  have herase : w.erase.store.broker = w.store.broker.broker := rfl
  simp only [hset, herase]
  cases CciBrokerIf.setPresetCciValue w.store.broker.broker h n c.value o with
  | error r => exact reportError_mirrors r
  | ok b => exact Projects.modify fun _ => rfl

theorem run_mirrors (hI : I.MirroredBy I') (c : Cmd D) :
    Mirrors Answer.erase ((c.sourced dflt).run I') (c.run I) := by
  cases c with
  | setValue p v => exact answer_mirrors (setValue_mirrors hI p (.write v)) fun _ => rfl
  | setValuePwd p v pwd => exact answer_mirrors (setValuePwd_mirrors hI p (.write v) pwd) fun _ => rfl
  | handleSetValue p v pwd o =>
    exact answer_mirrors (setRawValue_mirrors hI p (.write v) pwd o) fun _ => rfl
  | setCciValue p c pwd o =>
    exact answer_mirrors (setCciValue_mirrors hI p (.other c) pwd o) fun _ => rfl
  | getValue p => exact answer_mirrors (getValue_mirrors hI p) fun _ => rfl
  | handleGetValue p o => exact answer_mirrors (getRawValue_mirrors hI p o) fun _ => rfl
  | getCciValue p o => exact answer_mirrors (getCciValue_mirrors hI p o) fun _ => rfl
  | reset p => exact answer_mirrors (reset_mirrors hI p) fun _ => rfl
  | lock p pwd => exact answer_mirrors (onParam_mirrors p (lock_map _ pwd)) fun _ => rfl
  | unlock p pwd => exact answer_mirrors (onParam_mirrors p (unlock_map _ pwd)) fun _ => rfl
  | isLocked p => exact answer_mirrors (getParam_mirrors p) fun _ => rfl
  | registerCallback p k cb => exact answer_mirrors (onParam_mirrors p fun _ => rfl) fun _ => rfl
  | handleRegisterCallback p k cb o =>
    exact answer_mirrors (onParam_mirrors p fun _ => rfl) fun _ => rfl
  | unregisterCallback p k cb o =>
    exact answer_mirrors (onParam_mirrors p (unregisterCallback_map _ k cb o)) fun _ => rfl
  | unregisterAllCallbacks p o =>
    exact answer_mirrors (onParam_mirrors p fun _ => rfl) fun _ => rfl
  | setPresetCciValue h n c o => exact answer_mirrors (setPreset_mirrors h n (.other c) o) fun _ => rfl

theorem exec_projects (hI : I.MirroredBy I') (c : Cmd D) :
    Mirrors Answer.erase (exec I' (c.sourced dflt)) (exec I c) := by
  have hrecord : ∀ w : World (D.sourced dflt) (SourcedBroker B),
      w.erase.record (.step c w.erase.store) = (w.record (.step (c.sourced dflt) w.store)).erase ∧
      w.erase.record (.done c w.erase.store) = (w.record (.done (c.sourced dflt) w.store)).erase := by
    intro w
    rw [World.erase_record, World.erase_record]
    simp only [TraceEvent.erase, Cmd.erase_sourced]
    exact ⟨rfl, rfl⟩
  exact (Projects.modify fun w => (hrecord w).1).bind fun _ =>
    .finalizing (fun w => (hrecord w).2) (run_mirrors hI c)

theorem runProg_mirrors (hI : I.MirroredBy I') (prog : Prog D) :
    Mirrors id (runProg I' (prog.sourced dflt)) (runProg I prog) := by
  induction prog with
  | ret b => exact .pure b
  | raise r => exact .raise r
  | cmd c k ih => exact (exec_projects hI c).attempt.bind fun a => ih (a.map Answer.erase)

end Operations

variable [CciBrokerIf B D.BrokerHandle D.CciValue]

theorem interp_mirrored (dflt : (p : D.Param) → D.Value p)
    (Γ : CallbackImpl → Payload D → Prog D) (n : ℕ) :
    (interp Γ n : Interp D B).MirroredBy (interp (sourcedBodies dflt Γ) n) := by
  induction n with
  | zero => exact ⟨fun _ _ => .diverge, rfl⟩
  | succ n ih => exact ⟨fun f ev => runProg_mirrors ih (Γ f ev.erase), rfl⟩

/-- A run of the design, from the world that `w` is seen as, is what a run over histories is seen
as. -/
theorem Calls.sourced {Γ : CallbackImpl → Payload D → Prog D} {n : ℕ} {cs : List (Cmd D)}
    {w : World (D.sourced dflt) (SourcedBroker B)} {t : World D B}
    (hrun : Calls (interp Γ n) w.erase cs t) :
    ∃ t', t'.erase = t ∧
      Calls (interp (sourcedBodies dflt Γ) n) w (cs.map (Cmd.sourced dflt)) t' :=
  hrun.lift fun c => exec_projects (interp_mirrored dflt Γ n) c

end Cci
