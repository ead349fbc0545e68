import Cci.Lib.Runs
import Cci.Cfg.ParamTyped

/-!
# Client code

Client code calls parameters from outside and from the bodies of callbacks.  A callback body is a
finite program of such calls; as a body may trigger further dispatches, bodies run under a fuel
that bounds the depth of nested invocations.

* `exec` — one client command, recorded in the trace with the store before and after it;
* `Prog`, `runProg` — finite programs that see every answer and every exception;
* `interp` — the interpretation of callback bodies given by a table of programs;
* `Calls` — a run of top-level commands, each of which came back to the caller;
* `World.visible` — the stores client code can look at: before and after each command, nested ones
  included.
-/

namespace Cci

open Effect

variable {D : Design} {B : Type}

/-- What a command answers to its caller. -/
inductive Answer (D : Design) where
  | unit : Answer D
  | flag (b : Bool) : Answer D
  | value (p : D.Param) (v : D.Value p) : Answer D
  | cci (c : D.CciValue) : Answer D

/-- A finite client program: it ends with a verdict or an exception, or makes a call and goes on
with its answer or the exception the call raised. -/
inductive Prog (D : Design) where
  | ret : Bool → Prog D
  | raise : Report → Prog D
  | cmd : Cmd D → (Except Report (Answer D) → Prog D) → Prog D

/-- Every command the program can make satisfies `P`. -/
inductive Prog.All (P : Cmd D → Prop) : Prog D → Prop where
  | ret (b : Bool) : Prog.All P (.ret b)
  | raise (r : Report) : Prog.All P (.raise r)
  | cmd {c : Cmd D} {k : Except Report (Answer D) → Prog D} :
      P c → (∀ a, Prog.All P (k a)) → Prog.All P (.cmd c k)

theorem Prog.all_true (prog : Prog D) : prog.All fun _ => True := by
  induction prog with
  | ret b => exact .ret b
  | raise r => exact .raise r
  | cmd c k ih => exact .cmd trivial ih

section

variable [CciBrokerIf B D.BrokerHandle D.CciValue]

/-- Apply an operation that only touches one parameter object. -/
def onParam {α : Type} (p : D.Param) (f : CciParam (D.Value p) → α × CciParam (D.Value p)) :
    CciM D B α := do
  let q ← getParam p
  modifyParam p fun q => (f q).2
  pure (f q).1

/-- `set_preset_cci_value` on a broker. -/
def setPreset (h : D.BrokerHandle) (parname : String) (c : D.CciValue) (o : CciOriginator) :
    CciM D B Unit := do
  let w ← Eff.get
  match CciBrokerIf.setPresetCciValue w.store.broker h parname c o with
  | .error r => reportError r
  | .ok b => Eff.modify fun w => { w with store := { w.store with broker := b } }

/-- The call behind a command. -/
def Cmd.run (I : Interp D B) : Cmd D → CciM D B (Answer D)
  | .setValue p v => do let _ ← CciParamTyped.setValue I p v; pure .unit
  | .setValuePwd p v pwd => do let _ ← CciParamTyped.setValuePwd I p v pwd; pure .unit
  | .handleSetValue p v pwd o => do let _ ← CciParamTyped.setRawValue I p v pwd o; pure .unit
  | .setCciValue p c pwd o => do let _ ← CciParamTyped.setCciValue I p c pwd o; pure .unit
  | .getValue p => do let v ← CciParamTyped.getValue I p; pure (.value p v)
  | .handleGetValue p o => do let v ← CciParamTyped.getRawValue I p o; pure (.value p v)
  | .getCciValue p o => do let c ← CciParamTyped.getCciValue I p o; pure (.cci c)
  | .reset p => do let b ← CciParamTyped.reset I p; pure (.flag b)
  | .lock p pwd => do let b ← onParam p (CciParamTyped.lock pwd); pure (.flag b)
  | .unlock p pwd => do let b ← onParam p (CciParamUntyped.unlock pwd); pure (.flag b)
  | .isLocked p => do let q ← getParam p; pure (.flag (CciParamUntyped.isLocked q))
  | .registerCallback p k cb => do
      let _ ← onParam p (CciParamTyped.registerCallback k cb); pure .unit
  | .handleRegisterCallback p k cb o => do
      let _ ← onParam p (CciParamUntyped.registerCallback k cb o); pure .unit
  | .unregisterCallback p k cb o => do
      let b ← onParam p (CciParamUntyped.unregisterCallback k cb o); pure (.flag b)
  | .unregisterAllCallbacks p o => do
      let b ← onParam p (CciParamUntyped.unregisterAllCallbacks o); pure (.flag b)
  | .setPresetCciValue h n c o => do setPreset h n c o; pure .unit

/-- A command with its trace: the store before it, and the store after it came back. -/
def exec (I : Interp D B) (c : Cmd D) : CciM D B (Answer D) := do
  Eff.modify fun w => w.record (.step c w.store)
  Eff.finalizing (fun w => w.record (.done c w.store)) (c.run I)

/-- Run a client program. -/
def runProg (I : Interp D B) : Prog D → CciM D B Bool
  | .ret b => pure b
  | .raise r => Eff.raise r
  | .cmd c k => do
      let a ← Eff.attempt (exec I c)
      runProg I (k a)

/-- The interpretation of callback bodies by a table of programs, `n` invocations deep. -/
def interp (Γ : CallbackImpl → Payload D → Prog D) : ℕ → Interp D B
  | 0 => ⟨fun _ _ => Eff.diverge, 0⟩
  | n + 1 => ⟨fun f ev => runProg (interp Γ n) (Γ f ev), n + 1⟩

/-- A run of top-level commands: each came back, normally or by an exception the top level
caught. -/
abbrev Calls (I : Interp D B) : World D B → List (Cmd D) → World D B → Prop := Runs (exec I)

end

/-- The stores recorded in a trace. -/
def TraceEvent.store? : TraceEvent D B → Option (Store D B)
  | .step _ s | .done _ s => some s
  | _ => none

/-- The stores around the commands so far, nested ones included. -/
def World.recorded (w : World D B) : List (Store D B) := w.trace.filterMap TraceEvent.store?

/-- The stores client code could look at so far: those around each command, and the present one. -/
def World.visible (w : World D B) : List (Store D B) := w.recorded ++ [w.store]

theorem World.store_mem_visible (w : World D B) : w.store ∈ w.visible :=
  List.mem_append_right _ (List.mem_singleton_self _)

/-- A parameter object right after its construction, possibly with a preset applied: unlocked,
without callbacks, both fast paths off. -/
def CciParam.Constructed {T : Type} (q : CciParam T) : Prop :=
  q.mLockPwd = none ∧ (∀ k, q.callbacks k = {}) ∧ q.fastRead = false ∧ q.fastWrite = false

/-- All parameters just constructed, nothing recorded yet. -/
def World.Initial (w : World D B) : Prop :=
  (∀ p, (w.param p).Constructed) ∧ w.stack = [] ∧ w.trace = []

/-! ### A design of plain numbers -/

/-- Mutable parameters `P` that hold numbers, which are their own `cci_value`s. -/
def natDesign (P : Type) [DecidableEq P] (throws : Bool) : Design where
  Param := P
  decParam := inferInstance
  Value _ := ℕ
  CciValue := ℕ
  BrokerHandle := Unit
  typeId _ := 0
  mutableType _ := .mutableParam
  pack _ v := (true, v)
  unpack _ _ c := (true, c)
  uninit _ := 0
  valueEq _ a b := a == b
  throws := throws

instance {P : Type} [DecidableEq P] (throws : Bool) : Inhabited (natDesign P throws).CciValue :=
  ⟨(0 : ℕ)⟩

/-- Parameters just constructed with the given names and addresses, all with the default 0. -/
def natWorld {P : Type} [DecidableEq P] (throws : Bool) (mName : P → String) (this : P → ℕ)
    (mOriginator : CciOriginator) (broker : B) : World (natDesign P throws) B where
  store := {
    params := fun p => {
      mName := mName p, mValue := (0 : ℕ), mDefaultValue := (0 : ℕ), mValueOrigin := mOriginator,
      mOriginator := mOriginator, this := this p }
    mBrokerHandle := fun _ => ()
    broker := broker }

theorem natWorld_initial {P : Type} [DecidableEq P] (throws : Bool) (mName : P → String)
    (this : P → ℕ) (mOriginator : CciOriginator) (broker : B) :
    (natWorld throws mName this mOriginator broker).Initial :=
  ⟨fun _ => ⟨rfl, fun _ => rfl, rfl, rfl⟩, rfl, rfl⟩

end Cci
