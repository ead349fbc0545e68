import Cci.Lib.Lens
import Cci.Cfg.World

/-!
# The consuming broker

`consuming_broker` keeps the presets of its parameters in two maps: those of registered parameters
in `m_used_value_registry`, the others in `m_unused_value_registry`.  Who set a preset is in a third
map, which names are locked in a set.

* `ConsumingBroker` with the preset queries, `setPresetCciValue` and `lockPresetValue`;
* `consume` and `release` — a preset moves when its parameter is created and destroyed;
* `BrokerEnv` — where a broker lives in a larger state, and what its callbacks and reports do there;
* `addParam`, `removeParam` — with the dispatch of the create and destroy callbacks.
-/

namespace Cci

open Effect

/-- A `callback_obj` of the create and destroy callback lists. -/
structure BrokerCallbackObj where
  callback : CallbackHandle
  originator : CciOriginator
deriving DecidableEq, Repr

/-- A `consuming_broker` whose parameter pointers are `P` and whose `cci_value`s are `C`. -/
structure ConsumingBroker (P C : Type) where
  mParamRegistry : Std.ExtTreeMap String P := ∅
  mUnusedValueRegistry : Std.ExtTreeMap String C := ∅
  mUsedValueRegistry : Std.ExtTreeMap String C := ∅
  locked : Std.ExtTreeSet String := ∅
  mPresetValueOriginatorMap : Std.ExtTreeMap String CciOriginator := ∅
  mCreateCallbacks : List BrokerCallbackObj := []
  mDestroyCallbacks : List BrokerCallbackObj := []
  mIgnoredUnconsumedPredicates : List (String × C → Bool) := []

namespace ConsumingBroker

variable {P C : Type}

/-! ### Presets -/

/-- `set_preset_cci_value`; the error is the report of a refused preset. -/
def setPresetCciValue (parname : String) (value : C) (originator : CciOriginator)
    (b : ConsumingBroker P C) : Except Report (ConsumingBroker P C) :=
  if parname ∈ b.locked then
    .error (setParamFailed "Setting preset value failed (parameter locked).")
  else
    let b :=
      if parname ∈ b.mUsedValueRegistry then
        { b with mUsedValueRegistry := b.mUsedValueRegistry.insert parname value }
      else { b with mUnusedValueRegistry := b.mUnusedValueRegistry.insert parname value }
    .ok { b with
      mPresetValueOriginatorMap := b.mPresetValueOriginatorMap.insert parname originator }

/-- `lock_preset_value`. -/
def lockPresetValue (parname : String) (b : ConsumingBroker P C) : ConsumingBroker P C :=
  { b with locked := b.locked.insert parname }

/-- `has_preset_value`. -/
def hasPresetValue (b : ConsumingBroker P C) (parname : String) : Bool :=
  if parname ∈ b.mUsedValueRegistry then true
  else if parname ∈ b.mUnusedValueRegistry then true
  else false

/-- `get_preset_cci_value`; `default` stands for the null `cci_value()`. -/
def getPresetCciValue [Inhabited C] (b : ConsumingBroker P C) (parname : String) : C :=
  match b.mUsedValueRegistry[parname]? with
  | some value => value
  | none =>
      match b.mUnusedValueRegistry[parname]? with
      | some value => value
      | none => default

/-- `get_preset_value_origin`. -/
def getPresetValueOrigin (b : ConsumingBroker P C) (parname : String) : CciOriginator :=
  match b.mPresetValueOriginatorMap[parname]? with
  | some originator => originator
  | none => .unknown

/-- `get_orig_param`. -/
def getOrigParam (b : ConsumingBroker P C) (parname : String) : Option P := b.mParamRegistry[parname]?

/-- `get_value_origin`; `originOf` is `get_value_origin()` of a parameter. -/
def getValueOrigin (originOf : P → CciOriginator) (b : ConsumingBroker P C) (parname : String) :
    CciOriginator :=
  match b.getOrigParam parname with
  | some p => originOf p
  | none =>
      match b.mPresetValueOriginatorMap[parname]? with
      | some originator => originator
      | none => .unknown

/-- `get_unconsumed_preset_values()`. -/
def getUnconsumedPresetValues (b : ConsumingBroker P C) : List (String × C) :=
  b.mUnusedValueRegistry.toList.filter fun nv =>
    !b.mIgnoredUnconsumedPredicates.any fun pred => pred nv

/-- The preset of a new parameter becomes a used one. -/
def consume (parname : String) (b : ConsumingBroker P C) : ConsumingBroker P C :=
  match b.mUnusedValueRegistry[parname]? with
  | some value =>
      { b with
        mUsedValueRegistry := b.mUsedValueRegistry.insertIfNew parname value
        mUnusedValueRegistry := b.mUnusedValueRegistry.erase parname }
  | none => b

/-- The preset of a removed parameter becomes an unused one. -/
def release (parname : String) (b : ConsumingBroker P C) : ConsumingBroker P C :=
  match b.mUsedValueRegistry[parname]? with
  | some value =>
      { b with
        mUnusedValueRegistry := b.mUnusedValueRegistry.insertIfNew parname value
        mUsedValueRegistry := b.mUsedValueRegistry.erase parname }
  | none => b

/-- `m_param_registry.insert`. -/
def register (parname : String) (par : P) (b : ConsumingBroker P C) : ConsumingBroker P C :=
  { b with mParamRegistry := b.mParamRegistry.insertIfNew parname par }

/-- `m_param_registry.erase`. -/
def deregister (parname : String) (b : ConsumingBroker P C) : ConsumingBroker P C :=
  { b with mParamRegistry := b.mParamRegistry.erase parname }

instance [Inhabited C] {H : Type} : CciBrokerIf (ConsumingBroker P C) H C where
  hasPresetValue b _ := b.hasPresetValue
  getPresetCciValue b _ := b.getPresetCciValue
  getPresetValueOrigin b _ := b.getPresetValueOrigin
  setPresetCciValue b _ n v o := b.setPresetCciValue n v o

end ConsumingBroker

/-! ### Creation and destruction of parameters -/

/-- A broker inside a larger state `σ`: its place there, the names of parameters, the effect of an
error report and of invoking a create or destroy callback with a handle to a parameter, and the fuel
of the dispatch loops. -/
structure BrokerEnv (σ P C : Type) where
  broker : Lens σ (ConsumingBroker P C)
  name : P → String
  report : Report → Eff Report σ Unit
  call : Held → P → Eff Report σ Unit
  fuel : ℕ

namespace BrokerEnv

variable {σ P C : Type}

/-- `m_<kind>_callbacks[i].callback.invoke(…)`; an invalid handle fails `sc_assert( m_cb )`. -/
def invoke (env : BrokerEnv σ P C) (par : P) (entry : BrokerCallbackObj) (_ : Unit) :
    Eff Report σ Unit :=
  match entry.callback with
  | none => Eff.abort
  | some held => env.call held par

/-- `add_param`: a second parameter of the same name fails the assertion. -/
def addParam (env : BrokerEnv σ P C) (par : P) : Eff Report σ Unit := do
  let s ← Eff.get
  if env.name par ∈ (env.broker.get s).mParamRegistry then Eff.abort
  else
    env.broker.modify (ConsumingBroker.register (env.name par) par)
    env.broker.modify (ConsumingBroker.consume (env.name par))
    Eff.forEach (fun s i => (env.broker.get s).mCreateCallbacks[i]?) (env.invoke par) env.fuel 0 ()

/-- `remove_param`. -/
def removeParam (env : BrokerEnv σ P C) (par : P) : Eff Report σ Unit := do
  env.broker.modify (ConsumingBroker.deregister (env.name par))
  Eff.forEach (fun s i => (env.broker.get s).mDestroyCallbacks[i]?) (env.invoke par) env.fuel 0 ()
  env.broker.modify (ConsumingBroker.release (env.name par))

/-- The assertion that a name is registered once. -/
theorem addParam_of_registered {env : BrokerEnv σ P C} {par : P} {s : σ}
    (h : env.name par ∈ (env.broker.get s).mParamRegistry) : env.addParam par s = (.abort, s) := by
  simp only [addParam, Eff.get_bind_run]
  rw [if_pos h]
  rfl

/-- `set_preset_cci_value`. -/
def setPresetCciValue (env : BrokerEnv σ P C) (parname : String) (value : C)
    (originator : CciOriginator) : Eff Report σ Unit := do
  let s ← Eff.get
  match (env.broker.get s).setPresetCciValue parname value originator with
  | .error r => env.report r
  | .ok b => Eff.modify (env.broker.set b)

/-- `lock_preset_value`. -/
def lockPresetValue (env : BrokerEnv σ P C) (parname : String) : Eff Report σ Unit :=
  env.broker.modify (ConsumingBroker.lockPresetValue parname)

/-- Create and destroy callbacks and error reports do not call back into the broker. -/
structure Outside (env : BrokerEnv σ P C) : Prop where
  report : ∀ r, env.broker.Fixed (env.report r)
  call : ∀ held par, env.broker.Fixed (env.call held par)

/-- A broker on its own: its reports are thrown, its callbacks do nothing. -/
def alone (name : P → String) : BrokerEnv (ConsumingBroker P C) P C where
  broker := Lens.self _
  name := name
  report := Eff.raise
  call := fun _ _ => pure ()
  fuel := 0

theorem alone_outside (name : P → String) : (alone name : BrokerEnv _ P C).Outside :=
  ⟨fun _ _ => rfl, fun _ _ _ => rfl⟩

/-! ### Invariants of the broker -/

/-- A dispatch loop keeps what every callback keeps. -/
theorem keeps_callbacks {env : BrokerEnv σ P C} {J : σ → Prop} {par : P}
    (hcall : ∀ held, Keeps J (env.call held par)) (elem : σ → ℕ → Option BrokerCallbackObj) :
    Keeps J (Eff.forEach elem (env.invoke par) env.fuel 0 ()) := by
  refine Keeps.forEach (fun entry _ => ?_) _ _ _
  simp only [invoke]
  cases entry.callback with
  | none => exact Keeps.abort
  | some held => exact hcall held

section

variable {env : BrokerEnv σ P C} {I : ConsumingBroker P C → Prop}

theorem Outside.keeps_dispatch (h : env.Outside) (par : P)
    (elem : σ → ℕ → Option BrokerCallbackObj) :
    Keeps (fun s => I (env.broker.get s)) (Eff.forEach elem (env.invoke par) env.fuel 0 ()) :=
  keeps_callbacks (fun held => (h.call held par).keeps I) elem

theorem Outside.keeps_addParam (h : env.Outside) (par : P)
    (hregister : ∀ b, env.name par ∉ b.mParamRegistry → I b → I (b.register (env.name par) par))
    (hconsume : ∀ b, I b → I (b.consume (env.name par))) :
    Keeps (fun s => I (env.broker.get s)) (env.addParam par) := by
  intro s hs
  simp only [addParam, Eff.get_bind_run]
  split
  · exact hs
  · rename_i hnew
    refine Keeps.bind (I := fun s => I (env.broker.get s)) (env.broker.keeps_modify hconsume)
      (fun _ => h.keeps_dispatch par _) _ ?_
    show I (env.broker.get (env.broker.set _ s))
    rw [Lens.get_set]
    exact hregister _ hnew hs

theorem Outside.keeps_removeParam (h : env.Outside) (par : P)
    (hderegister : ∀ b, I b → I (b.deregister (env.name par)))
    (hrelease : ∀ b, I b → I (b.release (env.name par))) :
    Keeps (fun s => I (env.broker.get s)) (env.removeParam par) :=
  Keeps.bind (env.broker.keeps_modify hderegister) fun _ =>
    Keeps.bind (h.keeps_dispatch par _) fun _ => env.broker.keeps_modify hrelease

theorem Outside.keeps_setPresetCciValue (h : env.Outside) (n : String) (v : C) (o : CciOriginator)
    (hset : ∀ b b', b.setPresetCciValue n v o = .ok b' → I b → I b') :
    Keeps (fun s => I (env.broker.get s)) (env.setPresetCciValue n v o) := by
  intro s hs
  simp only [setPresetCciValue, Eff.get_bind_run]
  cases hb : (env.broker.get s).setPresetCciValue n v o with
  | error r => exact (h.report r).keeps I s hs
  | ok b' =>
    show I (env.broker.get (env.broker.set b' s))
    rw [Lens.get_set]
    exact hset _ _ hb hs

end

end BrokerEnv

end Cci
