import Cci.Cfg.WriteSpec
import Cci.Utils.PresetStore

/-!
# The lifetime of parameters

A parameter is constructed on a consuming broker, takes over the preset of its name if there is one,
registers, and deregisters when it is destroyed; the next one of the same name starts from the preset
again.

* `Watchers` — the bodies of the create and destroy callbacks, and `Watchers.env`;
* `construct`, `constructFromCciValue`, `init`, `destroy` — the life of a parameter object;
* `LifeCmd` — histories of the parameters of a broker;
* `initial_value_precedence` — what a parameter shows right after its construction.
-/

namespace Cci

open Effect CciParamTyped

variable {D : Design}

/-- A world whose parameters all live on one consuming broker. -/
abbrev BrokerWorld (D : Design) : Type := World D (ConsumingBroker D.Param D.CciValue)

/-- The bodies of the create and destroy callbacks, which get a handle to the parameter, and the fuel
of their dispatch loops. -/
structure Watchers (D : Design) where
  call : Held → D.Param → Eff Report (BrokerWorld D) Unit
  fuel : ℕ

/-- The broker inside the world. -/
def brokerLens (D : Design) : Lens (BrokerWorld D) (ConsumingBroker D.Param D.CciValue) where
  get w := w.store.broker
  set b w := { w with store := { w.store with broker := b } }
  get_set _ _ := rfl
  set_get _ := rfl

/-- The broker as it is used in the state `w`, which has the names of the parameters. -/
def Watchers.env (L : Watchers D) (w : BrokerWorld D) :
    BrokerEnv (BrokerWorld D) D.Param D.CciValue where
  broker := brokerLens D
  name p := (w.param p).mName
  report := reportError
  call := L.call
  fuel := L.fuel

/-- What the constructor of a parameter is given: its final name, its default value, its originator,
and its address. -/
structure ParamArgs (T : Type) where
  name : String
  defaultValue : T
  originator : CciOriginator
  this : ℕ

/-- The members of a new parameter object. -/
def ParamArgs.object {T : Type} (a : ParamArgs T) : CciParam T where
  mName := a.name
  mValue := a.defaultValue
  mDefaultValue := a.defaultValue
  mValueOrigin := a.originator
  mOriginator := a.originator
  this := a.this

section

variable [Inhabited D.CciValue]

/-- `cci_param_if::init`. -/
def CciParamIf.init (L : Watchers D) (I : Interp D (ConsumingBroker D.Param D.CciValue)) (p : D.Param) :
    Eff Report (BrokerWorld D) Unit := do
  let w ← Eff.get
  let nm := (w.param p).mName
  if w.store.broker.hasPresetValue nm then
    let _ ← presetCciValue I p (w.store.broker.getPresetCciValue nm)
      (w.store.broker.getValueOrigin (fun q => (w.param q).mValueOrigin) nm)
    (L.env w).addParam p
  else (L.env w).addParam p

/-- `cci_param_if::destroy`, less the invalidation of the handles. -/
def CciParamIf.destroy (L : Watchers D) (p : D.Param) : Eff Report (BrokerWorld D) Unit := do
  let w ← Eff.get
  (L.env w).removeParam p

/-- The constructor of `cci_param_typed` with a default value of its own type. -/
def CciParamTyped.construct (L : Watchers D) (I : Interp D (ConsumingBroker D.Param D.CciValue))
    (p : D.Param) (a : ParamArgs (D.Value p)) : Eff Report (BrokerWorld D) Unit := do
  modifyParam p fun _ => a.object
  CciParamIf.init L I p

/-- The constructor of `cci_param_typed` with a `cci_value` as default value. -/
def CciParamTyped.constructFromCciValue (L : Watchers D)
    (I : Interp D (ConsumingBroker D.Param D.CciValue)) (p : D.Param) (c : D.CciValue)
    (a : ParamArgs Unit) : Eff Report (BrokerWorld D) Unit := do
  let d ← cciValueGet p c
  CciParamTyped.construct L I p ⟨a.name, d, a.originator, a.this⟩

/-- What happens on a broker: calls of client code, locks of presets, parameters coming and going. -/
inductive LifeCmd (D : Design) where
  | client (c : Cmd D) : LifeCmd D
  | lockPresetValue (parname : String) : LifeCmd D
  | construct (p : D.Param) (a : ParamArgs (D.Value p)) : LifeCmd D
  | constructFromCciValue (p : D.Param) (c : D.CciValue) (a : ParamArgs Unit) : LifeCmd D
  | destroy (p : D.Param) : LifeCmd D

def LifeCmd.run (L : Watchers D) (I : Interp D (ConsumingBroker D.Param D.CciValue)) :
    LifeCmd D → Eff Report (BrokerWorld D) Unit
  | .client c => do let _ ← exec I c; pure ()
  | .lockPresetValue n => (brokerLens D).modify (ConsumingBroker.lockPresetValue n)
  | .construct p a => CciParamTyped.construct L I p a
  | .constructFromCciValue p c a => CciParamTyped.constructFromCciValue L I p c a
  | .destroy p => CciParamIf.destroy L p

end

/-! ### The broker over a history -/

section

variable {B : Type} {J : B → Prop}

theorem modifyParam_keeps_broker (r : D.Param) (f : CciParam (D.Value r) → CciParam (D.Value r)) :
    Keeps (fun w : World D B => J w.store.broker) (modifyParam r f) := Keeps.modify fun _ hw => hw

theorem broker_reports :
    Reports fun α (m _ : CciM D B α) => Keeps (fun w => J w.store.broker) m where
  toPlumbing := Keeps.plumbing _
  report _ := Keeps.modify fun _ hw => hw

theorem broker_closed {I : Interp D B}
    (hcall : ∀ f ev, Keeps (fun w => J w.store.broker) (I.call f ev)) :
    Closed I I (fun _ _ => True) (fun _ m _ => Keeps (fun w => J w.store.broker) m)
      (fun _ m _ => Keeps (fun w => J w.store.broker) m) where
  outer := broker_reports
  inner := broker_reports
  call := hcall
  invoked _ _ _ _ _ := Keeps.modify fun _ hw => hw
  guarded _ _ init skip _ hact := Keeps.bind (Keeps.gets _) fun _ => Keeps.ite (Keeps.pure skip)
    (Keeps.bind (Keeps.modify fun _ hw => hw) fun _ =>
      Keeps.finalizing (fun _ hw => hw) (Keeps.forEach hact _ _ init))
  fastRead r := modifyParam_keeps_broker r _

theorem broker_stores (r : D.Param) :
    Stores (fun α (m _ : CciM D B α) => Keeps (fun w => J w.store.broker) m) r where
  value _ := modifyParam_keeps_broker r _
  origin _ := modifyParam_keeps_broker r _
  fastWrite _ := modifyParam_keeps_broker r _

variable [CciBrokerIf B D.BrokerHandle D.CciValue]

/-- What accepted presets keep of a broker, every command keeps that the callback bodies keep. -/
theorem exec_keeps_broker {I : Interp D B}
    (hset : ∀ (b b' : B) (h : D.BrokerHandle) n v o,
      CciBrokerIf.setPresetCciValue b h n v o = .ok b' → J b → J b')
    (hcall : ∀ f ev, Keeps (fun w => J w.store.broker) (I.call f ev)) (c : Cmd D) :
    Keeps (fun w => J w.store.broker) (exec I c) := by
  refine Keeps.bind (Keeps.modify fun _ hw => hw) fun _ => Keeps.finalizing (fun _ hw => hw) ?_
  refine (broker_closed hcall).run_all (fun _ => ⟨trivial, trivial⟩) c
    (fun r _ => ⟨broker_stores r, trivial, trivial⟩) ⟨fun r _ => modifyParam_keeps_broker r _,
      fun r _ => modifyParam_keeps_broker r _, fun h n v o w hw => ?_⟩
    ⟨fun r _ _ _ => modifyParam_keeps_broker r _, fun r _ _ => modifyParam_keeps_broker r _,
      fun r _ _ _ => modifyParam_keeps_broker r _, fun r _ => modifyParam_keeps_broker r _⟩
  simp only [setPreset, Eff.get_bind_run]
  cases hr : CciBrokerIf.setPresetCciValue w.store.broker h n v o with
  | error r => exact broker_reports.reportError r w hw
  | ok b => exact hset _ _ h n v o hr hw

theorem interp_keeps_broker
    (hset : ∀ (b b' : B) (h : D.BrokerHandle) n v o,
      CciBrokerIf.setPresetCciValue b h n v o = .ok b' → J b → J b')
    (Γ : CallbackImpl → Payload D → Prog D) (n : ℕ) (f : CallbackImpl) (ev : Payload D) :
    Keeps (fun w => J w.store.broker) ((interp Γ n : Interp D B).call f ev) := by
  induction n generalizing f ev with
  | zero => exact Keeps.diverge
  | succ n ih =>
    exact broker_reports.runProg (interp Γ n) (interp Γ n) (fun _ => True)
      (fun c _ => exec_keeps_broker hset ih c) (Γ f ev).all_true

end

/-- The create and destroy callbacks leave the parameters and the broker alone. -/
def Watchers.Bystanders (L : Watchers D) : Prop := ∀ held p w, (L.call held p w).2.store = w.store

theorem Watchers.Bystanders.outside {L : Watchers D} (hL : L.Bystanders) (w : BrokerWorld D) :
    (L.env w).Outside where
  report r s := congrArg (fun x => x.2.store.broker) (reportError_run r s)
  call held p s := congrArg Store.broker (hL held p s)

variable {L : Watchers D}

section

variable [Inhabited D.CciValue] {J : ConsumingBroker D.Param D.CciValue → Prop}
variable {I : Interp D (ConsumingBroker D.Param D.CciValue)}

theorem construct_keeps_broker (hL : L.Bystanders)
    (hregister : ∀ b n p, n ∉ b.mParamRegistry → J b → J (b.register n p))
    (hconsume : ∀ b n, J b → J (b.consume n))
    (hcall : ∀ f ev, Keeps (fun w : BrokerWorld D => J w.store.broker) (I.call f ev))
    (p : D.Param) (a : ParamArgs (D.Value p)) :
    Keeps (fun w => J w.store.broker) (construct L I p a) := by
  have hadd : ∀ w : BrokerWorld D, Keeps (fun w => J w.store.broker) ((L.env w).addParam p) :=
    fun w => (hL.outside w).keeps_addParam p (fun b => hregister b _ p) (fun b => hconsume b _)
  refine Keeps.bind (modifyParam_keeps_broker p _) fun _ => Keeps.bind Keeps.get fun w => ?_
  refine Keeps.ite (Keeps.bind ?_ fun _ => hadd w) (hadd w)
  exact (broker_closed hcall).presetCciValue (broker_stores p) ⟨trivial, trivial⟩ _ _

/-- What registering, moving and setting presets keep of the broker, every history keeps. -/
theorem LifeCmd.run_keeps_broker (hL : L.Bystanders)
    (hregister : ∀ b n p, n ∉ b.mParamRegistry → J b → J (b.register n p))
    (hconsume : ∀ b n, J b → J (b.consume n)) (hderegister : ∀ b n, J b → J (b.deregister n))
    (hrelease : ∀ b n, J b → J (b.release n)) (hlock : ∀ b n, J b → J (b.lockPresetValue n))
    (hset : ∀ b b' n v o, b.setPresetCciValue n v o = .ok b' → J b → J b')
    (hcall : ∀ f ev, Keeps (fun w : BrokerWorld D => J w.store.broker) (I.call f ev))
    (c : LifeCmd D) : Keeps (fun w => J w.store.broker) (c.run L I) := by
  have hconstruct := construct_keeps_broker hL hregister hconsume hcall
  cases c with
  | client c =>
    exact Keeps.bind (exec_keeps_broker (fun b b' _ => hset b b') hcall c) fun _ => Keeps.pure ()
  | lockPresetValue n => exact (brokerLens D).keeps_modify fun b => hlock b n
  | construct p a => exact hconstruct p a
  | constructFromCciValue p c a =>
    exact Keeps.bind (broker_reports.cciValueGet p c) fun d => hconstruct p _
  | destroy p =>
    exact Keeps.bind Keeps.get fun w =>
      (hL.outside w).keeps_removeParam p (fun b => hderegister b _) (fun b => hrelease b _)

end

/-! ### What a new parameter shows -/

/-- A preset of a new object, which has no callbacks yet. -/
theorem presetCciValue_new {B : Type} {p : D.Param} {w : World D B}
    (hnew : ∀ k, (w.param p).callbacks k = {}) {c : D.CciValue}
    (hconv : Converts p c) (I : Interp D B) (o : CciOriginator) :
    ∃ t, presetCciValue I p c o w = (.ok true, t) ∧
      t.store = (w.setParam p (stored (D.unpack p (D.uninit p) c).2 o (w.param p))).store := by
  obtain ⟨u, hget, hu⟩ := cciValueGet_of_converts hconv w
  have hparam : u.param p = w.param p := by rw [World.param, hu, ← World.param]
  have hvec : ∀ k, (u.param p).vec k = [] := fun k => by rw [hparam, CciParam.vec, hnew k]
  have hpre : preWriteCallback I p _ o u = (.ok true, u.record (.dispatch p .preWrite u.stack)) :=
    preWriteCallback_quiet (by rw [hparam, CciParam.oncall, hnew]) (hvec _) I
      (D.unpack p (D.uninit p) c).2 o
  obtain ⟨t, hcommit, hstore, -⟩ :=
    commit_quiet (w := u.record (.dispatch p .preWrite u.stack)) (hvec .postWrite) I
      (D.unpack p (D.uninit p) c).2 o (w.param p).mValue
  refine ⟨t, ?_, ?_⟩
  swap
  · rw [hstore, World.param_record, hparam]
    simp only [World.setParam, World.record, hu]
  rw [presetCciValue_eq, Eff.bind_run_ok hget, applyValue_passed hpre, Eff.bind_run_ok hcommit]
  rfl

/-- What `init` does once it has asked its broker: apply the preset if there is one, and register. -/
def presetThen {B : Type} (I : Interp D B) (p : D.Param) (has : Bool) (c : D.CciValue)
    (o : CciOriginator) (add : CciM D B Unit) : CciM D B Unit :=
  if has then do
    let _ ← presetCciValue I p c o
    add
  else add

/-- A new object's preset is thrown out with the construction, or it is registered with at most its
value changed. -/
theorem presetThen_cases {B : Type} {p : D.Param} {w : World D B}
    (hnew : ∀ k, (w.param p).callbacks k = {}) (I : Interp D B) (has : Bool) (c : D.CciValue)
    (o : CciOriginator) (add : CciM D B Unit) :
    ((has = true ∧ ¬Converts p c) ∧
      ∃ e t, presetThen I p has c o add w = (.throw e, t) ∧ t.store = w.store) ∨
    (¬(has = true ∧ ¬Converts p c) ∧ ∃ t, presetThen I p has c o add w = add t ∧
      (t.store = w.store ∨ ∃ v, t.store = (w.setParam p (stored v o (w.param p))).store)) := by
  cases has with
  | false => exact .inr ⟨fun h => Bool.noConfusion h.1, w, rfl, .inl rfl⟩
  | true =>
    by_cases hconv : Converts p c
    · obtain ⟨t, ht, hstore⟩ := presetCciValue_new hnew hconv I o
      exact .inr ⟨fun h => h.2 hconv, t, Eff.bind_run_ok ht _, .inr ⟨_, hstore⟩⟩
    · obtain ⟨e, t, ht, hstore⟩ := cciValueGet_fails hconv w
      refine .inl ⟨⟨rfl, hconv⟩, e, t, Eff.bind_run_throw ?_ _, hstore⟩
      rw [presetCciValue_eq, Eff.bind_run_throw ht]

theorem keeps_invoked (hL : L.Bystanders) (w : BrokerWorld D) (p : D.Param)
    (st : Store D (ConsumingBroker D.Param D.CciValue))
    (elem : BrokerWorld D → ℕ → Option BrokerCallbackObj) :
    Keeps (fun s => s.store = st) (Eff.forEach elem ((L.env w).invoke p) L.fuel 0 ()) :=
  BrokerEnv.keeps_callbacks (fun held s hs => (hL held p s).trans hs) elem

/-- The world with `p` registered under the name `n` and the preset of `n` consumed. -/
def registered (n : String) (p : D.Param) (w : BrokerWorld D) : BrokerWorld D :=
  { w with store := { w.store with broker := (w.store.broker.register n p).consume n } }

/-- `add_param` of an unregistered name is the dispatch of the create callbacks after that. -/
theorem addParam_run {w₀ w : BrokerWorld D} {p : D.Param}
    (hn : (w₀.param p).mName ∉ w.store.broker.mParamRegistry) :
    (L.env w₀).addParam p w = Eff.forEach (fun s i => s.store.broker.mCreateCallbacks[i]?)
      ((L.env w₀).invoke p) L.fuel 0 () (registered (w₀.param p).mName p w) := by
  simp only [BrokerEnv.addParam, Eff.get_bind_run]
  rw [if_neg (show (L.env w₀).name p ∉ ((L.env w₀).broker.get w).mParamRegistry from hn)]
  rfl

/-- A parameter of an unregistered name is registered, whatever becomes of the create callbacks. -/
theorem addParam_store (hL : L.Bystanders) {w₀ w : BrokerWorld D} {p : D.Param}
    (hn : (w₀.param p).mName ∉ w.store.broker.mParamRegistry) :
    ((L.env w₀).addParam p w).2.store = (registered (w₀.param p).mName p w).store := by
  rw [addParam_run hn]
  exact keeps_invoked hL w₀ p _ _ _ rfl

/-- Without create callbacks nothing can stop it. -/
theorem addParam_ok {w₀ w : BrokerWorld D} {p : D.Param}
    (hn : (w₀.param p).mName ∉ w.store.broker.mParamRegistry)
    (hcb : w.store.broker.mCreateCallbacks = []) :
    (L.env w₀).addParam p w = (.ok (), registered (w₀.param p).mName p w) := by
  have hnone : (registered (w₀.param p).mName p w).store.broker.mCreateCallbacks[0]? = none := by
    rw [registered, ConsumingBroker.createCallbacks_consume, ConsumingBroker.register, hcb]
    rfl
  rw [addParam_run hn]
  exact Eff.forEach_done (fun (s : BrokerWorld D) i => s.store.broker.mCreateCallbacks[i]?) hnone
    _ _ _

/-- The value and the origin a new parameter starts with. -/
def initialValue [Inhabited D.CciValue] (b : ConsumingBroker D.Param D.CciValue) (p : D.Param)
    (a : ParamArgs (D.Value p)) : D.Value p × CciOriginator :=
  if b.hasPresetValue a.name then
    ((D.unpack p (D.uninit p) (b.getPresetCciValue a.name)).2, b.getPresetValueOrigin a.name)
  else (a.defaultValue, a.originator)

theorem mName_constructed {p : D.Param} (a : ParamArgs (D.Value p)) (w : BrokerWorld D) :
    ((w.setParam p a.object).param p).mName = a.name := by
  rw [World.param_setParam]
  rfl

variable [Inhabited D.CciValue]

/-- The constructor up to the registration. -/
theorem construct_run (I : Interp D (ConsumingBroker D.Param D.CciValue)) {p : D.Param}
    {a : ParamArgs (D.Value p)} {w : BrokerWorld D} (hn : a.name ∉ w.store.broker.mParamRegistry)
    (hconv : w.store.broker.hasPresetValue a.name = true →
      Converts p (w.store.broker.getPresetCciValue a.name)) :
    ∃ t, construct L I p a w = (L.env (w.setParam p a.object)).addParam p t ∧
      t.store.broker = w.store.broker ∧
      ((t.param p).mValue, (t.param p).mValueOrigin) = initialValue w.store.broker p a := by
  have hrun : construct L I p a w = CciParamIf.init L I p (w.setParam p a.object) := rfl
  rw [hrun, CciParamIf.init, Eff.get_bind_run]
  simp only [mName_constructed, World.broker_setParam, initialValue]
  cases hp : w.store.broker.hasPresetValue a.name with
  | false => exact ⟨_, rfl, rfl, by rw [World.param_setParam]; rfl⟩
  | true =>
    have horigin : w.store.broker.getValueOrigin
        (fun q => ((w.setParam p a.object).param q).mValueOrigin) a.name =
        w.store.broker.getPresetValueOrigin a.name := by
      rw [ConsumingBroker.getValueOrigin, ConsumingBroker.getOrigParam,
        Std.ExtTreeMap.getElem?_eq_none hn]
      rfl
    obtain ⟨t, ht, hstore⟩ := presetCciValue_new (w := w.setParam p a.object)
      (fun k => by rw [World.param_setParam]; rfl) (hconv hp) I
      (w.store.broker.getPresetValueOrigin a.name)
    refine ⟨t, ?_, ?_, ?_⟩
    · rw [horigin]
      exact Eff.bind_run_ok ht _
    · rw [hstore]
      rfl
    · have hparam : t.param p = stored (D.unpack p (D.uninit p)
          (w.store.broker.getPresetCciValue a.name)).2 (w.store.broker.getPresetValueOrigin a.name)
          ((w.setParam p a.object).param p) := by
        rw [World.param, hstore]
        exact World.param_setParam _ _ _
      rw [hparam]
      rfl

/-- **Initial value precedence.**  After any history of a broker that started without presets, the
constructor of a parameter of an unregistered name whose preset converts leaves it with the converted
preset and the originator recorded for it if there is a preset, with its default value and its own
originator otherwise; the parameter is registered and its preset is not reported as unconsumed.
Without create callbacks, which may throw, the constructor completes. -/
theorem initial_value_precedence (L : Watchers D) (hL : L.Bystanders)
    (Γ : CallbackImpl → Payload D → Prog D) (n : ℕ) {w₀ : BrokerWorld D}
    (h₀ : w₀.store.broker.NoPresets) (cs : List (LifeCmd D)) {w : BrokerWorld D}
    (hw : w = states (LifeCmd.run L (interp Γ n)) w₀ cs) (p : D.Param) (a : ParamArgs (D.Value p))
    (hn : a.name ∉ w.store.broker.mParamRegistry)
    (hconv : w.store.broker.hasPresetValue a.name = true →
      (D.unpack p (D.uninit p) (w.store.broker.getPresetCciValue a.name)).1 = true) :
    (∀ w', construct L (interp Γ n) p a w = (.ok (), w') →
      ((w'.param p).mValue, (w'.param p).mValueOrigin) = initialValue w.store.broker p a ∧
      (w.store.broker.hasPresetValue a.name = true →
        w.store.broker.mPresetValueOriginatorMap[a.name]? = some (w'.param p).mValueOrigin) ∧
      w'.store.broker.getOrigParam a.name = some p ∧
      ∀ v, (a.name, v) ∉ w'.store.broker.getUnconsumedPresetValues) ∧
    (w.store.broker.mCreateCallbacks = [] →
      ∃ w', construct L (interp Γ n) p a w = (.ok (), w')) := by
  have hcons : w.store.broker.Consistent := by
    rw [hw]
    refine states_keeps (LifeCmd.run_keeps_broker hL ?_ ?_ ?_ ?_ ?_ ?_ (interp_keeps_broker ?_ Γ n))
      h₀.simulates.1 cs
    · exact fun b n p _ hb => ⟨hb.disjoint, hb.originated⟩
    · exact fun b n hb => (hb.consume n).1
    · exact fun b n hb => ⟨hb.disjoint, hb.originated⟩
    · exact fun b n hb => (hb.release n).1
    · exact fun b n hb => ⟨hb.disjoint, hb.originated⟩
    · exact fun b b' n v o hr hb => (hb.setPreset hr).1
    · exact fun b b' _ n v o hr hb => (hb.setPreset hr).1
  obtain ⟨t, hrun, hbroker, hshown⟩ := construct_run (L := L) (interp Γ n) hn
    fun hp => .inl (hconv hp)
  have hnew : ((w.setParam p a.object).param p).mName ∉ t.store.broker.mParamRegistry := by
    rw [mName_constructed, hbroker]
    exact hn
  constructor
  · intro w' hw'
    have hstore : w'.store = (registered a.name p t).store := by
      have hadd := addParam_store hL hnew
      rw [← hrun, hw', mName_constructed] at hadd
      exact hadd
    have hparam : w'.param p = t.param p := by
      rw [World.param, hstore]
      rfl
    rw [hparam]
    refine ⟨hshown, fun hp => ?_, ?_, fun v hv => ?_⟩
    · have horigin : (t.param p).mValueOrigin = w.store.broker.getPresetValueOrigin a.name := by
        have hvo := congrArg Prod.snd hshown
        rwa [initialValue, if_pos hp] at hvo
      have hsome : (w.store.broker.mPresetValueOriginatorMap[a.name]?).isSome = true := by
        rw [hcons.originated]
        rw [ConsumingBroker.hasPresetValue_eq hcons, ConsumingBroker.preset] at hp
        cases h : (w.store.broker.mUsedValueRegistry[a.name]? <|>
          w.store.broker.mUnusedValueRegistry[a.name]?) with
        | none =>
          rw [h] at hp
          cases hp
        | some v => rfl
      obtain ⟨o, ho⟩ := Option.isSome_iff_exists.1 hsome
      rw [horigin, ConsumingBroker.getPresetValueOrigin, ho]
    · rw [hstore, ConsumingBroker.getOrigParam, registered, ConsumingBroker.registry_consume,
        ConsumingBroker.register, ConsumingBroker.getElem?_insertIfNew, if_pos rfl, hbroker,
        Std.ExtTreeMap.getElem?_eq_none hn]
      rfl
    · have hmem := (List.mem_filter.1 hv).1
      rw [Std.ExtTreeMap.mem_toList_iff_getElem?_eq_some, hstore, registered,
        ConsumingBroker.unused_consume, if_pos rfl] at hmem
      cases hmem
  · intro hcb
    rw [hrun]
    exact ⟨_, addParam_ok hnew (by rw [hbroker]; exact hcb)⟩

/-- A parameter that was written and destroyed starts from its preset again. -/
theorem initial_value_precedence_recreated :
    let L : Watchers (natDesign Unit true) := ⟨fun _ _ => pure (), 0⟩
    let I := interp (D := natDesign Unit true) (B := ConsumingBroker Unit ℕ) (fun _ _ => .ret true) 1
    let a : ParamArgs ℕ := ⟨"top.p", 1, .named "owner", 1⟩
    let cs : List (LifeCmd (natDesign Unit true)) :=
      [.client (.setPresetCciValue () "top.p" (7 : ℕ) (.named "tool")), .construct () a,
        .client (.setValue () (3 : ℕ)), .destroy ()]
    let w₀ : BrokerWorld (natDesign Unit true) :=
      natWorld true (fun _ => "") (fun _ => 0) .unknown {}
    let w := states (LifeCmd.run L I) w₀ cs
    (∀ w', construct L I () a w = (.ok (), w') →
      ((w'.param ()).mValue, (w'.param ()).mValueOrigin) = initialValue w.store.broker () a ∧
      (w.store.broker.hasPresetValue "top.p" = true →
        w.store.broker.mPresetValueOriginatorMap["top.p"]? = some (w'.param ()).mValueOrigin) ∧
      w'.store.broker.getOrigParam "top.p" = some () ∧
      ∀ v, ("top.p", v) ∉ w'.store.broker.getUnconsumedPresetValues) ∧
    (w.store.broker.mCreateCallbacks = [] → ∃ w', construct L I () a w = (.ok (), w')) := by
  intro L I a cs w₀ w
  have h₀ : w₀.store.broker.NoPresets := ⟨rfl, rfl, rfl, rfl⟩
  have hw : w = states (LifeCmd.run L (interp (fun _ _ => .ret true) 1)) w₀ cs := rfl
  have hn : a.name ∉ w.store.broker.mParamRegistry := by decide +kernel
  exact initial_value_precedence L (fun _ _ _ => rfl) (fun _ _ => .ret true) 1 h₀ cs hw () a hn
    fun _ => rfl

end Cci
