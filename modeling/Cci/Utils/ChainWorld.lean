import Cci.Utils.Lifetime
import Cci.Utils.BrokerLookup

/-!
# Parameters on a chain of brokers

A world whose parameters are registered with the brokers of a chain, each through the broker handle
it was constructed with.

* `ChainWatchers` — the brokers that handles refer to, and the bodies of the create and destroy
  callbacks; `ChainWatchers.env` is the chain as it is used in a state of the world;
* `construct`, `constructFromCciValue`, `destroy` — the life of a parameter object on a chain;
* `ChainWatchers.Outside` — callbacks that do not touch the brokers;
* `construct_registries`, `destroy_registries` — what they do to the registries of the chain.
-/

namespace Cci

open Effect CciParamTyped

variable {D : Design}

/-- A world whose parameters live on a chain of brokers. -/
abbrev ChainWorld (D : Design) : Type := World D (BrokerChain D.Param D.CciValue)

/-- The chain inside the world. -/
def chainLens (D : Design) : Lens (ChainWorld D) (BrokerChain D.Param D.CciValue) where
  get w := w.store.broker
  set ch w := { w with store := { w.store with broker := ch } }
  get_set _ _ := rfl
  set_get _ := rfl

/-- The broker a broker handle refers to, the bodies of the create and destroy callbacks and the fuel
of their dispatch loops, and `sc_get_current_object()`. -/
structure ChainWatchers (D : Design) where
  index : D.BrokerHandle → ℕ
  call : Held → D.Param → Eff Report (ChainWorld D) Unit
  fuel : ℕ
  currentObject : Option ScObject

namespace ChainWatchers

variable (L : ChainWatchers D) (I : Interp D (BrokerChain D.Param D.CciValue))

/-- The chain as it is used in the state `w`, which has the names of the parameters. -/
def env (w : ChainWorld D) : ChainEnv (ChainWorld D) D.Param D.CciValue where
  chain := chainLens D
  name p := (w.param p).mName
  report := reportError
  read p o := getCciValue I p o
  call := L.call
  fuel := L.fuel
  currentObject := L.currentObject

section

variable [Inhabited D.CciValue]

/-- `cci_param_if::init(m_broker_handle)`. -/
def init (p : D.Param) : Eff Report (ChainWorld D) Unit := do
  let w ← Eff.get
  let i := L.index (w.store.mBrokerHandle p)
  let nm := (w.param p).mName
  presetThen I p (w.store.broker.hasPresetValue i nm) (w.store.broker.getPresetCciValue i nm)
    (w.store.broker.getValueOrigin (fun q => (w.param q).mValueOrigin) i nm)
    ((L.env I w).addParam i p)

/-- The constructor of `cci_param_typed` with a default value of its own type and a broker handle. -/
def construct (h : D.BrokerHandle) (p : D.Param) (a : ParamArgs (D.Value p)) :
    Eff Report (ChainWorld D) Unit := do
  modifyParam p fun _ => a.object
  Eff.modify fun w => { w with
    store := { w.store with mBrokerHandle := Function.update w.store.mBrokerHandle p h } }
  L.init I p

/-- The constructor of `cci_param_typed` with a `cci_value` as default value and a broker handle. -/
def constructFromCciValue (h : D.BrokerHandle) (p : D.Param) (c : D.CciValue) (a : ParamArgs Unit) :
    Eff Report (ChainWorld D) Unit := do
  let d ← cciValueGet p c
  L.construct I h p ⟨a.name, d, a.originator, a.this⟩

end

/-- The destructor of `cci_param_typed`, less the invalidation of the handles. -/
def destroy (p : D.Param) : Eff Report (ChainWorld D) Unit := do
  let w ← Eff.get
  (L.env I w).removeParam (L.index (w.store.mBrokerHandle p)) p

/-- The create and destroy callbacks leave the brokers alone; no parameter changes its name or its
broker. -/
structure Outside (L : ChainWatchers D) : Prop where
  chain : ∀ held p w, (L.call held p w).2.store.broker = w.store.broker
  handles : ∀ held p w, (L.call held p w).2.store.mBrokerHandle = w.store.mBrokerHandle
  names : ∀ held p w q, ((L.call held p w).2.param q).mName = (w.param q).mName

variable {L I}

theorem Outside.env (hL : L.Outside) (w : ChainWorld D) : (L.env I w).Outside where
  report r s := congrArg (fun x => x.2.store.broker) (reportError_run r s)
  call held p s := hL.chain held p s

/-- What no operation of a broker changes. -/
structure SamePlaces (w w' : ChainWorld D) : Prop where
  handles : w'.store.mBrokerHandle = w.store.mBrokerHandle
  names : ∀ q, (w'.param q).mName = (w.param q).mName

theorem Outside.samePlaces (hL : L.Outside) (w₀ : ChainWorld D)
    (c : ChainCmd D.Param D.CciValue) (w : ChainWorld D) :
    SamePlaces w (c.run (L.env I w₀) w).2 := by
  rw [ChainCmd.run_eq]
  refine BrokerCmd.run_frame (J := SamePlaces w) (fun b s hs => ⟨hs.handles, hs.names⟩)
    (fun r s hs => ?_) (fun held p s hs => ?_) c.cmd w ⟨rfl, fun _ => rfl⟩
  · show SamePlaces w (reportError r s).2
    rw [reportError_run]
    exact ⟨hs.handles, hs.names⟩
  · exact ⟨(hL.handles held p s).trans hs.handles,
      fun q => (hL.names held p s q).trans (hs.names q)⟩

theorem SamePlaces.trans {w w' w'' : ChainWorld D} (h : SamePlaces w w') (h' : SamePlaces w' w'') :
    SamePlaces w w'' :=
  ⟨h'.handles.trans h.handles, fun q => (h'.names q).trans (h.names q)⟩

/-! ### The registries -/

/-- The entry of a broker's registry. -/
def entry (w : ChainWorld D) (j : ℕ) (n : String) : Option D.Param :=
  (w.store.broker j).getOrigParam n

/-- The broker that answers for the name of a parameter where the parameter was constructed. -/
def responsible (L : ChainWatchers D) (w : ChainWorld D) (p : D.Param) : ℕ :=
  w.store.broker.resp (w.param p).mName (L.index (w.store.mBrokerHandle p))

/-- The world with the members of a new parameter object. -/
def withObject (h : D.BrokerHandle) (p : D.Param) (a : ParamArgs (D.Value p)) (w : ChainWorld D) :
    ChainWorld D :=
  let w := w.setParam p a.object
  { w with store := { w.store with mBrokerHandle := Function.update w.store.mBrokerHandle p h } }

theorem withObject_param (h : D.BrokerHandle) (p : D.Param) (a : ParamArgs (D.Value p))
    (w : ChainWorld D) : (withObject h p a w).param p = a.object := w.param_setParam p _

theorem withObject_param_of_ne (h : D.BrokerHandle) {p q : D.Param} (a : ParamArgs (D.Value p))
    (w : ChainWorld D) (hq : q ≠ p) : (withObject h p a w).param q = w.param q :=
  w.param_setParam_of_ne _ hq

/-- The destructor takes the entry of the parameter's name off the broker that answers for it. -/
theorem destroy_step (hL : L.Outside) (w : ChainWorld D) (p : D.Param) :
    SamePlaces w (L.destroy I p w).2 ∧ ∀ j n q, entry (L.destroy I p w).2 j n = some q ↔
      ¬(j = responsible L w p ∧ n = (w.param p).mName) ∧ entry w j n = some q := by
  let c : ChainCmd D.Param D.CciValue := ⟨L.index (w.store.mBrokerHandle p), .removeParam p⟩
  have hrun : L.destroy I p w =
      (L.env I w).removeParam (L.index (w.store.mBrokerHandle p)) p w := by
    rw [destroy, Eff.get_bind_run]
  have hremove : (L.env I w).removeParam (L.index (w.store.mBrokerHandle p)) p =
      c.run (L.env I w) := rfl
  rw [hrun]
  constructor
  · rw [hremove]
    exact hL.samePlaces w c w
  · intro j n q
    exact ChainEnv.registry_removeParam (hL.env (I := I) w) (L.index (w.store.mBrokerHandle p)) p w j n q

variable [Inhabited D.CciValue]

/-- A constructor is what `init` does with the new object. -/
theorem construct_eq (h : D.BrokerHandle) (p : D.Param) (a : ParamArgs (D.Value p))
    (w : ChainWorld D) :
    L.construct I h p a w = presetThen I p (w.store.broker.hasPresetValue (L.index h) a.name)
      (w.store.broker.getPresetCciValue (L.index h) a.name)
      (w.store.broker.getValueOrigin (fun q => ((withObject h p a w).param q).mValueOrigin)
        (L.index h) a.name)
      ((L.env I (withObject h p a w)).addParam (L.index h) p) (withObject h p a w) := by
  have hname : ((withObject h p a w).param p).mName = a.name :=
    congrArg CciParam.mName (withObject_param h p a w)
  have hindex : (withObject h p a w).store.mBrokerHandle p = h := by
    show Function.update w.store.mBrokerHandle p h p = h
    rw [Function.update_self]
  show L.init I p (withObject h p a w) = _
  rw [init, Eff.get_bind_run, hname, hindex]
  rfl

/-- A constructor enters its parameter at the broker that answers for its name, unless it throws
before that. -/
theorem construct_step (hL : L.Outside) {w : ChainWorld D} {h : D.BrokerHandle} {p : D.Param}
    {a : ParamArgs (D.Value p)} (ho : (L.construct I h p a w).1.returned = true) :
    SamePlaces (withObject h p a w) (L.construct I h p a w).2 ∧
    (((∃ e, (L.construct I h p a w).1 = .throw e) ∧
        entry (L.construct I h p a w).2 = entry w) ∨
      ∀ j n q, entry (L.construct I h p a w).2 j n = some q ↔
        (q = p ∧ j = w.store.broker.resp a.name (L.index h) ∧ n = a.name) ∨
          entry w j n = some q) := by
  let w₁ := withObject h p a w
  have hparam : w₁.param p = a.object := withObject_param h p a w
  have hname : (w₁.param p).mName = a.name := congrArg CciParam.mName hparam
  rw [construct_eq] at ho ⊢
  rcases presetThen_cases (w := w₁) (fun k => by rw [hparam]; rfl) I
    (w.store.broker.hasPresetValue (L.index h) a.name)
    (w.store.broker.getPresetCciValue (L.index h) a.name)
    (w.store.broker.getValueOrigin (fun q => (w₁.param q).mValueOrigin) (L.index h) a.name)
    ((L.env I w₁).addParam (L.index h) p) with ⟨-, e, t, ht, hstore⟩ | ⟨-, t, ht, hstore⟩
  · rw [ht]
    refine ⟨⟨by rw [hstore], fun q => by rw [World.param, hstore]; rfl⟩, .inl ⟨⟨e, rfl⟩, ?_⟩⟩
    funext j n
    show (t.store.broker j).getOrigParam n = _
    rw [hstore]
    rfl
  · rw [ht] at ho ⊢
    have hsame : SamePlaces w₁ t := by
      rcases hstore with hstore | ⟨v, hstore⟩
      · exact ⟨by rw [hstore], fun q => by rw [World.param, hstore]; rfl⟩
      · refine ⟨by rw [hstore]; rfl, fun q => ?_⟩
        rw [World.param, hstore]
        by_cases hqp : q = p
        · subst hqp
          exact (congrArg CciParam.mName (w₁.param_setParam q _)).trans rfl
        · exact congrArg CciParam.mName (w₁.param_setParam_of_ne _ hqp)
    have hbroker : t.store.broker = w.store.broker := by
      rcases hstore with hstore | ⟨v, hstore⟩
      · rw [hstore]
        rfl
      · rw [hstore]
        rfl
    let c : ChainCmd D.Param D.CciValue := ⟨L.index h, .addParam p⟩
    have hadd : (L.env I w₁).addParam (L.index h) p = c.run (L.env I w₁) := rfl
    constructor
    · rw [hadd]
      exact hsame.trans (hL.samePlaces w₁ c t)
    refine .inr fun j n q => ?_
    have hreg := ChainEnv.registry_addParam (hL.env w₁) (ChainEnv.free_of_addParam ho) j n q
    rw [show (L.env I w₁).name p = a.name from hname,
      show (L.env I w₁).chain.get t = w.store.broker from hbroker] at hreg
    exact hreg

end ChainWatchers

end Cci
