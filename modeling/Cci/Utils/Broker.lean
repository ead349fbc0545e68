import Cci.Core.FilteredRange
import Cci.Utils.ConsumingBroker

/-!
# Private brokers

A `cci_utils::broker` is a consuming broker with a parent: the names in its public set `expose` are
the parent's business, unless it is the global broker, which has none.

* `Broker`, `BrokerChain` — a chain of brokers, each the parent of the next;
* `sendToParent`, `forward` — the decision every overridden operation starts with;
* the overridden operations, each `forward` of the consuming one, and the inherited
  `getPresetValueOrigin`;
* `getParamHandle`, `getParamHandles`, `getCciValue` — lookup, enumeration and reading through the
  chain, with the default argument `cci_originator()` where the source leaves it to the default.
-/

namespace Cci

open Effect

/-- A `cci_utils::broker`. -/
structure Broker (P C : Type) extends ConsumingBroker P C where
  expose : Std.ExtTreeSet String := ∅

/-- Brokers each of which is the parent (`m_parent`) of the next; broker 0 is the global one. -/
abbrev BrokerChain (P C : Type) : Type := ℕ → Broker P C

namespace BrokerChain

variable {P C : Type} (ch : BrokerChain P C)

/-- `is_global_broker()`: there is no parent. -/
def isGlobalBroker (i : ℕ) : Bool := i == 0

/-- `sendToParent`. -/
def sendToParent (i : ℕ) (parname : String) : Bool :=
  decide (parname ∈ (ch i).expose) && !isGlobalBroker i

/-- `if (sendToParent(parname)) return m_parent.op(…); else return consuming_broker::op(…);`: `op j`
is the plain operation of broker `j`. -/
def forward {α : Type} (parname : String) (op : ℕ → α) : ℕ → α
  | 0 => op 0
  | i + 1 => if ch.sendToParent (i + 1) parname then forward parname op i else op (i + 1)

/-- `get_value_origin`. -/
def getValueOrigin (originOf : P → CciOriginator) (i : ℕ) (parname : String) : CciOriginator :=
  ch.forward parname (fun j => (ch j).getValueOrigin originOf parname) i

/-- `has_preset_value`. -/
def hasPresetValue (i : ℕ) (parname : String) : Bool :=
  ch.forward parname (fun j => (ch j).hasPresetValue parname) i

/-- `get_preset_cci_value`. -/
def getPresetCciValue [Inhabited C] (i : ℕ) (parname : String) : C :=
  ch.forward parname (fun j => (ch j).getPresetCciValue parname) i

/-- `get_preset_value_origin`, which `broker` does not override. -/
def getPresetValueOrigin (i : ℕ) (parname : String) : CciOriginator :=
  (ch i).getPresetValueOrigin parname

end BrokerChain

/-- A `cci_param_untyped_handle` as brokers hand it out. -/
structure ParamHandle (P : Type) where
  mParam : Option P
  mOriginator : CciOriginator
deriving DecidableEq

/-- `is_valid()`. -/
def ParamHandle.isValid {P : Type} (h : ParamHandle P) : Bool := h.mParam.isSome

/-- A chain inside a larger state `σ`: its place there, the names of parameters, the effect of an
error report, of reading a parameter (`par->get_cci_value(originator)`) and of the create and destroy
callbacks, and `sc_get_current_object()`. -/
structure ChainEnv (σ P C : Type) where
  chain : Lens σ (BrokerChain P C)
  name : P → String
  report : Report → Eff Report σ Unit
  read : P → CciOriginator → Eff Report σ C
  call : Held → P → Eff Report σ Unit
  fuel : ℕ
  currentObject : Option ScObject

namespace ChainEnv

variable {σ P C : Type} (env : ChainEnv σ P C)

/-- The consuming broker that broker `i` is. -/
def node (i : ℕ) : BrokerEnv σ P C where
  broker := {
    get := fun s => (env.chain.get s i).toConsumingBroker
    set := fun b s => env.chain.set (Function.update (env.chain.get s) i
      { env.chain.get s i with toConsumingBroker := b }) s
    get_set := fun b s => by rw [env.chain.get_set, Function.update_self]
    set_get := fun s => by rw [Function.update_eq_self, env.chain.set_get] }
  name := env.name
  report := env.report
  call := env.call
  fuel := env.fuel

/-- A forwarded operation in the present state. -/
def forward {α : Type} (parname : String) (op : ℕ → Eff Report σ α) (i : ℕ) : Eff Report σ α := do
  let s ← Eff.get
  (env.chain.get s).forward parname op i

/-! ### Presets and registration -/

/-- `set_preset_cci_value`. -/
def setPresetCciValue (i : ℕ) (parname : String) (value : C) (originator : CciOriginator) :
    Eff Report σ Unit :=
  env.forward parname (fun j => (env.node j).setPresetCciValue parname value originator) i

/-- `lock_preset_value`. -/
def lockPresetValue (i : ℕ) (parname : String) : Eff Report σ Unit :=
  env.forward parname (fun j => (env.node j).lockPresetValue parname) i

/-- `add_param`. -/
def addParam (i : ℕ) (par : P) : Eff Report σ Unit :=
  env.forward (env.name par) (fun j => (env.node j).addParam par) i

/-- `remove_param`. -/
def removeParam (i : ℕ) (par : P) : Eff Report σ Unit :=
  env.forward (env.name par) (fun j => (env.node j).removeParam par) i

/-! ### Originators -/

/-- The default argument `cci_originator()`: the current object; outside the hierarchy it is reported
and, if that comes back, is the unknown originator. -/
def defaultOriginator : Eff Report σ CciOriginator :=
  match env.currentObject with
  | some obj => pure (.object obj)
  | none => do
      env.report (cciReport "cci_originator/check_is_valid"
        ("It is forbidden to build an originator without information (no SystemC hierarchy or " ++
          "empty name)!"))
      pure .unknown

/-- `promote_originator`, which each copy of a handle applies. -/
def promoteOriginator (originator : CciOriginator) : CciOriginator :=
  match env.currentObject with
  | some obj => .object obj
  | none => originator

/-! ### Lookup and enumeration -/

/-- `get_param_handle`: an exposed name at the parent, else the own registry, else the parent. -/
def getParamHandle (ch : BrokerChain P C) (parname : String) (originator : CciOriginator) :
    ℕ → ParamHandle P
  | 0 =>
      match (ch 0).getOrigParam parname with
      | some p => ⟨some p, originator⟩
      | none => ⟨none, originator⟩
  | i + 1 =>
      if ch.sendToParent (i + 1) parname then getParamHandle ch parname originator i
      else
        match (ch (i + 1)).getOrigParam parname with
        | some p => ⟨some p, originator⟩
        | none => getParamHandle ch parname originator i

/-- `consuming_broker::get_param_handles`: the vector holds copies. -/
def ownParamHandles (b : Broker P C) (originator : CciOriginator) : List (ParamHandle P) :=
  b.mParamRegistry.toList.map fun x => ⟨some x.2, env.promoteOriginator originator⟩

/-- `get_param_handles(originator)`: the parent is asked without an originator. -/
def getParamHandles : ℕ → CciOriginator → Eff Report σ (List (ParamHandle P))
  | 0, originator => do
      let s ← Eff.get
      pure (env.ownParamHandles (env.chain.get s 0) originator)
  | i + 1, originator => do
      let parentOriginator ← env.defaultOriginator
      let pParamHandles ← getParamHandles i parentOriginator
      let s ← Eff.get
      pure (env.ownParamHandles (env.chain.get s (i + 1)) originator ++ pParamHandles)

/-- `get_param_handles(pred, originator)`: inherited from `consuming_broker`, it calls
`get_param_handles(originator)` of the broker at hand. -/
def getParamHandlesWith (i : ℕ) (pred : ParamHandle P → Bool) (originator : CciOriginator) :
    Eff Report σ (FilteredRange (ParamHandle P)) := do
  let hs ← env.getParamHandles i originator
  pure ⟨pred, hs⟩

/-! ### Reading a parameter by name -/

/-- `consuming_broker::get_cci_value`. -/
def ownGetCciValue [Inhabited C] (i : ℕ) (parname : String) (originator : CciOriginator) :
    Eff Report σ C := do
  let s ← Eff.get
  match (env.chain.get s i).getOrigParam parname with
  | some p => env.read p originator
  | none =>
      match (env.chain.get s i).mUnusedValueRegistry[parname]? with
      | some value => pure value
      | none => do
          env.report (getParamFailed "Unable to find the parameter to get value")
          pure default

/-- `get_cci_value(parname, originator)`: both branches leave the originator to the default. -/
def getCciValue [Inhabited C] (parname : String) : ℕ → CciOriginator → Eff Report σ C
  | 0, _ => do
      let originator' ← env.defaultOriginator
      env.ownGetCciValue 0 parname originator'
  | i + 1, _ => do
      let s ← Eff.get
      if (env.chain.get s).sendToParent (i + 1) parname then
        let originator' ← env.defaultOriginator
        getCciValue parname i originator'
      else
        let originator' ← env.defaultOriginator
        env.ownGetCciValue (i + 1) parname originator'

end ChainEnv

end Cci
