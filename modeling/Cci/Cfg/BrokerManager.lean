import Cci.Lib.Ancestry
import Cci.Lib.Runs
import Cci.Cfg.World

/-!
# The broker manager

`cci_broker_manager` maps SystemC objects to the brokers registered there; the NULL object stands
for the global broker.  An originator is served by the broker of the nearest object above it.

* `CciBrokerManager` with `getBroker` and `registerBroker`;
* `RegisterCmd` — registrations from arbitrary current objects;
* `registeredAt` — the broker a history of registrations leaves at an object: the first one;
* `broker_resolution` — resolution is nearest-ancestor and registration is write-once.
-/

namespace Cci

open Effect Ancestry

/-- A `cci_broker_handle`. -/
structure BrokerHandle (B : Type) where
  mBroker : B
  mOriginator : CciOriginator
deriving DecidableEq

/-- `m_brokers`, with the error reports so far.  Objects are given by their addresses, `none` is the
NULL object. -/
structure CciBrokerManager (B : Type) where
  mBrokers : Option ℕ → Option B := fun _ => none
  reports : List Report := []

namespace CciBrokerManager

variable {B : Type}

/-- The state after an error report. -/
def reported (r : Report) (s : CciBrokerManager B) : CciBrokerManager B :=
  { s with reports := s.reports ++ [r] }

/-- `CCI_REPORT_ERROR`. -/
def reportError (throws : Bool) (r : Report) : Eff Report (CciBrokerManager B) Unit := do
  Eff.modify (reported r)
  if throws then Eff.raise r else pure ()

def noGlobalBroker : Report := cciReport "cci_broker_manager" "No global broker found!"

def alreadyRegistered : Report :=
  cciReport "cci_broker_manager/register_broker"
    "A broker is already registered in the current hierarchy."

/-- The loop of `get_broker`, from the object `org` on, one unit of fuel an iteration. -/
def getBrokerFrom (t : Forest ℕ) (throws : Bool) (originator : CciOriginator) :
    ℕ → Option ℕ → Eff Report (CciBrokerManager B) (BrokerHandle B)
  | 0, _ => Eff.diverge
  | fuel + 1, org => do
      let s ← Eff.get
      match s.mBrokers org with
      | some broker => pure ⟨broker, originator⟩
      | none =>
          match org with
          | none => do
              reportError throws noGlobalBroker
              -- `cci_abort()`, reached when the report does not throw.
              Eff.abort
          | some obj => getBrokerFrom t throws originator fuel (t.parent obj)

/-- `get_broker(originator)`. -/
def getBroker (t : Forest ℕ) (throws : Bool) (fuel : ℕ) (originator : CciOriginator) :
    Eff Report (CciBrokerManager B) (BrokerHandle B) :=
  getBrokerFrom t throws originator fuel originator.getObject

/-- The originator of the handle `register_broker` returns. -/
def registrant : Option ScObject → CciOriginator
  | some obj => .object obj
  | none => .named unknownOriginatorString

/-- `register_broker(broker)` with the given current object; `m_brokers[obj]` creates a NULL entry
where there is none. -/
def registerBroker [DecidableEq B] (throws : Bool) (currentObject : Option ScObject) (broker : B) :
    Eff Report (CciBrokerManager B) (BrokerHandle B) := do
  let obj := currentObject.map ScObject.addr
  let s ← Eff.get
  let brokerEntry := (s.mBrokers obj).getD broker
  Eff.modify fun s => { s with mBrokers := Function.update s.mBrokers obj (some brokerEntry) }
  if broker ≠ brokerEntry then
    reportError throws alreadyRegistered
  pure ⟨brokerEntry, registrant currentObject⟩

/-! ### Resolution -/

theorem getBrokerFrom_nearest {t : Forest ℕ} {s : CciBrokerManager B} (throws : Bool)
    (o : CciOriginator) {fuel : ℕ} {x : Option ℕ} (hfuel : t.height x < fuel) {b : B}
    (hb : Nearest t s.mBrokers x b) : getBrokerFrom t throws o fuel x s = (.ok ⟨b, o⟩, s) := by
  induction fuel generalizing x with
  | zero => omega
  | succ fuel ih =>
    simp only [getBrokerFrom, Eff.get_bind_run]
    cases hx : s.mBrokers x with
    | some c =>
      rw [hb.unique (Nearest.here hx)]
      rfl
    | none =>
      cases x with
      | none => exact absurd (unmarked_none hx) hb.not_unmarked
      | some obj =>
        have hup : t.height (t.up (some obj)) < fuel := by
          have := t.height_up_lt obj
          omega
        exact ih hup (hb.up hx)

theorem getBrokerFrom_unmarked {t : Forest ℕ} {s : CciBrokerManager B} (throws : Bool)
    (o : CciOriginator) {fuel : ℕ} {x : Option ℕ} (hfuel : t.height x < fuel)
    (hm : Unmarked t s.mBrokers x) : getBrokerFrom t throws o fuel x s =
      (if throws then .throw noGlobalBroker else .abort, s.reported noGlobalBroker) := by
  induction fuel generalizing x with
  | zero => omega
  | succ fuel ih =>
    have hx : s.mBrokers x = none := hm 0
    simp only [getBrokerFrom, Eff.get_bind_run, hx]
    cases x with
    | none => cases throws <;> rfl
    | some obj =>
      have hup : t.height (t.up (some obj)) < fuel := by
        have := t.height_up_lt obj
        omega
      exact ih hup hm.up

/-- The answer of `get_broker` depends on the way up from the originator's object only. -/
theorem getBroker_congr {t : Forest ℕ} {s s' : CciBrokerManager B} (throws : Bool)
    (o : CciOriginator) (fuel : ℕ) (h : s'.mBrokers = s.mBrokers) :
    (getBroker t throws fuel o s').1 = (getBroker t throws fuel o s).1 := by
  unfold getBroker
  generalize o.getObject = x
  induction fuel generalizing x with
  | zero => rfl
  | succ fuel ih =>
    simp only [getBrokerFrom, Eff.get_bind_run, h]
    cases s.mBrokers x with
    | some b => rfl
    | none =>
      cases x with
      | none => cases throws <;> rfl
      | some obj => exact ih _

end CciBrokerManager

open CciBrokerManager

variable {B : Type}

/-- A call of `register_broker` with its current object. -/
structure RegisterCmd (B : Type) where
  currentObject : Option ScObject
  broker : B

namespace RegisterCmd

/-- The place the broker is registered at. -/
def obj (c : RegisterCmd B) : Option ℕ := c.currentObject.map ScObject.addr

variable [DecidableEq B]

def run (throws : Bool) (c : RegisterCmd B) : Eff Report (CciBrokerManager B) (BrokerHandle B) :=
  registerBroker throws c.currentObject c.broker

theorem run_new (throws : Bool) (c : RegisterCmd B) {s : CciBrokerManager B}
    (h : s.mBrokers c.obj = none) : c.run throws s = (.ok ⟨c.broker, registrant c.currentObject⟩,
      { s with mBrokers := Function.update s.mBrokers c.obj (some c.broker) }) := by
  have hget : (s.mBrokers (c.currentObject.map ScObject.addr)).getD c.broker = c.broker := by
    rw [show s.mBrokers (c.currentObject.map ScObject.addr) = none from h]
    rfl
  simp only [run, registerBroker, Eff.get_bind_run, Eff.modify_bind_run, hget, ne_eq,
    not_true_eq_false, if_false]
  rfl

theorem run_same (throws : Bool) (c : RegisterCmd B) {s : CciBrokerManager B}
    (h : s.mBrokers c.obj = some c.broker) :
    c.run throws s = (.ok ⟨c.broker, registrant c.currentObject⟩, s) := by
  have hget : (s.mBrokers (c.currentObject.map ScObject.addr)).getD c.broker = c.broker := by
    rw [show s.mBrokers (c.currentObject.map ScObject.addr) = some c.broker from h]
    rfl
  have hself : Function.update s.mBrokers (c.currentObject.map ScObject.addr) (some c.broker) =
      s.mBrokers := by
    rw [← h]
    exact Function.update_eq_self _ _
  simp only [run, registerBroker, Eff.get_bind_run, Eff.modify_bind_run, hget, ne_eq,
    not_true_eq_false, if_false, hself]
  rfl

/-- A registration where another broker is registered is only reported. -/
theorem run_taken (throws : Bool) (c : RegisterCmd B) {s : CciBrokerManager B} {b : B}
    (h : s.mBrokers c.obj = some b) (hne : c.broker ≠ b) : c.run throws s =
      (if throws then .throw alreadyRegistered else .ok ⟨b, registrant c.currentObject⟩,
        s.reported alreadyRegistered) := by
  have hget : (s.mBrokers (c.currentObject.map ScObject.addr)).getD c.broker = b := by
    rw [show s.mBrokers (c.currentObject.map ScObject.addr) = some b from h]
    rfl
  have hself : Function.update s.mBrokers (c.currentObject.map ScObject.addr) (some b) =
      s.mBrokers := by
    rw [← h]
    exact Function.update_eq_self _ _
  simp only [run, registerBroker, Eff.get_bind_run, Eff.modify_bind_run, hget, hself, ne_eq, hne,
    not_false_eq_true, if_true]
  cases throws <;> rfl

theorem run_mBrokers (throws : Bool) (c : RegisterCmd B) (s : CciBrokerManager B) :
    (c.run throws s).2.mBrokers =
      Function.update s.mBrokers c.obj (some ((s.mBrokers c.obj).getD c.broker)) := by
  cases h : s.mBrokers c.obj with
  | none =>
    rw [run_new throws c h]
    rfl
  | some b =>
    have hself : Function.update s.mBrokers c.obj (some b) = s.mBrokers := by
      rw [← h]
      exact Function.update_eq_self _ _
    rw [Option.getD_some, hself]
    by_cases hb : c.broker = b
    · rw [run_same throws c (h.trans (congrArg some hb.symm))]
    · rw [run_taken throws c h hb]
      rfl

end RegisterCmd

/-- The broker a history of registrations leaves at an object: the first one registered there. -/
def registeredAt (cs : List (RegisterCmd B)) (x : Option ℕ) : Option B :=
  (cs.find? fun c => c.obj = x).map RegisterCmd.broker

theorem registeredAt_snoc (cs : List (RegisterCmd B)) (c : RegisterCmd B) :
    registeredAt (cs ++ [c]) =
      Function.update (registeredAt cs) c.obj (some ((registeredAt cs c.obj).getD c.broker)) := by
  funext x
  simp only [registeredAt, List.find?_append]
  by_cases hx : x = c.obj
  · subst hx
    cases h : cs.find? fun d => d.obj = c.obj with
    | none => simp
    | some d => simp
  · rw [Function.update_of_ne hx]
    cases h : cs.find? fun d => d.obj = x with
    | none => simp [registeredAt, h, Ne.symm hx]
    | some d => simp [registeredAt, h]

variable [DecidableEq B]

/-- Registration is write-once over every history. -/
theorem mBrokers_states (throws : Bool) (cs : List (RegisterCmd B)) :
    (states (RegisterCmd.run throws) {} cs).mBrokers = registeredAt cs := by
  induction cs using List.reverseRecOn with
  | nil => rfl
  | append_singleton cs c ih =>
    rw [states_snoc, RegisterCmd.run_mBrokers, ih, registeredAt_snoc]

/-- Whatever is registered afterwards, only `m_brokers` decides where it goes. -/
theorem states_mBrokers_congr (throws : Bool) (cs : List (RegisterCmd B))
    {s s' : CciBrokerManager B} (h : s'.mBrokers = s.mBrokers) :
    (states (RegisterCmd.run throws) s' cs).mBrokers =
      (states (RegisterCmd.run throws) s cs).mBrokers := by
  induction cs using List.reverseRecOn with
  | nil => exact h
  | append_singleton cs c ih =>
    rw [states_snoc, states_snoc, RegisterCmd.run_mBrokers, RegisterCmd.run_mBrokers, ih]

/-- **Broker resolution.**  After any history of registrations `get_broker` returns the broker
registered at the nearest object above the originator's one, and fails where there is none; a
registration at an object with another broker is reported and has no effect on later resolutions; a
registration that succeeds changes the resolution of originators below its object only, and of those
only where no broker is registered in between. -/
theorem broker_resolution (t : Forest ℕ) (throws : Bool) (cs : List (RegisterCmd B))
    {s : CciBrokerManager B} (hs : s = states (RegisterCmd.run throws) {} cs) :
    (∀ o fuel, t.height o.getObject < fuel →
      (∃ b, Nearest t (registeredAt cs) o.getObject b ∧
        getBroker t throws fuel o s = (.ok ⟨b, o⟩, s)) ∨
      (Unmarked t (registeredAt cs) o.getObject ∧ getBroker t throws fuel o s =
        (if throws then .throw noGlobalBroker else .abort, s.reported noGlobalBroker))) ∧
    (∀ (c : RegisterCmd B) b, registeredAt cs c.obj = some b → c.broker ≠ b →
      c.run throws s = (if throws then .throw alreadyRegistered
        else .ok ⟨b, registrant c.currentObject⟩, s.reported alreadyRegistered) ∧
      ∀ cs' o fuel,
        (getBroker t throws fuel o (states (RegisterCmd.run throws) (c.run throws s).2 cs')).1 =
          (getBroker t throws fuel o (states (RegisterCmd.run throws) s cs')).1) ∧
    (∀ c : RegisterCmd B, registeredAt cs c.obj = none ∨ registeredAt cs c.obj = some c.broker →
      (c.run throws s).1 = .ok ⟨c.broker, registrant c.currentObject⟩ ∧
      ∀ o fuel, t.height o.getObject < fuel →
        (getBroker t throws fuel o (c.run throws s).2).1 ≠ (getBroker t throws fuel o s).1 →
        Reaches t (registeredAt cs) o.getObject c.obj) := by
  have hm : s.mBrokers = registeredAt cs := by
    rw [hs]
    exact mBrokers_states throws cs
  refine ⟨fun o fuel hfuel => ?_, fun c b hb hne => ⟨?_, fun cs' o fuel => ?_⟩,
    fun c hc => ⟨?_, fun o fuel hfuel => ?_⟩⟩
  · rcases nearest_or_unmarked t (registeredAt cs) o.getObject with ⟨b, hb⟩ | hno
    · exact .inl ⟨b, hb, getBrokerFrom_nearest throws o hfuel (by rw [hm]; exact hb)⟩
    · exact .inr ⟨hno, getBrokerFrom_unmarked throws o hfuel (by rw [hm]; exact hno)⟩
  · rw [← hm] at hb
    exact RegisterCmd.run_taken throws c hb hne
  · rw [← hm] at hb
    apply getBroker_congr
    apply states_mBrokers_congr
    rw [RegisterCmd.run_taken throws c hb hne]
    rfl
  · rw [← hm] at hc
    rcases hc with hc | hc
    · rw [RegisterCmd.run_new throws c hc]
    · rw [RegisterCmd.run_same throws c hc]
  · intro hchanged
    by_contra hx
    apply hchanged
    have hagree : ∀ y, y ≠ c.obj → (c.run throws s).2.mBrokers y = s.mBrokers y := by
      intro y hy
      rw [RegisterCmd.run_mBrokers, Function.update_of_ne hy]
    rw [← hm] at hx
    rcases nearest_or_unmarked t s.mBrokers o.getObject with ⟨b, hb⟩ | hno
    · show (getBrokerFrom t throws o fuel _ _).1 = (getBrokerFrom t throws o fuel _ _).1
      rw [getBrokerFrom_nearest throws o hfuel hb,
        getBrokerFrom_nearest throws o hfuel (hb.congr hagree hx)]
    · show (getBrokerFrom t throws o fuel _ _).1 = (getBrokerFrom t throws o fuel _ _).1
      rw [getBrokerFrom_unmarked throws o hfuel hno,
        getBrokerFrom_unmarked throws o hfuel (hno.congr hagree hx)]

/-- A module in `top` with a broker of its own, besides the global one. -/
theorem broker_resolution_private :
    let t : Forest ℕ := {
      parent := fun x => if x = 2 then some 1 else none
      depth := fun x => if x = 2 then 1 else 0
      depth_lt := by
        intro x y h
        split at h
        · rename_i hx
          cases h
          simp [hx]
        · cases h }
    let cs : List (RegisterCmd ℕ) := [⟨none, 0⟩, ⟨some ⟨2, "top.sub"⟩, 7⟩]
    let s := states (RegisterCmd.run true) {} cs
    let o : CciOriginator := .object ⟨2, "top.sub"⟩
    (∃ b, Nearest t (registeredAt cs) (some 2) b ∧ getBroker t true 3 o s = (.ok ⟨b, o⟩, s)) ∨
      (Unmarked t (registeredAt cs) (some 2) ∧
        getBroker t true 3 o s = (.throw noGlobalBroker, s.reported noGlobalBroker)) := by
  intro t cs s o
  exact (broker_resolution t true cs (s := s) rfl).1 o 3 (by decide)

end Cci
