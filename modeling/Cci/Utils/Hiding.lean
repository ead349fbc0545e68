import Cci.Lib.Locality
import Cci.Utils.BrokerCallbacks
import Cci.Utils.BrokerRouting
import Cci.Utils.Unconsumed

/-!
# What private brokers hide

A name that a private broker does not expose is its own business.  Whatever is done with such names,
the brokers above it, and all who use them, go on as if nothing had been done.

* `BrokerOp`, `ChainOp.run` — every operation of the brokers of a chain, with its answer;
* `ChainOp.reach` — the broker an operation is answered at;
* `ChainEnv.Detached` — callbacks, reports and reads that have nothing to do with the chain;
* `Reaches`, `ChainOp.reaches` — an operation depends on the brokers from the global one to that
  broker, and changes that one only;
* `hidden_unseen` — without the operations that reach below a broker, a run shows the same to all who
  use the broker and those above.
-/

namespace Cci

open Effect

variable {σ P C V : Type}

/-! ### The operations -/

/-- The operations of a broker. -/
inductive BrokerOp (P C : Type) where
  | call (c : BrokerCmd P C) : BrokerOp P C
  | registerCallback (k : BrokerCallbackKind) (cb : CallbackHandle) (o : CciOriginator) : BrokerOp P C
  | unregisterCallback (k : BrokerCallbackKind) (cb : CallbackHandle) (o : CciOriginator) :
      BrokerOp P C
  | unregisterAllCallbacks (o : CciOriginator) : BrokerOp P C
  | hasCallbacks : BrokerOp P C
  | ignoreUnconsumedPresetValues (pred : String × C → Bool) : BrokerOp P C
  | getUnconsumedPresetValues : BrokerOp P C
  | hasPresetValue (parname : String) : BrokerOp P C
  | getPresetCciValue (parname : String) : BrokerOp P C
  | getPresetValueOrigin (parname : String) : BrokerOp P C
  | getValueOrigin (parname : String) : BrokerOp P C
  | getCciValue (parname : String) (o : CciOriginator) : BrokerOp P C
  | getParamHandle (parname : String) (o : CciOriginator) : BrokerOp P C
  | getParamHandles (o : CciOriginator) : BrokerOp P C

/-- What an operation answers. -/
inductive BrokerAnswer (P C : Type) where
  | unit : BrokerAnswer P C
  | flag (b : Bool) : BrokerAnswer P C
  | cci (c : C) : BrokerAnswer P C
  | origin (o : CciOriginator) : BrokerAnswer P C
  | presets (nvs : List (String × C)) : BrokerAnswer P C
  | handle (h : ParamHandle P) : BrokerAnswer P C
  | handles (hs : List (ParamHandle P)) : BrokerAnswer P C

/-- Apply an operation that only touches broker `i` itself. -/
def ChainEnv.onBroker (env : ChainEnv σ P C) (i : ℕ)
    (f : ConsumingBroker P C → Bool × ConsumingBroker P C) : Eff Report σ Bool := do
  let answer ← Eff.gets fun s => (f ((env.node i).broker.get s)).1
  (env.node i).broker.modify fun b => (f b).2
  pure answer

/-- An operation issued at one of the brokers of a chain. -/
structure ChainOp (P C : Type) where
  broker : ℕ
  op : BrokerOp P C

namespace ChainOp

/-- The operation at its broker; `originOf` is `get_value_origin()` of a parameter. -/
def run [Inhabited C] (env : ChainEnv σ P C) (originOf : P → CciOriginator) :
    ChainOp P C → Eff Report σ (BrokerAnswer P C)
  | ⟨i, .call c⟩ => do ChainCmd.run env ⟨i, c⟩; pure .unit
  | ⟨i, .registerCallback k cb o⟩ => do
      let _ ← env.onBroker i fun b => (true, (b.registerCallback k cb o).2); pure .unit
  | ⟨i, .unregisterCallback k cb o⟩ => do
      let b ← env.onBroker i (ConsumingBroker.unregisterCallback k cb o); pure (.flag b)
  | ⟨i, .unregisterAllCallbacks o⟩ => do
      let b ← env.onBroker i (ConsumingBroker.unregisterAllCallbacks o); pure (.flag b)
  | ⟨i, .hasCallbacks⟩ => Eff.gets fun s => .flag (env.chain.get s i).hasCallbacks
  | ⟨i, .ignoreUnconsumedPresetValues pred⟩ => do
      let _ ← env.onBroker i fun b => (true, b.ignoreUnconsumedPresetValues pred); pure .unit
  | ⟨i, .getUnconsumedPresetValues⟩ =>
      Eff.gets fun s => .presets (env.chain.get s i).getUnconsumedPresetValues
  | ⟨i, .hasPresetValue n⟩ => Eff.gets fun s => .flag ((env.chain.get s).hasPresetValue i n)
  | ⟨i, .getPresetCciValue n⟩ => Eff.gets fun s => .cci ((env.chain.get s).getPresetCciValue i n)
  | ⟨i, .getPresetValueOrigin n⟩ =>
      Eff.gets fun s => .origin ((env.chain.get s).getPresetValueOrigin i n)
  | ⟨i, .getValueOrigin n⟩ =>
      Eff.gets fun s => .origin ((env.chain.get s).getValueOrigin originOf i n)
  | ⟨i, .getCciValue n o⟩ => do let c ← env.getCciValue n i o; pure (.cci c)
  | ⟨i, .getParamHandle n o⟩ =>
      Eff.gets fun s => .handle (ChainEnv.getParamHandle (env.chain.get s) n o i)
  | ⟨i, .getParamHandles o⟩ => do let hs ← env.getParamHandles i o; pure (.handles hs)

/-- The broker an operation is answered at. -/
def reach (env : ChainEnv σ P C) (ch : BrokerChain P C) : ChainOp P C → ℕ
  | ⟨i, .call c⟩ => ch.resp (c.parname env.name) i
  | ⟨i, .hasPresetValue n⟩ | ⟨i, .getPresetCciValue n⟩ | ⟨i, .getValueOrigin n⟩
  | ⟨i, .getCciValue n _⟩ | ⟨i, .getParamHandle n _⟩ => ch.resp n i
  | ⟨i, _⟩ => i

end ChainOp

theorem BrokerChain.resp_le (ch : BrokerChain P C) (n : String) (i : ℕ) : ch.resp n i ≤ i := by
  induction i with
  | zero => exact le_rfl
  | succ i ih =>
    cases hs : ch.sendToParent (i + 1) n with
    | true =>
      rw [resp_of_sent hs]
      omega
    | false => exact (resp_of_not_sent hs).le

/-- Operations go up only. -/
theorem ChainOp.reach_le (env : ChainEnv σ P C) (ch : BrokerChain P C) (c : ChainOp P C) :
    c.reach env ch ≤ c.broker := by
  obtain ⟨i, op⟩ := c
  cases op <;> first | exact le_rfl | exact ch.resp_le _ i

/-! ### What an operation depends on and what it changes -/

/-- Callbacks, reports and reads of parameters depend on what `out` shows, which is apart from the
chain; they change neither. -/
structure ChainEnv.Detached (env : ChainEnv σ P C) (out : σ → V) : Prop where
  report : ∀ r, Local (fun _ => True) out (fun s => (out s, env.chain.get s)) (env.report r)
  call : ∀ held par, Local (fun _ => True) out (fun s => (out s, env.chain.get s)) (env.call held par)
  read : ∀ p o, Local (fun _ => True) out (fun s => (out s, env.chain.get s)) (env.read p o)
  apart : ∀ ch s, out (env.chain.set ch s) = out s

/-- The brokers from the global one to broker `r`, with what is outside the chain. -/
def ChainEnv.upTo (env : ChainEnv σ P C) (out : σ → V) (r : ℕ) (s : σ) :
    V × ({i : ℕ // i ≤ r} → Broker P C) :=
  (out s, fun i => env.chain.get s i.1)

/-- All brokers but `r`, with what is outside the chain. -/
def ChainEnv.others (env : ChainEnv σ P C) (out : σ → V) (r : ℕ) (s : σ) :
    V × ({i : ℕ // i ≠ r} → Broker P C) :=
  (out s, fun i => env.chain.get s i.1)

/-- The brokers expose the names that those of `ch` do. -/
def ChainEnv.Exposes (env : ChainEnv σ P C) (ch : BrokerChain P C) (s : σ) : Prop :=
  ∀ i, (env.chain.get s i).expose = (ch i).expose

/-- In states that expose what `ch` does: depends on the brokers up to `r`, and changes `r` only. -/
abbrev Reaches {α : Type} (env : ChainEnv σ P C) (out : σ → V) (ch : BrokerChain P C) (r : ℕ)
    (m : Eff Report σ α) : Prop :=
  Local (env.Exposes ch) (env.upTo out r) (env.others out r) m

theorem ChainEnv.upTo_eq_iff {env : ChainEnv σ P C} {out : σ → V} {r : ℕ} {s t : σ} :
    env.upTo out r s = env.upTo out r t ↔
      out s = out t ∧ ∀ i ≤ r, env.chain.get s i = env.chain.get t i := by
  unfold ChainEnv.upTo
  rw [Prod.mk.injEq, funext_iff]
  exact and_congr_right' ⟨fun h i hi => h ⟨i, hi⟩, fun h i => h i.1 i.2⟩

theorem ChainEnv.others_eq_iff {env : ChainEnv σ P C} {out : σ → V} {r : ℕ} {s t : σ} :
    env.others out r s = env.others out r t ↔
      out s = out t ∧ ∀ i ≠ r, env.chain.get s i = env.chain.get t i := by
  unfold ChainEnv.others
  rw [Prod.mk.injEq, funext_iff]
  exact and_congr_right' ⟨fun h i hi => h ⟨i, hi⟩, fun h i => h i.1 i.2⟩

theorem ChainEnv.Exposes.resp_eq {env : ChainEnv σ P C} {ch : BrokerChain P C} {s : σ}
    (hs : env.Exposes ch s) (n : String) (i : ℕ) : (env.chain.get s).resp n i = ch.resp n i :=
  BrokerChain.resp_congr hs n i

theorem ChainEnv.Exposes.sendToParent_eq {env : ChainEnv σ P C} {ch : BrokerChain P C} {s : σ}
    (hs : env.Exposes ch s) (i : ℕ) (n : String) :
    (env.chain.get s).sendToParent i n = ch.sendToParent i n := by
  rw [BrokerChain.sendToParent, BrokerChain.sendToParent, hs i]

theorem ChainEnv.chain_set (env : ChainEnv σ P C) (r : ℕ) (b : ConsumingBroker P C) (s : σ) :
    env.chain.get ((env.node r).broker.set b s) = Function.update (env.chain.get s) r
      { env.chain.get s r with toConsumingBroker := b } :=
  env.chain.get_set _ s

theorem ChainEnv.node_congr {env : ChainEnv σ P C} {r : ℕ} {s t : σ}
    (h : env.chain.get s r = env.chain.get t r) :
    (env.node r).broker.get s = (env.node r).broker.get t :=
  congrArg Broker.toConsumingBroker h

namespace Reaches

variable {α : Type} {env : ChainEnv σ P C} {out : σ → V} {ch : BrokerChain P C} {r : ℕ}

/-- What has nothing to do with the chain. -/
theorem of_detached {m : Eff Report σ α}
    (hm : Local (fun _ => True) out (fun s => (out s, env.chain.get s)) m) :
    Reaches env out ch r m := by
  refine hm.of_less (fun s t h => ?_) (fun s t h => ?_) (fun s t h => ?_) fun s t h ht i => ?_
  · exact (ChainEnv.upTo_eq_iff.1 h).1
  · obtain ⟨hout, hchain⟩ := Prod.mk.inj h
    exact ChainEnv.upTo_eq_iff.2 ⟨hout, fun i _ => congrFun hchain i⟩
  · obtain ⟨hout, hchain⟩ := Prod.mk.inj h
    exact ChainEnv.others_eq_iff.2 ⟨hout, fun i _ => congrFun hchain i⟩
  · rw [(Prod.mk.inj h).2]
    exact ht i

/-- Reading the brokers up to `r`. -/
theorem gets {f : σ → α}
    (hf : ∀ s t, env.Exposes ch s → env.Exposes ch t →
      (∀ i ≤ r, env.chain.get s i = env.chain.get t i) → f s = f t) :
    Reaches env out ch r (Eff.gets f : Eff Report σ α) :=
  Local.gets fun s t hs ht h => hf s t hs ht (ChainEnv.upTo_eq_iff.1 h).2

theorem get {k : σ → Eff Report σ α}
    (hk : ∀ s t, env.Exposes ch s → env.Exposes ch t →
      (∀ i ≤ r, env.chain.get s i = env.chain.get t i) → k s = k t)
    (h : ∀ s, env.Exposes ch s → Reaches env out ch r (k s)) :
    Reaches env out ch r (Eff.get >>= k) :=
  Local.get (fun s t hs ht h => hk s t hs ht (ChainEnv.upTo_eq_iff.1 h).2) h

/-- An operation that overrides one of `consuming_broker` answers for the responding broker. -/
theorem routed {β : Type} (f : Broker P C → β) (answer : β → α) (n : String) (i : ℕ) :
    Reaches env out ch (ch.resp n i) (Eff.gets fun s =>
      answer ((env.chain.get s).forward n (fun j => f (env.chain.get s j)) i)) :=
  gets fun s t hs ht h => by
    rw [BrokerChain.forward_eq, BrokerChain.forward_eq, hs.resp_eq, ht.resp_eq, h _ le_rfl]

section

variable (henv : env.Detached out)

include henv

theorem modify (f : ConsumingBroker P C → ConsumingBroker P C) :
    Reaches env out ch r ((env.node r).broker.modify f : Eff Report σ Unit) := by
  refine Local.modify (fun s t h => ?_) (fun s => ?_) fun s hs i => ?_
  · obtain ⟨hout, hchain⟩ := ChainEnv.upTo_eq_iff.1 h
    have hr := hchain r le_rfl
    refine ChainEnv.upTo_eq_iff.2 ⟨(henv.apart _ s).trans (hout.trans (henv.apart _ t).symm),
      fun i hi => ?_⟩
    rw [ChainEnv.chain_set, ChainEnv.chain_set, ChainEnv.node_congr hr, hr]
    by_cases hir : i = r
    · subst hir
      rw [Function.update_self, Function.update_self]
    · rw [Function.update_of_ne hir, Function.update_of_ne hir]
      exact hchain i hi
  · refine ChainEnv.others_eq_iff.2 ⟨henv.apart _ s, fun i hi => ?_⟩
    rw [ChainEnv.chain_set, Function.update_of_ne hi]
  · rw [ChainEnv.chain_set]
    by_cases hir : i = r
    · subst hir
      rw [Function.update_self]
      exact hs i
    · rw [Function.update_of_ne hir]
      exact hs i

theorem onBroker (f : ConsumingBroker P C → Bool × ConsumingBroker P C) :
    Reaches env out ch r (env.onBroker r f) := by
  refine Local.bind (gets fun s t _ _ h => ?_) fun _ => (modify henv _).bind fun _ => Local.pure _
  rw [ChainEnv.node_congr (h r le_rfl)]

theorem dispatch (par : P) (vec : ConsumingBroker P C → List BrokerCallbackObj) :
    Reaches env out ch r (Eff.forEach (fun s i => (vec ((env.node r).broker.get s))[i]?)
      ((env.node r).invoke par) (env.node r).fuel 0 ()) := by
  refine Local.forEach (fun s t _ _ h => ?_) (fun entry _ => ?_) _ _ _
  · rw [ChainEnv.node_congr ((ChainEnv.upTo_eq_iff.1 h).2 r le_rfl)]
  · unfold BrokerEnv.invoke
    cases entry.callback with
    | none => exact Local.abort
    | some held => exact of_detached (henv.call held par)

/-- The four calls, at the broker that answers them. -/
theorem call (c : BrokerCmd P C) : Reaches env out ch r (c.run (env.node r)) := by
  cases c with
  | setPresetCciValue n v o =>
    refine get (fun s t _ _ h => ?_) fun s _ => ?_
    · rw [ChainEnv.node_congr (h r le_rfl)]
    · cases ((env.node r).broker.get s).setPresetCciValue n v o with
      | error rpt => exact of_detached (henv.report rpt)
      | ok b => exact modify henv fun _ => b
  | lockPresetValue n => exact modify henv _
  | addParam par =>
    refine get (fun s t _ _ h => ?_) fun s _ => ?_
    · rw [ChainEnv.node_congr (h r le_rfl)]
    · refine Local.ite Local.abort ((modify henv _).bind fun _ => (modify henv _).bind fun _ => ?_)
      exact dispatch henv par ConsumingBroker.mCreateCallbacks
  | removeParam par =>
    refine (modify henv _).bind fun _ => Local.bind ?_ fun _ => modify henv _
    exact dispatch henv par ConsumingBroker.mDestroyCallbacks

/-- A call at the broker it is issued at. -/
theorem command (c : BrokerCmd P C) (i : ℕ) (hi : ch.resp (c.parname env.name) i = r) :
    Reaches env out ch r (ChainCmd.run env ⟨i, c⟩) := by
  have hforward : ChainCmd.run env ⟨i, c⟩ =
      env.forward (c.parname env.name) (fun j => c.run (env.node j)) i := by
    cases c <;> rfl
  rw [hforward]
  refine get (fun s t hs ht _ => ?_) fun s hs => ?_
  · rw [BrokerChain.forward_eq, BrokerChain.forward_eq, hs.resp_eq, ht.resp_eq]
  · rw [BrokerChain.forward_eq, hs.resp_eq, hi]
    exact call henv c

theorem defaultOriginator : Reaches env out ch r env.defaultOriginator := by
  unfold ChainEnv.defaultOriginator
  cases env.currentObject with
  | some obj => exact Local.pure _
  | none => exact (of_detached (henv.report _)).bind fun _ => Local.pure _

theorem getParamHandles (i : ℕ) (hi : i ≤ r) (o : CciOriginator) :
    Reaches env out ch r (env.getParamHandles i o) := by
  induction i generalizing o with
  | zero =>
    refine get (fun s t _ _ h => ?_) fun s _ => Local.pure _
    rw [h 0 hi]
  | succ i ih =>
    refine (defaultOriginator henv).bind fun parentOriginator =>
      (ih (by omega) parentOriginator).bind fun pParamHandles => ?_
    refine get (fun s t _ _ h => ?_) fun s _ => Local.pure _
    rw [h (i + 1) hi]

variable [Inhabited C]

theorem ownGetCciValue (n : String) (o : CciOriginator) :
    Reaches env out ch r (env.ownGetCciValue r n o) := by
  refine get (fun s t _ _ h => ?_) fun s _ => ?_
  · rw [h r le_rfl]
  · cases (env.chain.get s r).getOrigParam n with
    | some p => exact of_detached (henv.read p o)
    | none =>
      cases (env.chain.get s r).mUnusedValueRegistry[n]? with
      | some v => exact Local.pure v
      | none => exact (of_detached (henv.report _)).bind fun _ => Local.pure _

theorem getCciValue (n : String) (i : ℕ) (hi : ch.resp n i = r) (o : CciOriginator) :
    Reaches env out ch r (env.getCciValue n i o) := by
  induction i generalizing o with
  | zero =>
    obtain rfl : 0 = r := hi
    exact (defaultOriginator henv).bind fun o' => ownGetCciValue henv n o'
  | succ i ih =>
    refine get (fun s t hs ht _ => ?_) fun s hs => ?_
    · rw [hs.sendToParent_eq, ht.sendToParent_eq]
    · rw [hs.sendToParent_eq]
      cases hsend : ch.sendToParent (i + 1) n with
      | true =>
        rw [BrokerChain.resp_of_sent hsend] at hi
        exact (defaultOriginator henv).bind fun o' => ih hi o'
      | false =>
        rw [BrokerChain.resp_of_not_sent hsend] at hi
        subst hi
        exact (defaultOriginator henv).bind fun o' => ownGetCciValue henv n o'

end

/-- A lookup asks the answering broker and those above it. -/
theorem getParamHandle_eq {s t : σ} (hs : env.Exposes ch s) (ht : env.Exposes ch t)
    (n : String) (o : CciOriginator) (i : ℕ)
    (h : ∀ j ≤ ch.resp n i, env.chain.get s j = env.chain.get t j) :
    ChainEnv.getParamHandle (env.chain.get s) n o i =
      ChainEnv.getParamHandle (env.chain.get t) n o i := by
  induction i with
  | zero =>
    unfold ChainEnv.getParamHandle
    rw [h 0 (Nat.zero_le _)]
  | succ i ih =>
    unfold ChainEnv.getParamHandle
    rw [hs.sendToParent_eq, ht.sendToParent_eq]
    cases hsend : ch.sendToParent (i + 1) n with
    | true =>
      rw [BrokerChain.resp_of_sent hsend] at h
      rw [if_pos rfl, if_pos rfl]
      exact ih h
    | false =>
      rw [BrokerChain.resp_of_not_sent hsend] at h
      have hle := ch.resp_le n i
      rw [h (i + 1) le_rfl, ih fun j hj => h j (by omega)]

end Reaches

section

variable [Inhabited C] {env : ChainEnv σ P C} {out : σ → V} (henv : env.Detached out)

include henv

/-- An operation depends on the brokers up to the one that answers it, and changes that one only. -/
theorem ChainOp.reaches (originOf : P → CciOriginator) (ch : BrokerChain P C) (c : ChainOp P C) :
    Reaches env out ch (c.reach env ch) (c.run env originOf) := by
  obtain ⟨i, op⟩ := c
  cases op with
  | call c => exact (Reaches.command henv c i rfl).bind fun _ => Local.pure _
  | registerCallback k cb o => exact (Reaches.onBroker henv _).bind fun _ => Local.pure _
  | unregisterCallback k cb o => exact (Reaches.onBroker henv _).bind fun _ => Local.pure _
  | unregisterAllCallbacks o => exact (Reaches.onBroker henv _).bind fun _ => Local.pure _
  | ignoreUnconsumedPresetValues pred =>
    exact (Reaches.onBroker henv _).bind fun _ => Local.pure _
  | hasCallbacks =>
    refine Reaches.gets fun s t _ _ h => ?_
    rw [h i le_rfl]
  | getUnconsumedPresetValues =>
    refine Reaches.gets fun s t _ _ h => ?_
    rw [h i le_rfl]
  | getPresetValueOrigin n =>
    refine Reaches.gets fun s t _ _ h => ?_
    rw [BrokerChain.getPresetValueOrigin, BrokerChain.getPresetValueOrigin, h i le_rfl]
  | hasPresetValue n => exact Reaches.routed (fun b => b.hasPresetValue n) _ n i
  | getPresetCciValue n => exact Reaches.routed (fun b => b.getPresetCciValue n) _ n i
  | getValueOrigin n => exact Reaches.routed (fun b => b.getValueOrigin originOf n) _ n i
  | getCciValue n o => exact (Reaches.getCciValue henv n i rfl o).bind fun _ => Local.pure _
  | getParamHandle n o =>
    refine Reaches.gets fun s t hs ht h => ?_
    rw [Reaches.getParamHandle_eq hs ht n o i h]
  | getParamHandles o => exact (Reaches.getParamHandles henv i le_rfl o).bind fun _ => Local.pure _

/-- The brokers up to `j` are shown what is answered there, and nothing else. -/
theorem ChainOp.sees (originOf : P → CciOriginator) (ch : BrokerChain P C) (j : ℕ)
    (c : ChainOp P C) :
    Effect.Sees (env.Exposes ch) (env.upTo out j)
      (fun c => decide (c.reach env ch ≤ j)) (ChainOp.run env originOf) c := by
  have hc := ChainOp.reaches henv originOf ch c
  have hseen : c.reach env ch ≤ j → ∀ {s t}, env.upTo out j s = env.upTo out j t →
      env.upTo out (c.reach env ch) s = env.upTo out (c.reach env ch) t := by
    intro hj s t h
    obtain ⟨hout, hchain⟩ := ChainEnv.upTo_eq_iff.1 h
    exact ChainEnv.upTo_eq_iff.2 ⟨hout, fun i hi => hchain i (hi.trans hj)⟩
  have hframe : ∀ s, env.Exposes ch s → out (c.run env originOf s).2 = out s ∧
      ∀ i ≠ c.reach env ch, env.chain.get (c.run env originOf s).2 i = env.chain.get s i :=
    fun s hs => ChainEnv.others_eq_iff.1 (hc.frame s hs)
  refine ⟨hc.keeps, fun hsel s t hs ht h => ?_, fun hsel s t hs ht h => ?_, fun hsel s hs => ?_⟩
  · exact hc.outcome hs ht (hseen (of_decide_eq_true hsel) h)
  · have hthere := (ChainEnv.upTo_eq_iff.1 (hc.agrees hs ht (hseen (of_decide_eq_true hsel) h))).2
    obtain ⟨hout, hchain⟩ := ChainEnv.upTo_eq_iff.1 h
    obtain ⟨houts, hs'⟩ := hframe s hs
    obtain ⟨houtt, ht'⟩ := hframe t ht
    refine ChainEnv.upTo_eq_iff.2 ⟨houts.trans (hout.trans houtt.symm), fun i hi => ?_⟩
    by_cases hir : i = c.reach env ch
    · exact hthere i hir.le
    · rw [hs' i hir, ht' i hir]
      exact hchain i hi
  · obtain ⟨houts, hs'⟩ := hframe s hs
    have hlt : j < c.reach env ch := not_le.1 (of_decide_eq_false hsel)
    exact ChainEnv.upTo_eq_iff.2 ⟨houts, fun i hi => hs' i (by omega)⟩

end

/-! ### The theorem -/

/-- **Hidden names are not seen above.**  Take the operations of a run that are answered below broker
`j` away.  What is left is a run with the same answers, among them all that the users of broker `j` and
of those above it are given, and it ends with the same brokers there. -/
theorem hidden_unseen [Inhabited C] (env : ChainEnv σ P C) {out : σ → V} (henv : env.Detached out)
    (originOf : P → CciOriginator) {s t : σ} {cs : List (ChainOp P C)}
    (hrun : Runs (ChainOp.run env originOf) s cs t) (j : ℕ) :
    (∀ c ∈ cs, c.broker ≤ j → c.reach env (env.chain.get s) ≤ j) ∧
      ∃ t', Runs (ChainOp.run env originOf) s
          (cs.filter fun c => c.reach env (env.chain.get s) ≤ j) t' ∧
        (∀ i ≤ j, env.chain.get t i = env.chain.get t' i) ∧
        outcomesOf (fun c => c.reach env (env.chain.get s) ≤ j) (ChainOp.run env originOf) s cs =
          outcomes (ChainOp.run env originOf) s
            (cs.filter fun c => c.reach env (env.chain.get s) ≤ j) := by
  refine ⟨fun c _ hj => (c.reach_le env _).trans hj, ?_⟩
  have hs : env.Exposes (env.chain.get s) s := fun _ => rfl
  have hsees : ∀ c ∈ cs, Effect.Sees (env.Exposes (env.chain.get s)) (env.upTo out j)
      (fun c => decide (c.reach env (env.chain.get s) ≤ j)) (ChainOp.run env originOf) c :=
    fun c _ => ChainOp.sees henv originOf (env.chain.get s) j c
  obtain ⟨t', hrun', hview, hout⟩ := hrun.alone hsees hs hs rfl
  exact ⟨t', hrun', (ChainEnv.upTo_eq_iff.1 hview).2, hout⟩

theorem ChainEnv.alone_detached [Inhabited C] (name : P → String)
    (currentObject : Option ScObject) :
    (ChainEnv.alone name currentObject : ChainEnv _ P C).Detached fun _ => () where
  report _ := Local.raise _
  call _ _ := Local.pure _
  read _ _ := Local.pure _
  apart _ _ := rfl

/-- Two presets at a private broker, one of an exposed name: the global broker is asked for its own. -/
theorem hidden_unseen_preset :
    let env : ChainEnv (BrokerChain String ℕ) String ℕ := .alone id none
    let exec := ChainOp.run env fun _ => .unknown
    let hidden : ChainOp String ℕ := ⟨1, .call (.setPresetCciValue "mid.q" 3 (.named "tool"))⟩
    let exposed : ChainOp String ℕ := ⟨1, .call (.setPresetCciValue "top.p" 7 (.named "tool"))⟩
    let ask : ChainOp String ℕ := ⟨0, .getUnconsumedPresetValues⟩
    ∃ t, Runs exec (exposing "top.p") [exposed, ask] t ∧
      states exec (exposing "top.p") [hidden, exposed, ask] 0 = t 0 := by
  intro env exec hidden exposed ask
  have hrun : Runs exec (exposing "top.p") [hidden, exposed, ask]
      (states exec (exposing "top.p") [hidden, exposed, ask]) :=
    .cons (by decide +kernel) (.cons (by decide +kernel) (.cons (by decide +kernel) (.nil _)))
  have hhidden : ¬hidden.reach env (exposing "top.p") ≤ 0 := by decide +kernel
  have hexposed : exposed.reach env (exposing "top.p") ≤ 0 := by decide +kernel
  have hask : ask.reach env (exposing "top.p") ≤ 0 := by decide +kernel
  obtain ⟨-, t, ht, hview, -⟩ :=
    hidden_unseen env (ChainEnv.alone_detached id none) (fun _ => .unknown) hrun 0
  have hfilter : [hidden, exposed, ask].filter (fun c => c.reach env (exposing "top.p") ≤ 0) =
      [exposed, ask] := by
    rw [List.filter_cons_of_neg (by simpa using hhidden),
      List.filter_cons_of_pos (by simpa using hexposed),
      List.filter_cons_of_pos (by simpa using hask), List.filter_nil]
  exact ⟨t, hfilter ▸ ht, hview 0 le_rfl⟩

end Cci
