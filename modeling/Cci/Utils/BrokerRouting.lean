import Cci.Utils.Broker
import Cci.Utils.PresetStore

/-!
# Which broker of a chain answers

A name that is exposed at a broker is answered by its parent, and so on up to the first broker that
does not expose it.

* `BrokerChain.resp` — that broker; `forward_eq`: every overridden operation is its plain one;
* `ChainCmd`, `directed` — runs on a chain, and the part of a run that reached one broker;
* `ChainCmd.states_simulate` — every broker of a chain is the consuming broker of its part of the run;
* `chain_queries_agree` — when the queries at a broker answer as the responding one does.
-/

namespace Cci

open Effect

variable {σ P C : Type}

namespace BrokerChain

variable {ch : BrokerChain P C}

/-- The broker that answers for a name asked at broker `i`. -/
def resp (ch : BrokerChain P C) (parname : String) (i : ℕ) : ℕ := ch.forward parname (fun j => j) i

theorem forward_eq {α : Type} (n : String) (op : ℕ → α) (i : ℕ) :
    ch.forward n op i = op (ch.resp n i) := by
  induction i with
  | zero => rfl
  | succ i ih =>
    unfold resp forward
    split
    · exact ih
    · rfl

theorem sendToParent_zero (n : String) : ch.sendToParent 0 n = false := by
  rw [sendToParent, isGlobalBroker]
  simp

/-- The answering broker does not pass the name on. -/
theorem sendToParent_resp (n : String) (i : ℕ) : ch.sendToParent (ch.resp n i) n = false := by
  induction i with
  | zero => exact sendToParent_zero n
  | succ i ih =>
    unfold resp forward
    cases hs : ch.sendToParent (i + 1) n with
    | true => exact ih
    | false => exact hs

theorem resp_of_sent {n : String} {i : ℕ} (h : ch.sendToParent (i + 1) n = true) :
    ch.resp n (i + 1) = ch.resp n i := by
  show (if ch.sendToParent (i + 1) n then ch.resp n i else _) = _
  rw [if_pos h]

theorem resp_of_not_sent {n : String} {i : ℕ} (h : ch.sendToParent i n = false) :
    ch.resp n i = i := by
  cases i with
  | zero => rfl
  | succ i =>
    unfold resp forward
    rw [h]
    rfl

/-- Which broker answers depends on the expose sets alone. -/
theorem resp_congr {ch' : BrokerChain P C} (h : ∀ j, (ch' j).expose = (ch j).expose) (n : String)
    (i : ℕ) : ch'.resp n i = ch.resp n i := by
  induction i with
  | zero => rfl
  | succ i ih =>
    have hsend : ch'.sendToParent (i + 1) n = ch.sendToParent (i + 1) n := by
      rw [sendToParent, sendToParent, h]
    unfold resp forward
    rw [hsend]
    split
    · exact ih
    · rfl

end BrokerChain

/-! ### Runs on a chain -/

/-- The name a call is about. -/
def BrokerCmd.parname (name : P → String) : BrokerCmd P C → String
  | .setPresetCciValue n _ _ | .lockPresetValue n => n
  | .addParam par | .removeParam par => name par

/-- A call issued at one of the brokers of a chain. -/
structure ChainCmd (P C : Type) where
  broker : ℕ
  cmd : BrokerCmd P C

namespace ChainCmd

def run (env : ChainEnv σ P C) (c : ChainCmd P C) : Eff Report σ Unit :=
  match c.cmd with
  | .setPresetCciValue n v o => env.setPresetCciValue c.broker n v o
  | .lockPresetValue n => env.lockPresetValue c.broker n
  | .addParam par => env.addParam c.broker par
  | .removeParam par => env.removeParam c.broker par

/-- The broker a call reaches. -/
def target (env : ChainEnv σ P C) (ch : BrokerChain P C) (c : ChainCmd P C) : ℕ :=
  ch.resp (c.cmd.parname env.name) c.broker

/-- A call is the plain one at the broker it reaches. -/
theorem run_eq (env : ChainEnv σ P C) (c : ChainCmd P C) (s : σ) :
    c.run env s = c.cmd.run (env.node (c.target env (env.chain.get s))) s := by
  obtain ⟨i, c⟩ := c
  cases c <;> exact congrFun (BrokerChain.forward_eq _ _ i) s

end ChainCmd

/-- The part of a run that reached broker `r`. -/
def directed (env : ChainEnv σ P C) (ch : BrokerChain P C) (r : ℕ) (cs : List (ChainCmd P C)) :
    List (BrokerCmd P C) :=
  (cs.filter fun c => c.target env ch = r).map ChainCmd.cmd

/-- Callbacks and reports do not call back into the chain. -/
structure ChainEnv.Outside (env : ChainEnv σ P C) : Prop where
  report : ∀ r, env.chain.Fixed (env.report r)
  call : ∀ held par, env.chain.Fixed (env.call held par)

theorem ChainEnv.Outside.node {env : ChainEnv σ P C} (h : env.Outside) (i : ℕ) :
    (env.node i).Outside where
  report r s := congrArg (fun ch => (ch i).toConsumingBroker) (h.report r s)
  call held par s := congrArg (fun ch => (ch i).toConsumingBroker) (h.call held par s)

/-- What a broker's operations leave alone, if its callbacks and reports do. -/
theorem BrokerCmd.run_frame {env : BrokerEnv σ P C} {J : σ → Prop}
    (hset : ∀ b s, J s → J (env.broker.set b s)) (hreport : ∀ r, Keeps J (env.report r))
    (hcall : ∀ held par, Keeps J (env.call held par)) (c : BrokerCmd P C) : Keeps J (c.run env) := by
  have hmod : ∀ f, Keeps J (env.broker.modify f : Eff Report σ Unit) := fun f s hs => hset _ s hs
  have hloop : ∀ par (elem : σ → ℕ → Option BrokerCallbackObj),
      Keeps J (Eff.forEach elem (env.invoke par) env.fuel 0 ()) :=
    fun par => BrokerEnv.keeps_callbacks fun held => hcall held par
  cases c with
  | setPresetCciValue n v o =>
    refine Keeps.bind Keeps.get fun s => ?_
    cases (env.broker.get s).setPresetCciValue n v o with
    | error r => exact hreport r
    | ok b => exact fun t ht => hset b t ht
  | lockPresetValue n => exact hmod _
  | addParam par =>
    exact Keeps.bind Keeps.get fun s => Keeps.ite Keeps.abort
      (Keeps.bind (hmod _) fun _ => Keeps.bind (hmod _) fun _ => hloop par _)
  | removeParam par =>
    exact Keeps.bind (hmod _) fun _ => Keeps.bind (hloop par _) fun _ => hmod _

namespace ChainCmd

variable {env : ChainEnv σ P C} (henv : env.Outside)

include henv

/-- A call leaves the expose sets alone. -/
theorem run_expose (c : ChainCmd P C) (s : σ) (i : ℕ) :
    (env.chain.get (c.run env s).2 i).expose = (env.chain.get s i).expose := by
  rw [run_eq]
  refine BrokerCmd.run_frame (J := fun t => (env.chain.get t i).expose = (env.chain.get s i).expose)
    (fun b t ht => ?_) (fun r t ht => ?_) (fun held par t ht => ?_) c.cmd s rfl
  · refine Eq.trans ?_ ht
    show (env.chain.get (env.chain.set _ t) i).expose = _
    rw [env.chain.get_set]
    by_cases hi : i = c.target env (env.chain.get s)
    · rw [← hi, Function.update_self]
    · rw [Function.update_of_ne hi]
  · exact (congrArg (fun ch => (ch i).expose) (henv.report r t)).trans ht
  · exact (congrArg (fun ch => (ch i).expose) (henv.call held par t)).trans ht

/-- A call changes only the broker it reaches. -/
theorem run_other (c : ChainCmd P C) (s : σ) {i : ℕ} (hi : i ≠ c.target env (env.chain.get s)) :
    (env.chain.get (c.run env s).2 i).toConsumingBroker = (env.chain.get s i).toConsumingBroker := by
  rw [run_eq]
  refine BrokerCmd.run_frame (J := fun t => (env.chain.get t i).toConsumingBroker =
    (env.chain.get s i).toConsumingBroker)
    (fun b t ht => ?_) (fun r t ht => ?_) (fun held par t ht => ?_) c.cmd s rfl
  · refine Eq.trans ?_ ht
    show (env.chain.get (env.chain.set _ t) i).toConsumingBroker = _
    rw [env.chain.get_set, Function.update_of_ne hi]
  · exact (congrArg (fun ch => (ch i).toConsumingBroker) (henv.report r t)).trans ht
  · exact (congrArg (fun ch => (ch i).toConsumingBroker) (henv.call held par t)).trans ht

theorem states_expose (s : σ) (cs : List (ChainCmd P C)) (i : ℕ) :
    (env.chain.get (states (run env) s cs) i).expose = (env.chain.get s i).expose := by
  induction cs using List.reverseRecOn with
  | nil => rfl
  | append_singleton cs c ih =>
    rw [states_snoc, run_expose henv]
    exact ih

/-- Every broker of a chain has the presets and locks of its part of the run. -/
theorem states_simulate {s : σ} (hs : ∀ i, (env.chain.get s i).NoPresets)
    (cs : List (ChainCmd P C)) (r : ℕ) :
    (env.chain.get (states (run env) s cs) r).Simulates
      ((directed env (env.chain.get s) r cs).filterMap BrokerCmd.op) := by
  induction cs using List.reverseRecOn with
  | nil => exact (hs r).simulates
  | append_singleton cs c ih =>
    have htarget : c.target env (env.chain.get (states (run env) s cs)) =
        c.target env (env.chain.get s) := BrokerChain.resp_congr (states_expose henv s cs) _ _
    rw [states_snoc]
    by_cases hr : c.target env (env.chain.get s) = r
    · have hdir : directed env (env.chain.get s) r (cs ++ [c]) =
          directed env (env.chain.get s) r cs ++ [c.cmd] := by
        simp [directed, hr]
      rw [hdir, List.filterMap_append, run_eq, htarget, hr]
      have hop : [c.cmd].filterMap BrokerCmd.op = c.cmd.op.toList := by
        cases h : c.cmd.op <;> simp [h]
      rw [hop]
      exact BrokerCmd.run_simulates (henv.node r) c.cmd ih
    · have hdir : directed env (env.chain.get s) r (cs ++ [c]) =
          directed env (env.chain.get s) r cs := by
        simp [directed, hr]
      rw [hdir, run_other henv c _ (by rw [htarget]; exact Ne.symm hr)]
      exact ih

end ChainCmd

/-! ### The four queries -/

/-- The queries about `n` at broker `i` answer what the plain operations of the responding broker
answer. -/
structure Agrees [Inhabited C] (originOf : P → CciOriginator) (ch : BrokerChain P C) (i : ℕ)
    (n : String) : Prop where
  hasPresetValue : ch.hasPresetValue i n = (ch (ch.resp n i)).hasPresetValue n
  getPresetCciValue : ch.getPresetCciValue i n = (ch (ch.resp n i)).getPresetCciValue n
  getPresetValueOrigin : ch.getPresetValueOrigin i n = (ch (ch.resp n i)).getPresetValueOrigin n
  getValueOrigin : ch.getValueOrigin originOf i n = (ch (ch.resp n i)).getValueOrigin originOf n

/-- The overridden queries always agree. -/
theorem agrees_iff [Inhabited C] {originOf : P → CciOriginator} {ch : BrokerChain P C} {i : ℕ}
    {n : String} : Agrees originOf ch i n ↔
      ch.getPresetValueOrigin i n = (ch (ch.resp n i)).getPresetValueOrigin n :=
  ⟨Agrees.getPresetValueOrigin, fun h => ⟨BrokerChain.forward_eq _ _ _, BrokerChain.forward_eq _ _ _,
    h, BrokerChain.forward_eq _ _ _⟩⟩

/-- Only presets of `n` give `n` a preset. -/
theorem lastPreset_eq_none {n : String} {name : P → String} {cs : List (BrokerCmd P C)}
    (h : ∀ c ∈ cs, c.parname name ≠ n) : lastPreset n cs = none := by
  rw [lastPreset, LockedMap.lastBeforeLock, List.filterMap_eq_nil_iff.2, List.getLast?_nil]
  intro op hop
  obtain ⟨c, hc, hcop⟩ := List.mem_filterMap.1 (List.takeWhile_subset _ hop)
  cases c with
  | setPresetCciValue m v o =>
    cases hcop
    exact if_neg (h _ hc)
  | lockPresetValue m =>
    cases hcop
    rfl
  | addParam par => cases hcop
  | removeParam par => cases hcop

theorem ConsumingBroker.Simulates.origin_eq {b : ConsumingBroker P C} {cs : List (BrokerCmd P C)}
    (h : b.Simulates (cs.filterMap BrokerCmd.op)) (n : String) :
    b.getPresetValueOrigin n = ((lastPreset n cs).map Prod.snd).getD .unknown := by
  rw [ConsumingBroker.getPresetValueOrigin_eq h.1, h.preset_eq]

section

variable {env : ChainEnv σ P C} (henv : env.Outside) {s : σ}
variable (hs : ∀ i, (env.chain.get s i).NoPresets)

include henv hs

/-- A broker that passes a name on has no preset of it. -/
theorem getPresetValueOrigin_of_sent (cs : List (ChainCmd P C)) {i : ℕ} {n : String}
    (hsent : (env.chain.get s).sendToParent i n = true) :
    (env.chain.get (states (ChainCmd.run env) s cs)).getPresetValueOrigin i n = .unknown := by
  rw [BrokerChain.getPresetValueOrigin, (ChainCmd.states_simulate henv hs cs i).origin_eq]
  suffices hnone : ∀ c ∈ directed env (env.chain.get s) i cs, c.parname env.name ≠ n by
    rw [lastPreset_eq_none hnone]
    rfl
  intro c hc hn
  obtain ⟨d, hd, rfl⟩ := List.mem_map.1 hc
  have htarget : d.target env (env.chain.get s) = i := by simpa using (List.mem_filter.1 hd).2
  have hkept : (env.chain.get s).sendToParent
      ((env.chain.get s).resp (d.cmd.parname env.name) d.broker) (d.cmd.parname env.name) = false :=
    BrokerChain.sendToParent_resp _ _
  rw [show (env.chain.get s).resp (d.cmd.parname env.name) d.broker = i from htarget, hn] at hkept
  rw [hkept] at hsent
  cases hsent

omit hs henv in
/-- An accepted preset at a broker that answers for itself is recorded there. -/
theorem getPresetValueOrigin_setPreset {t : σ} {i : ℕ} {n : String} (v : C) (o : CciOriginator)
    (hkept : (env.chain.get t).sendToParent i n = false)
    (hlock : n ∉ (env.chain.get t i).locked) :
    (env.chain.get (env.setPresetCciValue i n v o t).2).getPresetValueOrigin i n = o := by
  have hrun : env.setPresetCciValue i n v o t = (env.node i).setPresetCciValue n v o t := by
    have hfw : (env.chain.get t).forward n (fun j => (env.node j).setPresetCciValue n v o) i t =
        (env.node ((env.chain.get t).resp n i)).setPresetCciValue n v o t :=
      congrFun (BrokerChain.forward_eq n _ i) t
    rw [BrokerChain.resp_of_not_sent hkept] at hfw
    exact hfw
  rw [hrun, BrokerEnv.setPresetCciValue, Eff.get_bind_run]
  cases hr : ((env.node i).broker.get t).setPresetCciValue n v o with
  | error r =>
    exact absurd ((ConsumingBroker.setPresetCciValue_error_iff _ n v o).1 ⟨r, hr⟩) hlock
  | ok b =>
    have hnode : (env.chain.get ((env.node i).broker.set b t) i).toConsumingBroker = b :=
      (env.node i).broker.get_set b t
    show (env.chain.get ((env.node i).broker.set b t) i).getPresetValueOrigin n = o
    rw [hnode, ConsumingBroker.getPresetValueOrigin,
      (ConsumingBroker.setPresetCciValue_eq_ok hr).2.2.1, Std.ExtTreeMap.getElem?_insert_self]

end

/-- **All operations on an exposed name go to the same broker, but for one.**  In every run on a
chain of brokers that started without presets, the queries about `n` at broker `i` answer what the
responding broker does exactly when broker `i` does not pass `n` on, or the responding broker has no
preset of `n` with a known originator; and the originator of an accepted preset is told back at the
broker it was given to exactly when that broker does not pass the name on, or the originator is
unknown.  (`broker` does not override `get_preset_value_origin`.) -/
theorem chain_queries_agree [Inhabited C] (env : ChainEnv σ P C) (henv : env.Outside)
    (originOf : P → CciOriginator) {s : σ} (hs : ∀ i, (env.chain.get s i).NoPresets)
    (cs : List (ChainCmd P C)) {t : σ} (ht : t = states (ChainCmd.run env) s cs) (i : ℕ)
    (n : String) :
    (Agrees originOf (env.chain.get t) i n ↔ (env.chain.get s).sendToParent i n = false ∨
      ∀ v o, lastPreset n (directed env (env.chain.get s) ((env.chain.get s).resp n i) cs) =
        some (v, o) → o = .unknown) ∧
    ∀ v o, n ∉ (env.chain.get t ((env.chain.get t).resp n i)).locked →
      ((env.chain.get (env.setPresetCciValue i n v o t).2).getPresetValueOrigin i n = o ↔
        (env.chain.get s).sendToParent i n = false ∨ o = .unknown) := by
  have hresp : (env.chain.get t).resp n i = (env.chain.get s).resp n i := by
    rw [ht]
    exact BrokerChain.resp_congr (ChainCmd.states_expose henv s cs) n i
  have hsend : (env.chain.get t).sendToParent i n = (env.chain.get s).sendToParent i n := by
    rw [BrokerChain.sendToParent, BrokerChain.sendToParent, ht, ChainCmd.states_expose henv s cs i]
  cases hsent : (env.chain.get s).sendToParent i n with
  | false =>
    have hself : (env.chain.get t).resp n i = i := by
      rw [BrokerChain.resp_of_not_sent (hsend.trans hsent)]
    refine ⟨⟨fun _ => .inl rfl, fun _ => agrees_iff.2 (by rw [hself]; rfl)⟩,
      fun v o hlock => ⟨fun _ => .inl rfl, fun _ => ?_⟩⟩
    rw [hself] at hlock
    exact getPresetValueOrigin_setPreset v o (hsend.trans hsent) hlock
  | true =>
    have hnone : (env.chain.get t).getPresetValueOrigin i n = .unknown := by
      rw [ht]
      exact getPresetValueOrigin_of_sent henv hs cs hsent
    have hthere : (env.chain.get t ((env.chain.get t).resp n i)).getPresetValueOrigin n =
        ((lastPreset n (directed env (env.chain.get s) ((env.chain.get s).resp n i) cs)).map
          Prod.snd).getD .unknown := by
      rw [hresp, ht]
      exact (ChainCmd.states_simulate henv hs cs _).origin_eq n
    constructor
    · rw [agrees_iff, hnone, hthere]
      cases lastPreset n (directed env (env.chain.get s) ((env.chain.get s).resp n i) cs) with
      | none => simp
      | some x =>
        obtain ⟨v, o⟩ := x
        simp [eq_comm]
    · intro v o _
      have hset : (env.chain.get (env.setPresetCciValue i n v o t).2).getPresetValueOrigin i n =
          .unknown := by
        have hsnoc := getPresetValueOrigin_of_sent henv hs
          (cs ++ [⟨i, .setPresetCciValue n v o⟩]) hsent
        rw [states_snoc, ← ht] at hsnoc
        exact hsnoc
      rw [hset]
      simp [eq_comm]

/-- A chain on its own: its reports are thrown, its callbacks do nothing. -/
def ChainEnv.alone [Inhabited C] (name : P → String) (currentObject : Option ScObject) :
    ChainEnv (BrokerChain P C) P C where
  chain := Lens.self _
  name := name
  report := Eff.raise
  read := fun _ _ => pure default
  call := fun _ _ => pure ()
  fuel := 0
  currentObject := currentObject

theorem ChainEnv.alone_outside [Inhabited C] (name : P → String) (currentObject : Option ScObject) :
    (ChainEnv.alone name currentObject : ChainEnv _ P C).Outside :=
  ⟨fun _ _ => rfl, fun _ _ _ => rfl⟩

/-- A private broker that exposes one name. -/
def exposing (n : String) : BrokerChain P C := fun i =>
  { expose := if i = 1 then (∅ : Std.ExtTreeSet String).insert n else ∅ }

/-- The preset of an exposed name, asked back at the broker it was given to. -/
theorem chain_queries_disagree :
    let env : ChainEnv (BrokerChain String ℕ) String ℕ := .alone id none
    let ch := states (ChainCmd.run env) (exposing "top.p")
      [⟨1, .setPresetCciValue "top.p" 7 (.named "tool")⟩]
    ¬Agrees (fun _ => .unknown) ch 1 "top.p" ∧ ch.resp "top.p" 1 = 0 ∧
      (ch 0).getPresetValueOrigin "top.p" = .named "tool" ∧
      ch.getPresetValueOrigin 1 "top.p" = .unknown := by
  intro env ch
  have hresp : ch.resp "top.p" 1 = 0 := by decide +kernel
  have hthere : (ch 0).getPresetValueOrigin "top.p" = .named "tool" := by decide +kernel
  have hhere : ch.getPresetValueOrigin 1 "top.p" = .unknown := by decide +kernel
  refine ⟨fun h => ?_, hresp, hthere, hhere⟩
  have hagree := h.getPresetValueOrigin
  rw [hresp, hthere, hhere] at hagree
  cases hagree

/-- The same run through the theorem. -/
theorem chain_queries_agree_exposed :
    let env : ChainEnv (BrokerChain String ℕ) String ℕ := .alone id none
    let s : BrokerChain String ℕ := exposing "top.p"
    let cs : List (ChainCmd String ℕ) := [⟨1, .setPresetCciValue "top.p" 7 (.named "tool")⟩]
    let t := states (ChainCmd.run env) s cs
    (Agrees (fun _ => .unknown) t 1 "top.p" ↔ s.sendToParent 1 "top.p" = false ∨
      ∀ v o, lastPreset "top.p" (directed env s (s.resp "top.p" 1) cs) = some (v, o) →
        o = .unknown) ∧
    ∀ v o, "top.p" ∉ (t (t.resp "top.p" 1)).locked →
      (BrokerChain.getPresetValueOrigin (env.setPresetCciValue 1 "top.p" v o t).2 1 "top.p" = o ↔
        s.sendToParent 1 "top.p" = false ∨ o = .unknown) := by
  intro env s cs t
  have hs : ∀ i, (env.chain.get s i).NoPresets := fun i => ⟨rfl, rfl, rfl, rfl⟩
  have ht : t = states (ChainCmd.run env) s cs := rfl
  exact chain_queries_agree env (ChainEnv.alone_outside id none) (fun _ => .unknown) hs cs ht 1 "top.p"

end Cci
