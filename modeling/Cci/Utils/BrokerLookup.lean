import Cci.Utils.BrokerRouting

/-!
# Lookup and enumeration through private brokers

`get_param_handle` finds a parameter at the parent of an exposing broker, in the own registry, or at
the parent of a broker that does not know it; `get_param_handles` lists the own registry and then
what the parent lists.  They agree as long as live parameters have distinct names.

* `Live`, `DistinctNames` — the parameters of a chain, and the runs that keep their names apart;
* `RegisteredOnce` — after such a run a name is registered once, at a broker that answers for it;
* `getParamHandle_eq_some`, `mem_listing` — what lookup and enumeration find;
* `lookup_and_enumeration_agree`.
-/

namespace Cci

open Effect

variable {σ P C : Type}

/-! ### The registries over a run -/

namespace BrokerEnv

variable {env : BrokerEnv σ P C} (henv : env.Outside)

include henv

theorem registry_addParam {par : P} {s : σ}
    (hn : env.name par ∉ (env.broker.get s).mParamRegistry) :
    (env.broker.get (env.addParam par s).2).mParamRegistry =
      (env.broker.get s).mParamRegistry.insertIfNew (env.name par) par := by
  simp only [addParam, Eff.get_bind_run]
  rw [if_neg hn]
  refine Keeps.bind (I := fun t => (env.broker.get t).mParamRegistry =
    (env.broker.get s).mParamRegistry.insertIfNew (env.name par) par)
    (env.broker.keeps_modify (P := fun b => b.mParamRegistry = _) fun b hb => ?_)
    (fun _ => henv.keeps_dispatch (I := fun b => b.mParamRegistry = _) par _) _ ?_
  · rw [ConsumingBroker.registry_consume]
    exact hb
  · show (env.broker.get (env.broker.set _ s)).mParamRegistry = _
    rw [env.broker.get_set]
    rfl

theorem registry_removeParam (par : P) (s : σ) :
    (env.broker.get (env.removeParam par s).2).mParamRegistry =
      (env.broker.get s).mParamRegistry.erase (env.name par) := by
  refine Keeps.bind (I := fun t => (env.broker.get t).mParamRegistry =
    (env.broker.get s).mParamRegistry.erase (env.name par))
    (henv.keeps_dispatch (I := fun b => b.mParamRegistry = _) par _)
    (fun _ => env.broker.keeps_modify (P := fun b => b.mParamRegistry = _) fun b hb => ?_) _ ?_
  · rw [ConsumingBroker.registry_release]
    exact hb
  · show (env.broker.get (env.broker.set _ s)).mParamRegistry = _
    rw [env.broker.get_set]
    rfl

/-- Presets and locks leave the registry alone. -/
theorem registry_preset {c : BrokerCmd P C} (hadd : ∀ par, c ≠ .addParam par)
    (hremove : ∀ par, c ≠ .removeParam par) (s : σ) :
    (env.broker.get (c.run env s).2).mParamRegistry = (env.broker.get s).mParamRegistry := by
  cases c with
  | setPresetCciValue n v o =>
    refine henv.keeps_setPresetCciValue (I := fun b => b.mParamRegistry = _) n v o
      (fun b b' hr hb => ?_) s rfl
    rw [(ConsumingBroker.setPresetCciValue_rest hr).1]
    exact hb
  | lockPresetValue n =>
    exact env.broker.keeps_modify (f := ConsumingBroker.lockPresetValue n)
      (P := fun b => b.mParamRegistry = _) (fun b hb => hb) s rfl
  | addParam par => exact absurd rfl (hadd par)
  | removeParam par => exact absurd rfl (hremove par)

end BrokerEnv

/-- An operation leaves the parameters of every broker but its target. -/
theorem ChainCmd.run_registry_other {env : ChainEnv σ P C} (henv : env.Outside) (c : ChainCmd P C)
    (s : σ) {i : ℕ} (hi : i ≠ c.target env (env.chain.get s)) :
    (env.chain.get (c.run env s).2 i).mParamRegistry = (env.chain.get s i).mParamRegistry :=
  congrArg ConsumingBroker.mParamRegistry (ChainCmd.run_other henv c s hi)

namespace ChainEnv

variable {env : ChainEnv σ P C} (henv : env.Outside)

include henv

omit henv in
/-- `add_param` comes back only where the name is not registered. -/
theorem free_of_addParam {i : ℕ} {par : P} {s : σ} (ho : (env.addParam i par s).1.returned = true) :
    env.name par ∉
      (env.chain.get s ((env.chain.get s).resp (env.name par) i)).mParamRegistry := by
  intro hmem
  have habort : env.addParam i par s = (.abort, s) := by
    rw [show env.addParam i par s = ChainCmd.run env ⟨i, .addParam par⟩ s from rfl, ChainCmd.run_eq]
    exact BrokerEnv.addParam_of_registered hmem
  rw [habort] at ho
  cases ho

/-- `add_param` enters the parameter at the broker that answers for its name, and nothing else. -/
theorem registry_addParam {i : ℕ} {par : P} {s : σ}
    (hn : env.name par ∉
      (env.chain.get s ((env.chain.get s).resp (env.name par) i)).mParamRegistry)
    (j : ℕ) (n : String) (q : P) :
    (env.chain.get (env.addParam i par s).2 j).mParamRegistry[n]? = some q ↔
      (q = par ∧ j = (env.chain.get s).resp (env.name par) i ∧ n = env.name par) ∨
        (env.chain.get s j).mParamRegistry[n]? = some q := by
  let c : ChainCmd P C := ⟨i, .addParam par⟩
  show (env.chain.get (c.run env s).2 j).mParamRegistry[n]? = some q ↔ _
  have hrun : c.run env s = (env.node ((env.chain.get s).resp (env.name par) i)).addParam par s :=
    ChainCmd.run_eq env c s
  by_cases hj : j = (env.chain.get s).resp (env.name par) i
  · subst hj
    have hreg : (env.chain.get (c.run env s).2 ((env.chain.get s).resp (env.name par) i)).mParamRegistry
        = (env.chain.get s ((env.chain.get s).resp (env.name par) i)).mParamRegistry.insertIfNew
          (env.name par) par := by
      rw [hrun]
      exact BrokerEnv.registry_addParam (henv.node _) hn
    rw [hreg, ConsumingBroker.getElem?_insertIfNew]
    by_cases hname : env.name par = n
    · subst hname
      rw [if_pos rfl, Std.ExtTreeMap.getElem?_eq_none hn]
      simp [eq_comm]
    · rw [if_neg hname]
      simp [Ne.symm hname]
  · rw [ChainCmd.run_registry_other henv c s hj]
    simp [hj]

/-- `remove_param` takes the entry of that name off the broker that answers for it, whatever it is. -/
theorem registry_removeParam (i : ℕ) (par : P) (s : σ) (j : ℕ) (n : String) (q : P) :
    (env.chain.get (env.removeParam i par s).2 j).mParamRegistry[n]? = some q ↔
      ¬(j = (env.chain.get s).resp (env.name par) i ∧ n = env.name par) ∧
        (env.chain.get s j).mParamRegistry[n]? = some q := by
  let c : ChainCmd P C := ⟨i, .removeParam par⟩
  show (env.chain.get (c.run env s).2 j).mParamRegistry[n]? = some q ↔ _
  have hrun : c.run env s =
      (env.node ((env.chain.get s).resp (env.name par) i)).removeParam par s :=
    ChainCmd.run_eq env c s
  by_cases hj : j = (env.chain.get s).resp (env.name par) i
  · subst hj
    have hreg : (env.chain.get (c.run env s).2 ((env.chain.get s).resp (env.name par) i)).mParamRegistry
        = (env.chain.get s ((env.chain.get s).resp (env.name par) i)).mParamRegistry.erase
          (env.name par) := by
      rw [hrun]
      exact BrokerEnv.registry_removeParam (henv.node _) par s
    rw [hreg, Std.ExtTreeMap.getElem?_erase]
    by_cases hname : env.name par = n
    · subst hname
      simp
    · have hcmp : compare (env.name par) n ≠ .eq := fun h => hname (compare_eq_iff_eq.1 h)
      simp [hcmp, Ne.symm hname]
  · rw [ChainCmd.run_registry_other henv c s hj]
    simp [hj]

end ChainEnv

/-- The parameter is registered with a broker of the chain. -/
def Live (ch : BrokerChain P C) (p : P) : Prop :=
  ∃ (j : ℕ) (n : String), (ch j).mParamRegistry[n]? = some p

/-- The run `cs` from `s` adds a parameter only while no live parameter has its name. -/
def DistinctNames (env : ChainEnv σ P C) (s : σ) (cs : List (ChainCmd P C)) : Prop :=
  ∀ ds i p, ds ++ [⟨i, .addParam p⟩] <+: cs →
    ∀ q, Live (env.chain.get (states (ChainCmd.run env) s ds)) q → env.name q ≠ env.name p

/-- Each name is registered at one broker of the chain at most, which is one that answers for it; and
parameters are registered under their names. -/
structure RegisteredOnce (name : P → String) (ch : BrokerChain P C) : Prop where
  name_eq : ∀ {j : ℕ} {n : String} {p : P}, (ch j).mParamRegistry[n]? = some p → name p = n
  not_sent : ∀ {j : ℕ} {n : String} {p : P}, (ch j).mParamRegistry[n]? = some p →
    ch.sendToParent j n = false
  once : ∀ {j k : ℕ} {n : String} {p q : P}, (ch j).mParamRegistry[n]? = some p →
    (ch k).mParamRegistry[n]? = some q → j = k

namespace RegisteredOnce

variable {name : P → String} {ch ch' : BrokerChain P C}

theorem unique (h : RegisteredOnce name ch) {j k : ℕ} {n : String} {p q : P}
    (hp : (ch j).mParamRegistry[n]? = some p) (hq : (ch k).mParamRegistry[n]? = some q) :
    j = k ∧ p = q := by
  obtain rfl := h.once hp hq
  rw [hp] at hq
  exact ⟨rfl, Option.some.inj hq⟩

/-- Entries may go. -/
theorem erased (h : RegisteredOnce name ch)
    (hentry : ∀ (j : ℕ) (n : String) (p : P),
      (ch' j).mParamRegistry[n]? = some p → (ch j).mParamRegistry[n]? = some p)
    (hexpose : ∀ j, (ch' j).expose = (ch j).expose) : RegisteredOnce name ch' where
  name_eq hp := h.name_eq (hentry _ _ _ hp)
  not_sent {j n _} hp := by
    rw [BrokerChain.sendToParent, hexpose]
    exact h.not_sent (hentry _ _ _ hp)
  once hp hq := h.once (hentry _ _ _ hp) (hentry _ _ _ hq)

/-- An entry of a free name may come, where the name is answered for. -/
theorem added (h : RegisteredOnce name ch) {p : P} {i : ℕ}
    (hnew : ∀ q, Live ch q → name q ≠ name p)
    (hentry : ∀ (j : ℕ) (n : String) (q : P), (ch' j).mParamRegistry[n]? = some q ↔
      (q = p ∧ j = ch.resp (name p) i ∧ n = name p) ∨ (ch j).mParamRegistry[n]? = some q)
    (hexpose : ∀ j, (ch' j).expose = (ch j).expose) : RegisteredOnce name ch' := by
  have hfree : ∀ (j : ℕ) (q : P), (ch j).mParamRegistry[name p]? ≠ some q := fun j q hq =>
    hnew q ⟨j, name p, hq⟩ (h.name_eq hq)
  constructor
  · intro j n q hq
    rcases (hentry j n q).1 hq with ⟨rfl, -, rfl⟩ | hold
    · rfl
    · exact h.name_eq hold
  · intro j n q hq
    rw [BrokerChain.sendToParent, hexpose]
    rcases (hentry j n q).1 hq with ⟨-, rfl, rfl⟩ | hold
    · exact BrokerChain.sendToParent_resp (name p) i
    · exact h.not_sent hold
  · intro j k n q r hq hr
    rcases (hentry j n q).1 hq with ⟨-, rfl, rfl⟩ | hold
    · rcases (hentry k _ r).1 hr with ⟨-, rfl, -⟩ | hold
      · rfl
      · exact absurd hold (hfree k r)
    · rcases (hentry k n r).1 hr with ⟨-, -, rfl⟩ | hold'
      · exact absurd hold (hfree j q)
      · exact h.once hold hold'

end RegisteredOnce

/-- Presets and locks leave the registries of a chain alone. -/
theorem ChainCmd.run_registry {env : ChainEnv σ P C} (henv : env.Outside) {c : ChainCmd P C}
    (hadd : ∀ par, c.cmd ≠ .addParam par) (hremove : ∀ par, c.cmd ≠ .removeParam par) (s : σ)
    (j : ℕ) : (env.chain.get (c.run env s).2 j).mParamRegistry =
      (env.chain.get s j).mParamRegistry := by
  by_cases hj : j = c.target env (env.chain.get s)
  · rw [ChainCmd.run_eq, hj]
    exact BrokerEnv.registry_preset (henv.node _) hadd hremove s
  · exact ChainCmd.run_registry_other henv c s hj

theorem DistinctNames.nil (env : ChainEnv σ P C) (s : σ) : DistinctNames env s [] := by
  intro ds i p hds
  exact absurd (List.prefix_nil.1 hds) (List.append_ne_nil_of_right_ne_nil ds (List.cons_ne_nil _ _))

theorem DistinctNames.snoc {env : ChainEnv σ P C} {s : σ} {cs : List (ChainCmd P C)}
    (h : DistinctNames env s cs) (c : ChainCmd P C)
    (hnew : ∀ i p, c = ⟨i, .addParam p⟩ →
      ∀ q, Live (env.chain.get (states (ChainCmd.run env) s cs)) q → env.name q ≠ env.name p) :
    DistinctNames env s (cs ++ [c]) := by
  intro ds i p hds
  rcases List.prefix_concat_iff.1 hds with heq | hds
  · obtain ⟨rfl, hc⟩ := List.append_inj' heq rfl
    exact hnew i p (List.singleton_inj.1 hc).symm
  · exact h ds i p hds

/-- The step lemma. -/
theorem RegisteredOnce.run {env : ChainEnv σ P C} (henv : env.Outside) {s : σ}
    (h : RegisteredOnce env.name (env.chain.get s)) (c : ChainCmd P C)
    (hnew : ∀ i p, c = ⟨i, .addParam p⟩ → ∀ q, Live (env.chain.get s) q → env.name q ≠ env.name p) :
    RegisteredOnce env.name (env.chain.get (c.run env s).2) := by
  have hexpose := ChainCmd.run_expose henv c s
  obtain ⟨i, cmd⟩ := c
  cases cmd with
  | setPresetCciValue n v o =>
    refine h.erased (fun j m p hp => ?_) hexpose
    rwa [ChainCmd.run_registry henv (c := ⟨i, .setPresetCciValue n v o⟩) (fun _ h => by cases h)
      (fun _ h => by cases h)] at hp
  | lockPresetValue n =>
    refine h.erased (fun j m p hp => ?_) hexpose
    rwa [ChainCmd.run_registry henv (c := ⟨i, .lockPresetValue n⟩) (fun _ h => by cases h)
      (fun _ h => by cases h)] at hp
  | addParam p =>
    refine h.added (hnew i p rfl) (ChainEnv.registry_addParam henv fun hmem => ?_) hexpose
    obtain ⟨q, hq⟩ := Option.isSome_iff_exists.1 (Std.ExtTreeMap.mem_iff_isSome_getElem?.1 hmem)
    exact hnew i p rfl q ⟨_, _, hq⟩ (h.name_eq hq)
  | removeParam p =>
    exact h.erased (fun j n q hq => ((ChainEnv.registry_removeParam henv i p s j n q).1 hq).2) hexpose

/-- The run lemma. -/
theorem DistinctNames.registeredOnce {env : ChainEnv σ P C} (henv : env.Outside) {s : σ}
    (hs : ∀ i, (env.chain.get s i).mParamRegistry = ∅) {cs : List (ChainCmd P C)}
    (hrun : DistinctNames env s cs) :
    RegisteredOnce env.name (env.chain.get (states (ChainCmd.run env) s cs)) := by
  induction cs using List.reverseRecOn with
  | nil =>
    have hnone : ∀ (j : ℕ) (n : String) (p : P), (env.chain.get s j).mParamRegistry[n]? ≠ some p := by
      intro j n p hp
      rw [hs j] at hp
      simp at hp
    exact ⟨fun hp => absurd hp (hnone _ _ _), fun hp => absurd hp (hnone _ _ _),
      fun hp => absurd hp (hnone _ _ _)⟩
  | append_singleton cs c ih =>
    rw [states_snoc]
    refine (ih fun ds i p hds => hrun ds i p (hds.trans (List.prefix_append cs [c]))).run henv c ?_
    rintro i p rfl
    exact hrun cs i p List.prefix_rfl

/-! ### What lookup finds -/

/-- Lookup finds the parameter of the name that is registered at the broker or above it. -/
theorem getParamHandle_eq_some {name : P → String} {ch : BrokerChain P C}
    (h : RegisteredOnce name ch) (n : String) (o : CciOriginator) (i : ℕ) (p : P) :
    (ChainEnv.getParamHandle ch n o i).mParam = some p ↔
      ∃ j ≤ i, (ch j).mParamRegistry[n]? = some p := by
  induction i with
  | zero =>
    rw [ChainEnv.getParamHandle, ConsumingBroker.getOrigParam]
    cases hq : (ch 0).mParamRegistry[n]? with
    | none => simp [hq]
    | some q => simp [hq]
  | succ i ih =>
    unfold ChainEnv.getParamHandle
    have hup : (ch (i + 1)).mParamRegistry[n]? = none →
        ((∃ j ≤ i, (ch j).mParamRegistry[n]? = some p) ↔
          ∃ j ≤ i + 1, (ch j).mParamRegistry[n]? = some p) := by
      intro hnone
      constructor
      · rintro ⟨j, hj, hp⟩
        exact ⟨j, Nat.le_succ_of_le hj, hp⟩
      · rintro ⟨j, hj, hp⟩
        rcases Nat.le_succ_iff.1 hj with hj | rfl
        · exact ⟨j, hj, hp⟩
        · rw [hnone] at hp
          cases hp
    split
    · rename_i hsent
      refine ih.trans (hup ?_)
      cases hq : (ch (i + 1)).mParamRegistry[n]? with
      | none => rfl
      | some q =>
        rw [h.not_sent hq] at hsent
        cases hsent
    · rw [ConsumingBroker.getOrigParam]
      cases hq : (ch (i + 1)).mParamRegistry[n]? with
      | none => exact ih.trans (hup hq)
      | some q =>
        show some q = some p ↔ _
        constructor
        · rintro ⟨rfl⟩
          exact ⟨i + 1, le_rfl, hq⟩
        · rintro ⟨j, -, hp⟩
          rw [(h.unique hq hp).2]

/-! ### What enumeration lists -/

namespace ChainEnv

variable (env : ChainEnv σ P C)

/-- The default originator, if it can be had. -/
def fallbackOriginator : CciOriginator :=
  match env.currentObject with
  | some obj => .object obj
  | none => .unknown

/-- The handles of the brokers from `i` upwards. -/
def listing (ch : BrokerChain P C) : ℕ → CciOriginator → List (ParamHandle P)
  | 0, originator => env.ownParamHandles (ch 0) originator
  | i + 1, originator => env.ownParamHandles (ch (i + 1)) originator ++
      listing ch i env.fallbackOriginator

variable {env}

theorem defaultOriginator_ok (henv : env.Outside) {s t : σ} {o : CciOriginator}
    (h : env.defaultOriginator s = (.ok o, t)) :
    o = env.fallbackOriginator ∧ env.chain.get t = env.chain.get s := by
  unfold defaultOriginator at h
  unfold fallbackOriginator
  cases hobj : env.currentObject with
  | some obj =>
    rw [hobj] at h
    cases h
    exact ⟨rfl, rfl⟩
  | none =>
    rw [hobj] at h
    simp only [Eff.bind_run] at h
    have hfix := henv.report (cciReport "cci_originator/check_is_valid"
      ("It is forbidden to build an originator without information (no SystemC hierarchy or " ++
        "empty name)!")) s
    rcases hr : env.report (cciReport "cci_originator/check_is_valid"
      ("It is forbidden to build an originator without information (no SystemC hierarchy or " ++
        "empty name)!")) s with ⟨u | e | _ | _, t'⟩ <;> rw [hr] at h hfix
    · cases h
      exact ⟨rfl, hfix⟩
    · cases h
    · cases h
    · cases h

/-- A call of `get_param_handles` that comes back with a list. -/
theorem getParamHandles_ok (henv : env.Outside) {i : ℕ} {o : CciOriginator} {s t : σ}
    {hs : List (ParamHandle P)} (h : env.getParamHandles i o s = (.ok hs, t)) :
    hs = env.listing (env.chain.get s) i o ∧ env.chain.get t = env.chain.get s := by
  induction i generalizing o s hs t with
  | zero =>
    cases h
    exact ⟨rfl, rfl⟩
  | succ i ih =>
    rw [getParamHandles, Eff.bind_run] at h
    rcases hd : env.defaultOriginator s with ⟨od | e | _ | _, s₁⟩ <;> rw [hd] at h
    · obtain ⟨rfl, hs₁⟩ := defaultOriginator_ok henv hd
      simp only [Eff.bind_run] at h
      rcases hp : env.getParamHandles i env.fallbackOriginator s₁ with ⟨ps | e | _ | _, s₂⟩ <;>
        rw [hp] at h
      · obtain ⟨rfl, hs₂⟩ := ih hp
        cases h
        rw [listing, hs₂, hs₁]
        exact ⟨rfl, rfl⟩
      · cases h
      · cases h
      · cases h
    · cases h
    · cases h
    · cases h

theorem ownParamHandles_params (b : Broker P C) (o : CciOriginator) :
    (env.ownParamHandles b o).filterMap ParamHandle.mParam =
      b.mParamRegistry.toList.map fun x => x.2 := by
  rw [ownParamHandles, List.filterMap_map]
  exact congrFun (List.filterMap_eq_map (f := fun x : String × P => x.2)) _

theorem mem_own {b : Broker P C} {o : CciOriginator} {p : P} :
    p ∈ (env.ownParamHandles b o).filterMap ParamHandle.mParam ↔
      ∃ n : String, b.mParamRegistry[n]? = some p := by
  rw [ownParamHandles_params, List.mem_map]
  constructor
  · rintro ⟨⟨n, q⟩, hx, rfl⟩
    exact ⟨n, Std.ExtTreeMap.mem_toList_iff_getElem?_eq_some.1 hx⟩
  · rintro ⟨n, hn⟩
    exact ⟨(n, p), Std.ExtTreeMap.mem_toList_iff_getElem?_eq_some.2 hn, rfl⟩

/-- Enumeration lists valid handles only. -/
theorem listing_valid (ch : BrokerChain P C) (i : ℕ) (o : CciOriginator) :
    ∀ x ∈ env.listing ch i o, x.isValid = true := by
  have hown : ∀ (b : Broker P C) o, ∀ x ∈ env.ownParamHandles b o, x.isValid = true := by
    intro b o x hx
    obtain ⟨y, -, rfl⟩ := List.mem_map.1 hx
    rfl
  induction i generalizing o with
  | zero => exact hown _ o
  | succ i ih =>
    intro x hx
    rw [listing, List.mem_append] at hx
    exact hx.elim (hown _ o x) (ih _ x)

/-- The parameters listed are those registered at the broker or above it. -/
theorem mem_listing {ch : BrokerChain P C} {i : ℕ} {o : CciOriginator} {p : P} :
    p ∈ (env.listing ch i o).filterMap ParamHandle.mParam ↔
      ∃ j ≤ i, ∃ n : String, (ch j).mParamRegistry[n]? = some p := by
  induction i generalizing o with
  | zero =>
    rw [listing, mem_own]
    simp
  | succ i ih =>
    rw [listing, List.filterMap_append, List.mem_append, mem_own, ih]
    constructor
    · rintro (hn | ⟨j, hj, hn⟩)
      · exact ⟨i + 1, le_rfl, hn⟩
      · exact ⟨j, Nat.le_succ_of_le hj, hn⟩
    · rintro ⟨j, hj, hn⟩
      rcases Nat.le_succ_iff.1 hj with hj | rfl
      · exact .inr ⟨j, hj, hn⟩
      · exact .inl hn

/-- No parameter is listed twice. -/
theorem listing_nodup {name : P → String} {ch : BrokerChain P C}
    (h : RegisteredOnce name ch) (i : ℕ) (o : CciOriginator) :
    ((env.listing ch i o).filterMap ParamHandle.mParam).Nodup := by
  have hown : ∀ j o, ((env.ownParamHandles (ch j) o).filterMap ParamHandle.mParam).Nodup := by
    intro j o
    rw [ownParamHandles_params]
    refine List.pairwise_map.2 (List.Pairwise.imp_of_mem (fun {x y} hx hy hxy heq => hxy ?_)
      (Std.ExtTreeMap.distinct_keys_toList (t := (ch j).mParamRegistry)))
    have hx' := h.name_eq (Std.ExtTreeMap.mem_toList_iff_getElem?_eq_some.1 hx)
    have hy' := h.name_eq (Std.ExtTreeMap.mem_toList_iff_getElem?_eq_some.1 hy)
    rw [← hx', ← hy', heq]
    exact Std.ReflCmp.compare_self
  induction i generalizing o with
  | zero => exact hown 0 o
  | succ i ih =>
    rw [listing, List.filterMap_append, List.nodup_append]
    refine ⟨hown _ _, ih _, fun p hp q hq hpq => ?_⟩
    subst hpq
    obtain ⟨n, hn⟩ := mem_own.1 hp
    obtain ⟨j, hj, m, hm⟩ := mem_listing.1 hq
    have hnm : n = m := (h.name_eq hn).symm.trans (h.name_eq hm)
    subst hnm
    have := (h.unique hn hm).1
    omega

/-- Inside the hierarchy, or if error reports come back, and at the global broker in any case,
`get_param_handles` returns a list. -/
theorem getParamHandles_returns (i : ℕ) (o : CciOriginator) (s : σ)
    (h : i = 0 ∨ env.currentObject.isSome = true ∨
      ∀ r s, ∃ t, env.report r s = (.ok (), t)) :
    ∃ hs t, env.getParamHandles i o s = (.ok hs, t) := by
  induction i generalizing o s with
  | zero => exact ⟨_, _, rfl⟩
  | succ i ih =>
    have h' : env.currentObject.isSome = true ∨ ∀ r s, ∃ t, env.report r s = (.ok (), t) :=
      h.resolve_left (Nat.succ_ne_zero i)
    have hdef : ∃ od t, env.defaultOriginator s = (.ok od, t) := by
      unfold defaultOriginator
      cases hobj : env.currentObject with
      | some obj => exact ⟨_, _, rfl⟩
      | none =>
        rw [hobj] at h'
        obtain ⟨t, ht⟩ := h'.resolve_left (by simp) (cciReport "cci_originator/check_is_valid"
          ("It is forbidden to build an originator without information (no SystemC hierarchy or " ++
            "empty name)!")) s
        exact ⟨.unknown, t, Eff.bind_run_ok ht _⟩
    obtain ⟨od, t, ht⟩ := hdef
    obtain ⟨ps, u, hu⟩ := ih od t (.inr h')
    refine ⟨env.ownParamHandles (env.chain.get u (i + 1)) o ++ ps, u, ?_⟩
    rw [getParamHandles, Eff.bind_run_ok ht, Eff.bind_run_ok hu]
    rfl

end ChainEnv

/-- **Lookup and enumeration agree.**  In every run on a chain whose live parameters have distinct
names, with parameters removed at any broker, and for every list that `get_param_handles` returns at
a broker: lookup of a name is valid exactly when a handle of that name is listed, and both refer to
the same parameter; no parameter is listed twice; and the predicate form iterates the accepted handles
of that list in its order.  The calls do return, unless the default argument `cci_originator()`
raises, as it does outside the hierarchy. -/
theorem lookup_and_enumeration_agree (env : ChainEnv σ P C) (henv : env.Outside)
    {s : σ} (hs : ∀ i, (env.chain.get s i).mParamRegistry = ∅) {cs : List (ChainCmd P C)}
    (hrun : DistinctNames env s cs) {t : σ} (ht : t = states (ChainCmd.run env) s cs) (i : ℕ)
    (o : CciOriginator) :
    (∀ hs u, env.getParamHandles i o t = (.ok hs, u) →
      (∀ n o', ((ChainEnv.getParamHandle (env.chain.get t) n o' i).isValid = true ↔
          ∃ x ∈ hs, ∃ p, x.mParam = some p ∧ env.name p = n) ∧
        ∀ x ∈ hs, ∀ p, x.mParam = some p → env.name p = n →
          (ChainEnv.getParamHandle (env.chain.get t) n o' i).mParam = some p) ∧
      (∀ x ∈ hs, x.isValid = true) ∧ (hs.filterMap ParamHandle.mParam).Nodup ∧
      ∀ pred, ∃ r, env.getParamHandlesWith i pred o t = (.ok r, u) ∧ r.iterated = hs.filter pred) ∧
    (i = 0 ∨ env.currentObject.isSome = true ∨ (∀ r s, ∃ t, env.report r s = (.ok (), t)) →
      ∃ hs u, env.getParamHandles i o t = (.ok hs, u)) := by
  have hreg : RegisteredOnce env.name (env.chain.get t) := by
    rw [ht]
    exact hrun.registeredOnce henv hs
  refine ⟨fun hs u hcall => ?_, ChainEnv.getParamHandles_returns i o t⟩
  obtain ⟨rfl, -⟩ := ChainEnv.getParamHandles_ok henv hcall
  have hlisted : ∀ x ∈ env.listing (env.chain.get t) i o, ∀ p, x.mParam = some p →
      ∃ j ≤ i, (env.chain.get t j).mParamRegistry[env.name p]? = some p := by
    intro x hx p hp
    obtain ⟨j, hj, n, hn⟩ := ChainEnv.mem_listing.1 (List.mem_filterMap.2 ⟨x, hx, hp⟩)
    rw [hreg.name_eq hn]
    exact ⟨j, hj, hn⟩
  refine ⟨fun n o' => ⟨?_, fun x hx p hp hn => ?_⟩, ?_, ChainEnv.listing_nodup hreg i o,
    fun pred => ⟨_, Eff.bind_run_ok hcall _, FilteredRange.iterated_eq_filter _⟩⟩
  · rw [ParamHandle.isValid, Option.isSome_iff_exists]
    constructor
    · rintro ⟨p, hp⟩
      obtain ⟨j, hj, hn⟩ := (getParamHandle_eq_some hreg n o' i p).1 hp
      obtain ⟨x, hx, hxp⟩ := List.mem_filterMap.1 ((ChainEnv.mem_listing (o := o)).2 ⟨j, hj, n, hn⟩)
      exact ⟨x, hx, p, hxp, hreg.name_eq hn⟩
    · rintro ⟨x, hx, p, hp, rfl⟩
      exact ⟨p, (getParamHandle_eq_some hreg _ o' i p).2 (hlisted x hx p hp)⟩
  · subst hn
    exact (getParamHandle_eq_some hreg _ o' i p).2 (hlisted x hx p hp)
  · exact ChainEnv.listing_valid _ i o

/-- Two parameters below each other, listed from the private broker; the removal of the lower one is
issued where it is not registered. -/
theorem lookup_and_enumeration_agree_private :
    let env : ChainEnv (BrokerChain String ℕ) String ℕ := .alone id (some ⟨1, "top"⟩)
    let cs : List (ChainCmd String ℕ) :=
      [] ++ [⟨0, .addParam "top.p"⟩] ++ [⟨1, .addParam "top.q"⟩] ++ [⟨0, .removeParam "top.q"⟩]
    let t := states (ChainCmd.run env) (exposing "top.p") cs
    (∀ hs u, env.getParamHandles 1 .unknown t = (.ok hs, u) →
      (∀ n o', ((ChainEnv.getParamHandle t n o' 1).isValid = true ↔
          ∃ x ∈ hs, ∃ p, x.mParam = some p ∧ p = n) ∧
        ∀ x ∈ hs, ∀ p, x.mParam = some p → p = n →
          (ChainEnv.getParamHandle t n o' 1).mParam = some p) ∧
      (∀ x ∈ hs, x.isValid = true) ∧ (hs.filterMap ParamHandle.mParam).Nodup ∧
      ∀ pred, ∃ r, env.getParamHandlesWith 1 pred .unknown t = (.ok r, u) ∧
        r.iterated = hs.filter pred) ∧
    (1 = 0 ∨ env.currentObject.isSome = true ∨ (∀ r s, ∃ t, env.report r s = (.ok (), t)) →
      ∃ hs u, env.getParamHandles 1 .unknown t = (.ok hs, u)) := by
  intro env cs t
  have hout : env.Outside := ChainEnv.alone_outside id _
  have hnone : ∀ q, ¬Live (exposing "top.p" : BrokerChain String ℕ) q := by
    rintro q ⟨j, n, hq⟩
    cases (Std.ExtTreeMap.getElem?_empty (α := String)).symm.trans hq
  have hfirst : DistinctNames env (exposing "top.p") ([] ++ [⟨0, .addParam "top.p"⟩]) :=
    (DistinctNames.nil env _).snoc _ fun _ _ _ q hq => absurd hq (hnone q)
  have hrun : DistinctNames env (exposing "top.p") cs := by
    refine (hfirst.snoc ⟨1, .addParam "top.q"⟩ ?_).snoc ⟨0, .removeParam "top.q"⟩
      fun _ _ h => by cases h
    rintro i p h q ⟨j, n, hq⟩
    cases h
    rcases (ChainEnv.registry_addParam hout (by exact Std.ExtTreeMap.not_mem_empty) j n q).1 hq with
      ⟨rfl, -⟩ | hold
    · exact show ¬("top.p" : String) = "top.q" by decide
    · exact absurd ⟨j, n, hold⟩ (hnone q)
  have ht : t = states (ChainCmd.run env) (exposing "top.p") cs := rfl
  exact lookup_and_enumeration_agree env hout (fun _ => rfl) hrun ht 1 .unknown

end Cci
