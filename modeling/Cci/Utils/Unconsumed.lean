import Cci.Core.FilteredRange
import Cci.Utils.PresetStore

/-!
# Unconsumed presets

`get_unconsumed_preset_values` reports what is in the unused registry.  That is every preset without
a parameter, except that a first preset for an existing parameter lands there too.

* `ReportCmd` — calls of a run, now with the ignore predicates;
* `ExactReport` — the report lists the presets without a parameter that no predicate accepts;
* `Tidy`, `Settled` — what the registries say of each other, and what makes the report exact;
* `Late` — a first preset that comes after its parameter;
* `unconsumed_report_exact` — a run reports exactly throughout if and only if it has no late preset.
-/

namespace Cci

open Effect

variable {σ P C : Type}

namespace ConsumingBroker

/-- `ignore_unconsumed_preset_values`. -/
def ignoreUnconsumedPresetValues (pred : String × C → Bool) (b : ConsumingBroker P C) :
    ConsumingBroker P C :=
  { b with mIgnoredUnconsumedPredicates := b.mIgnoredUnconsumedPredicates ++ [pred] }

/-- `get_unconsumed_preset_values(pred)`. -/
def getUnconsumedPresetValuesWith (pred : String × C → Bool) (b : ConsumingBroker P C) :
    FilteredRange (String × C) := ⟨pred, b.getUnconsumedPresetValues⟩

/-- Some registered ignore predicate accepts the pair. -/
def ignores (b : ConsumingBroker P C) (nv : String × C) : Bool :=
  b.mIgnoredUnconsumedPredicates.any fun pred => pred nv

/-- The report lists, in increasing order of the names, exactly the presets whose parameter does not
exist and that are not ignored; its predicate form iterates those the predicate accepts. -/
structure ExactReport [Inhabited C] (b : ConsumingBroker P C) : Prop where
  increasing : b.getUnconsumedPresetValues.Pairwise fun x y => x.1 < y.1
  exact : ∀ n v, (n, v) ∈ b.getUnconsumedPresetValues ↔
    (b.hasPresetValue n = true ∧ b.getPresetCciValue n = v) ∧ b.getOrigParam n = none ∧
      b.ignores (n, v) = false
  filtered : ∀ pred, (b.getUnconsumedPresetValuesWith pred).iterated =
    b.getUnconsumedPresetValues.filter pred

/-- The registries are consistent, and used presets have a parameter. -/
structure Tidy (b : ConsumingBroker P C) : Prop where
  consistent : b.Consistent
  registered : ∀ n : String, n ∈ b.mUsedValueRegistry → n ∈ b.mParamRegistry

/-- An unused preset of an existing parameter is at least ignored. -/
def Settled (b : ConsumingBroker P C) : Prop :=
  ∀ (n : String) (v : C), n ∈ b.mParamRegistry → b.mUnusedValueRegistry[n]? = some v →
    b.ignores (n, v) = true

theorem mem_getUnconsumedPresetValues (b : ConsumingBroker P C) (n : String) (v : C) :
    (n, v) ∈ b.getUnconsumedPresetValues ↔
      b.mUnusedValueRegistry[n]? = some v ∧ b.ignores (n, v) = false := by
  rw [getUnconsumedPresetValues, List.mem_filter, Std.ExtTreeMap.mem_toList_iff_getElem?_eq_some,
    ignores, Bool.not_eq_true']

/-- The report is exact if and only if the broker is settled. -/
theorem Tidy.exactReport_iff [Inhabited C] {b : ConsumingBroker P C} (hb : b.Tidy) :
    b.ExactReport ↔ b.Settled := by
  have hunused : ∀ (n : String) v, b.mUnusedValueRegistry[n]? = some v →
      b.hasPresetValue n = true ∧ b.getPresetCciValue n = v := by
    intro n v hv
    have hused : b.mUsedValueRegistry[n]? = none := by
      refine (hb.consistent.disjoint n).resolve_right fun hnone => ?_
      rw [hv] at hnone
      cases hnone
    constructor
    · rw [hasPresetValue]
      simp [Std.ExtTreeMap.mem_iff_isSome_getElem?, hused, hv]
    · simp only [getPresetCciValue, hused, hv]
  constructor
  · intro h n v hn hv
    by_contra hig
    obtain ⟨-, hnone, -⟩ := (h.exact n v).1
      ((b.mem_getUnconsumedPresetValues n v).2 ⟨hv, by simpa using hig⟩)
    rw [Std.ExtTreeMap.mem_iff_isSome_getElem?] at hn
    rw [getOrigParam] at hnone
    rw [hnone] at hn
    cases hn
  · intro h
    refine ⟨?_, fun n v => ?_, fun pred => FilteredRange.iterated_eq_filter _⟩
    · refine List.Pairwise.filter _ (List.Pairwise.imp (fun {x y} hxy => ?_)
        (Std.ExtTreeMap.ordered_keys_toList (t := b.mUnusedValueRegistry)))
      exact compare_lt_iff_lt.1 hxy
    · rw [mem_getUnconsumedPresetValues]
      constructor
      · rintro ⟨hv, hig⟩
        refine ⟨hunused n v hv, ?_, hig⟩
        rw [getOrigParam]
        refine Std.ExtTreeMap.getElem?_eq_none fun hn => ?_
        rw [h n v hn hv] at hig
        cases hig
      · rintro ⟨⟨hhas, hget⟩, hnone, hig⟩
        have hfree : n ∉ b.mParamRegistry := by
          rw [Std.ExtTreeMap.mem_iff_isSome_getElem?]
          rw [getOrigParam] at hnone
          rw [hnone]
          simp
        have hused : b.mUsedValueRegistry[n]? = none :=
          Std.ExtTreeMap.getElem?_eq_none fun hn => hfree (hb.registered n hn)
        rw [hasPresetValue] at hhas
        simp only [Std.ExtTreeMap.mem_iff_isSome_getElem?, hused, Option.isSome_none,
          Bool.false_eq_true, if_false] at hhas
        cases hv : b.mUnusedValueRegistry[n]? with
        | none => simp [hv] at hhas
        | some v' =>
          simp only [getPresetCciValue, hused, hv] at hget
          subst hget
          exact ⟨rfl, hig⟩

end ConsumingBroker

/-! ### Runs -/

/-- The calls of a run: those of `BrokerCmd`, and new ignore predicates. -/
inductive ReportCmd (P C : Type) where
  | call (c : BrokerCmd P C) : ReportCmd P C
  | ignore (pred : String × C → Bool) : ReportCmd P C

def ReportCmd.run (env : BrokerEnv σ P C) : ReportCmd P C → Eff Report σ Unit
  | .call c => c.run env
  | .ignore pred => env.broker.modify (ConsumingBroker.ignoreUnconsumedPresetValues pred)

/-- What a call that comes back does to the broker. -/
inductive ReportStep (name : P → String) :
    ConsumingBroker P C → ReportCmd P C → ConsumingBroker P C → Prop where
  | refused {b : ConsumingBroker P C} {n : String} (v : C) (o : CciOriginator) :
      n ∈ b.locked → ReportStep name b (.call (.setPresetCciValue n v o)) b
  | set {b b' : ConsumingBroker P C} {n : String} {v : C} {o : CciOriginator} :
      b.setPresetCciValue n v o = .ok b' →
        ReportStep name b (.call (.setPresetCciValue n v o)) b'
  | lock (b : ConsumingBroker P C) (n : String) :
      ReportStep name b (.call (.lockPresetValue n)) (b.lockPresetValue n)
  | add {b : ConsumingBroker P C} {par : P} : name par ∉ b.mParamRegistry →
      ReportStep name b (.call (.addParam par)) ((b.register (name par) par).consume (name par))
  | remove (b : ConsumingBroker P C) (par : P) :
      ReportStep name b (.call (.removeParam par)) ((b.deregister (name par)).release (name par))
  | ignore (b : ConsumingBroker P C) (pred : String × C → Bool) :
      ReportStep name b (.ignore pred) (b.ignoreUnconsumedPresetValues pred)

/-- A first preset, not ignored, for a parameter that exists already. -/
def Late (b : ConsumingBroker P C) : ReportCmd P C → Prop
  | .call (.setPresetCciValue n v _) => n ∉ b.locked ∧ n ∈ b.mParamRegistry ∧
      n ∉ b.mUsedValueRegistry ∧ b.ignores (n, v) = false
  | _ => False

section

variable {env : BrokerEnv σ P C} (henv : env.Outside)
variable (hcall : ∀ held par s e, (env.call held par s).1 ≠ .throw e)

include henv

theorem BrokerEnv.dispatch_fixed (par : P) (elem : σ → ℕ → Option BrokerCallbackObj) :
    env.broker.Fixed (Eff.forEach elem (env.invoke par) env.fuel 0 ()) := fun s =>
  henv.keeps_dispatch (I := fun b => b = env.broker.get s) par elem s rfl

include hcall

/-- A call that comes back does one of these steps. -/
theorem ReportCmd.step {c : ReportCmd P C} {s : σ} (hret : (c.run env s).1.returned = true) :
    ReportStep env.name (env.broker.get s) c (env.broker.get (c.run env s).2) := by
  cases c with
  | ignore pred =>
    rw [ReportCmd.run, Lens.get_modify_run]
    exact .ignore _ pred
  | call c =>
    cases c with
    | setPresetCciValue n v o =>
      simp only [ReportCmd.run, BrokerCmd.run, BrokerEnv.setPresetCciValue, Eff.get_bind_run]
      cases hr : (env.broker.get s).setPresetCciValue n v o with
      | error r =>
        show ReportStep _ _ _ (env.broker.get (env.report r s).2)
        rw [henv.report r s]
        exact .refused v o ((ConsumingBroker.setPresetCciValue_error_iff _ n v o).1 ⟨r, hr⟩)
      | ok b' =>
        show ReportStep _ _ _ (env.broker.get (env.broker.set b' s))
        rw [env.broker.get_set]
        exact .set hr
    | lockPresetValue n =>
      simp only [ReportCmd.run, BrokerCmd.run, BrokerEnv.lockPresetValue, Lens.get_modify_run]
      exact .lock _ n
    | addParam par =>
      simp only [ReportCmd.run, BrokerCmd.run, BrokerEnv.addParam, Eff.get_bind_run] at hret ⊢
      split at hret
      · cases hret
      · rename_i hnew
        rw [if_neg hnew]
        simp only [Lens.modify, Eff.modify_bind_run]
        rw [BrokerEnv.dispatch_fixed henv par _ _, env.broker.get_set, env.broker.get_set]
        exact .add hnew
    | removeParam par =>
      have hrun : (ReportCmd.call (.removeParam par)).run env s =
          (Eff.forEach (fun s i => (env.broker.get s).mDestroyCallbacks[i]?) (env.invoke par)
            env.fuel 0 () >>= fun _ => env.broker.modify (ConsumingBroker.release (env.name par)))
          (env.broker.set ((env.broker.get s).deregister (env.name par)) s) := rfl
      have hinvoke : ∀ entry u t e, (env.invoke par entry u t).1 ≠ .throw e := by
        intro entry u t e
        simp only [BrokerEnv.invoke]
        cases entry.callback with
        | none => simp
        | some held => exact hcall held par t e
      rw [hrun, Eff.bind_run] at hret
      rw [hrun, Eff.bind_run]
      have hfix := BrokerEnv.dispatch_fixed henv par
        (fun s i => (env.broker.get s).mDestroyCallbacks[i]?)
        (env.broker.set ((env.broker.get s).deregister (env.name par)) s)
      rcases hloop : Eff.forEach (fun s i => (env.broker.get s).mDestroyCallbacks[i]?)
        (env.invoke par) env.fuel 0 () (env.broker.set ((env.broker.get s).deregister (env.name par)) s)
        with ⟨u | e | _ | _, t⟩ <;> rw [hloop] at hret hfix
      · simp only [Lens.get_modify_run]
        rw [hfix, env.broker.get_set]
        exact .remove _ par
      · exact absurd (congrArg Prod.fst hloop) (Eff.forEach_not_throw hinvoke _ _ _ _ e)
      · cases hret
      · cases hret

end

namespace ReportStep

variable {name : P → String} {b b' : ConsumingBroker P C} {c : ReportCmd P C}

/-- Every step keeps a broker tidy. -/
theorem tidy (h : ReportStep name b c b') (hb : b.Tidy) : b'.Tidy := by
  cases h with
  | refused v o hl => exact hb
  | @set _ n v o hr =>
    refine ⟨(hb.consistent.setPreset hr).1, fun m hm => ?_⟩
    rw [(ConsumingBroker.setPresetCciValue_rest hr).1]
    obtain ⟨-, -, -, ⟨hn, -, hu⟩ | ⟨-, hu, -⟩⟩ := ConsumingBroker.setPresetCciValue_eq_ok hr
    · rw [hu, Std.ExtTreeMap.mem_insert] at hm
      rcases hm with hm | hm
      · rw [← compare_eq_iff_eq.1 hm]
        exact hb.registered n hn
      · exact hb.registered m hm
    · rw [hu] at hm
      exact hb.registered m hm
  | lock n => exact ⟨⟨hb.consistent.disjoint, hb.consistent.originated⟩, hb.registered⟩
  | @add par hnew =>
    have hreg : (b.register (name par) par).Consistent :=
      ⟨hb.consistent.disjoint, hb.consistent.originated⟩
    refine ⟨(hreg.consume _).1, fun m hm => ?_⟩
    rw [ConsumingBroker.registry_consume]
    rw [Std.ExtTreeMap.mem_iff_isSome_getElem?, ConsumingBroker.used_consume] at hm
    refine Std.ExtTreeMap.mem_insertIfNew.2 ?_
    split at hm
    · rename_i hnm
      exact .inl (compare_eq_iff_eq.2 hnm)
    · exact .inr (hb.registered m (Std.ExtTreeMap.mem_iff_isSome_getElem?.2 hm))
  | remove par =>
    have hreg : (b.deregister (name par)).Consistent :=
      ⟨hb.consistent.disjoint, hb.consistent.originated⟩
    refine ⟨(hreg.release _).1, fun m hm => ?_⟩
    rw [ConsumingBroker.registry_release]
    rw [Std.ExtTreeMap.mem_iff_isSome_getElem?, ConsumingBroker.used_release] at hm
    split at hm
    · cases hm
    · rename_i hnm
      refine Std.ExtTreeMap.mem_erase.2 ⟨fun heq => hnm (compare_eq_iff_eq.1 heq), ?_⟩
      exact hb.registered m (Std.ExtTreeMap.mem_iff_isSome_getElem?.2 hm)
  | ignore pred => exact ⟨⟨hb.consistent.disjoint, hb.consistent.originated⟩, hb.registered⟩

/-- A step from a settled broker leads to a settled one unless it is a late preset. -/
theorem settled_iff (h : ReportStep name b c b') (hs : b.Settled) :
    b'.Settled ↔ ¬Late b c := by
  cases h with
  | @refused n v o hl => exact ⟨fun _ hlate => hlate.1 hl, fun _ => hs⟩
  | @set _ n v o hr =>
    obtain ⟨hreg, hig⟩ := ConsumingBroker.setPresetCciValue_rest hr
    have hignores : b'.ignores = b.ignores := by
      funext nv
      rw [ConsumingBroker.ignores, ConsumingBroker.ignores, hig]
    obtain ⟨hl, -, -, ⟨hn, hun, -⟩ | ⟨hn, -, hun⟩⟩ := ConsumingBroker.setPresetCciValue_eq_ok hr
    · refine ⟨fun _ hlate => hlate.2.2.1 hn, fun _ m w hm hw => ?_⟩
      rw [hignores]
      rw [hreg] at hm
      rw [hun] at hw
      exact hs m w hm hw
    · constructor
      · intro hs' hlate
        have hignored := hs' n v (by rw [hreg]; exact hlate.2.1) (by
          rw [hun, Std.ExtTreeMap.getElem?_insert_self])
        rw [hignores, hlate.2.2.2] at hignored
        cases hignored
      · intro hlate m w hm hw
        rw [hreg] at hm
        rw [hignores]
        rw [hun, Std.ExtTreeMap.getElem?_insert] at hw
        split at hw
        · rename_i hnm
          cases hw
          have hnm' : n = m := compare_eq_iff_eq.1 hnm
          subst hnm'
          by_contra hig'
          exact hlate ⟨hl, hm, hn, by simpa using hig'⟩
        · exact hs m w hm hw
  | lock n => exact ⟨fun _ => id, fun _ => hs⟩
  | @add par hnew =>
    refine ⟨fun _ => id, fun _ m w hm hw => ?_⟩
    rw [ConsumingBroker.unused_consume] at hw
    split at hw
    · cases hw
    · rename_i hnm
      rw [ConsumingBroker.registry_consume] at hm
      rw [ConsumingBroker.ignores, ConsumingBroker.ignored_consume]
      refine hs m w ((Std.ExtTreeMap.mem_insertIfNew.1 hm).resolve_left fun heq => ?_) hw
      exact hnm (compare_eq_iff_eq.1 heq)
  | remove par =>
    refine ⟨fun _ => id, fun _ m w hm hw => ?_⟩
    rw [ConsumingBroker.registry_release] at hm
    obtain ⟨hnm, hm⟩ := Std.ExtTreeMap.mem_erase.1 hm
    rw [ConsumingBroker.unused_release, if_neg fun heq => hnm (compare_eq_iff_eq.2 heq)] at hw
    rw [ConsumingBroker.ignores, ConsumingBroker.ignored_release]
    exact hs m w hm hw
  | ignore pred =>
    refine ⟨fun _ => id, fun _ m w hm hw => ?_⟩
    have hold := hs m w hm hw
    rw [ConsumingBroker.ignores] at hold ⊢
    rw [ConsumingBroker.ignoreUnconsumedPresetValues, List.any_append, hold, Bool.true_or]

end ReportStep

/-- A broker as it is constructed: no parameter, no preset, no predicate. -/
def ConsumingBroker.Fresh (b : ConsumingBroker P C) : Prop := b.NoPresets ∧ b.mParamRegistry = ∅

theorem ConsumingBroker.Fresh.tidy {b : ConsumingBroker P C} (h : b.Fresh) : b.Tidy :=
  ⟨h.1.simulates.1, fun n hn => by
    rw [h.1.1] at hn
    exact absurd hn Std.ExtTreeMap.not_mem_empty⟩

theorem ConsumingBroker.Fresh.settled {b : ConsumingBroker P C} (h : b.Fresh) : b.Settled :=
  fun n v hn => by
    rw [h.2] at hn
    exact absurd hn Std.ExtTreeMap.not_mem_empty

/-- **The unconsumed-preset report is exact, but for late presets.**  A run on a new broker, whose
callbacks do not call back into it and do not throw, reports exactly in every state it reaches if and
only if none of its calls is a late preset. -/
theorem unconsumed_report_exact [Inhabited C] (env : BrokerEnv σ P C) (henv : env.Outside)
    (hcall : ∀ held par s e, (env.call held par s).1 ≠ .throw e) {s t : σ}
    (hs : (env.broker.get s).Fresh) {cs : List (ReportCmd P C)}
    (hrun : Runs (ReportCmd.run env) s cs t) :
    (∀ ds u, ds <+: cs → Runs (ReportCmd.run env) s ds u → (env.broker.get u).ExactReport) ↔
      ∀ ds c u, ds ++ [c] <+: cs → Runs (ReportCmd.run env) s ds u →
        ¬Late (env.broker.get u) c := by
  refine hrun.throughout_iff (I := fun u => (env.broker.get u).Tidy ∧ (env.broker.get u).Settled)
    (fun u hu => hu.1.exactReport_iff.2 hu.2) (fun c u hu hlate ho => ?_) (fun c u hu hlate ho => ?_)
    ⟨hs.tidy, hs.settled⟩
  · have hstep := ReportCmd.step henv hcall ho
    exact ⟨hstep.tidy hu.1, (hstep.settled_iff hu.2).2 hlate⟩
  · have hstep := ReportCmd.step henv hcall ho
    rw [(hstep.tidy hu.1).exactReport_iff, hstep.settled_iff hu.2]
    exact not_not_intro hlate

/-- A first preset for an existing parameter is reported as unconsumed. -/
theorem unconsumed_report_lists_existing :
    let env : BrokerEnv (ConsumingBroker String ℕ) String ℕ := .alone id
    let b := states (ReportCmd.run env) {} [.call (.addParam "top.p"),
      .call (.setPresetCciValue "top.p" 7 (.named "tool"))]
    b.getUnconsumedPresetValues = [("top.p", 7)] ∧ b.getOrigParam "top.p" = some "top.p" ∧
      ¬b.ExactReport := by
  intro env b
  have hlist : b.getUnconsumedPresetValues = [("top.p", 7)] := by decide +kernel
  have hparam : b.getOrigParam "top.p" = some "top.p" := by decide +kernel
  refine ⟨hlist, hparam, fun h => ?_⟩
  obtain ⟨-, hnone, -⟩ := (h.exact "top.p" 7).1 (by rw [hlist]; exact List.mem_singleton_self _)
  rw [hparam] at hnone
  cases hnone

/-- A preset before its parameter is not late. -/
theorem unconsumed_report_exact_early :
    let env : BrokerEnv (ConsumingBroker String ℕ) String ℕ := .alone id
    let cs : List (ReportCmd String ℕ) := [.call (.setPresetCciValue "top.p" 7 (.named "tool")),
      .call (.addParam "top.p"), .call (.removeParam "top.p"), .ignore fun nv => nv.2 = 7]
    (∀ ds u, ds <+: cs → Runs (ReportCmd.run env) {} ds u → u.ExactReport) ↔
      ∀ ds c u, ds ++ [c] <+: cs → Runs (ReportCmd.run env) {} ds u → ¬Late u c := by
  intro env cs
  have hfresh : ({} : ConsumingBroker String ℕ).Fresh := ⟨⟨rfl, rfl, rfl, rfl⟩, rfl⟩
  have hrun : Runs (ReportCmd.run env) {} cs (states (ReportCmd.run env) {} cs) :=
    .cons rfl (.cons (by decide +kernel) (.cons (by decide +kernel) (.cons rfl (.nil _))))
  exact unconsumed_report_exact env (BrokerEnv.alone_outside id) (fun _ _ _ _ => nofun) hfresh hrun

end Cci
