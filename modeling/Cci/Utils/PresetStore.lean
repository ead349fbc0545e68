import Cci.Lib.LockedMap
import Cci.Lib.Runs
import Cci.Utils.ConsumingBroker

/-!
# The preset store of a consuming broker

Over its four containers a `consuming_broker` is a last-write-wins map with permanent locks, however
often the presets move between the two registries.

* `ConsumingBroker.Consistent` — no name is in both registries, and a name has a recorded
  originator exactly when it has a preset;
* `ConsumingBroker.presets` — the abstract map of a broker;
* `BrokerCmd`, `lastPreset` — the calls of a run, and what their history says about a name;
* `preset_store_refines` — the three preset queries answer from the history.
-/

namespace Cci

open Effect

namespace ConsumingBroker

variable {P C : Type}

/-! ### How the operations move a preset -/

theorem getElem?_insertIfNew {V : Type} (m : Std.ExtTreeMap String V) (k n : String) (v : V) :
    (m.insertIfNew k v)[n]? = if k = n then (m[n]? <|> some v) else m[n]? := by
  simp only [Std.ExtTreeMap.getElem?_insertIfNew, Std.ExtTreeMap.mem_iff_isSome_getElem?]
  by_cases hkn : k = n
  · subst hkn
    cases m[k]? <;> simp
  · simp [hkn]

theorem used_consume (b : ConsumingBroker P C) (m n : String) :
    (b.consume m).mUsedValueRegistry[n]? =
      if m = n then (b.mUsedValueRegistry[n]? <|> b.mUnusedValueRegistry[n]?)
      else b.mUsedValueRegistry[n]? := by
  unfold consume
  cases hu : b.mUnusedValueRegistry[m]? with
  | none => by_cases hmn : m = n <;> simp_all
  | some v =>
    simp only [getElem?_insertIfNew]
    by_cases hmn : m = n <;> simp_all

theorem unused_consume (b : ConsumingBroker P C) (m n : String) :
    (b.consume m).mUnusedValueRegistry[n]? =
      if m = n then none else b.mUnusedValueRegistry[n]? := by
  unfold consume
  cases hu : b.mUnusedValueRegistry[m]? with
  | none => by_cases hmn : m = n <;> simp_all
  | some v => simp [Std.ExtTreeMap.getElem?_erase]

theorem unused_release (b : ConsumingBroker P C) (m n : String) :
    (b.release m).mUnusedValueRegistry[n]? =
      if m = n then (b.mUnusedValueRegistry[n]? <|> b.mUsedValueRegistry[n]?)
      else b.mUnusedValueRegistry[n]? := by
  unfold release
  cases hu : b.mUsedValueRegistry[m]? with
  | none => by_cases hmn : m = n <;> simp_all
  | some v =>
    simp only [getElem?_insertIfNew]
    by_cases hmn : m = n <;> simp_all

theorem used_release (b : ConsumingBroker P C) (m n : String) :
    (b.release m).mUsedValueRegistry[n]? =
      if m = n then none else b.mUsedValueRegistry[n]? := by
  unfold release
  cases hu : b.mUsedValueRegistry[m]? with
  | none => by_cases hmn : m = n <;> simp_all
  | some v => simp [Std.ExtTreeMap.getElem?_erase]

@[simp] theorem origins_consume (b : ConsumingBroker P C) (m : String) :
    (b.consume m).mPresetValueOriginatorMap = b.mPresetValueOriginatorMap := by
  unfold consume
  split <;> rfl

@[simp] theorem origins_release (b : ConsumingBroker P C) (m : String) :
    (b.release m).mPresetValueOriginatorMap = b.mPresetValueOriginatorMap := by
  unfold release
  split <;> rfl

@[simp] theorem locked_consume (b : ConsumingBroker P C) (m : String) :
    (b.consume m).locked = b.locked := by
  unfold consume
  split <;> rfl

@[simp] theorem locked_release (b : ConsumingBroker P C) (m : String) :
    (b.release m).locked = b.locked := by
  unfold release
  split <;> rfl

@[simp] theorem registry_consume (b : ConsumingBroker P C) (m : String) :
    (b.consume m).mParamRegistry = b.mParamRegistry := by
  unfold consume
  split <;> rfl

@[simp] theorem registry_release (b : ConsumingBroker P C) (m : String) :
    (b.release m).mParamRegistry = b.mParamRegistry := by
  unfold release
  split <;> rfl

@[simp] theorem ignored_consume (b : ConsumingBroker P C) (m : String) :
    (b.consume m).mIgnoredUnconsumedPredicates = b.mIgnoredUnconsumedPredicates := by
  unfold consume
  split <;> rfl

@[simp] theorem ignored_release (b : ConsumingBroker P C) (m : String) :
    (b.release m).mIgnoredUnconsumedPredicates = b.mIgnoredUnconsumedPredicates := by
  unfold release
  split <;> rfl

@[simp] theorem createCallbacks_consume (b : ConsumingBroker P C) (m : String) :
    (b.consume m).mCreateCallbacks = b.mCreateCallbacks := by
  unfold consume
  split <;> rfl

/-- What an accepted `set_preset_cci_value` writes. -/
theorem setPresetCciValue_eq_ok {b b' : ConsumingBroker P C} {m : String} {v : C}
    {o : CciOriginator} (h : b.setPresetCciValue m v o = .ok b') :
    m ∉ b.locked ∧ b'.locked = b.locked ∧
      b'.mPresetValueOriginatorMap = b.mPresetValueOriginatorMap.insert m o ∧
      ((m ∈ b.mUsedValueRegistry ∧ b'.mUnusedValueRegistry = b.mUnusedValueRegistry ∧
          b'.mUsedValueRegistry = b.mUsedValueRegistry.insert m v) ∨
        (m ∉ b.mUsedValueRegistry ∧ b'.mUsedValueRegistry = b.mUsedValueRegistry ∧
          b'.mUnusedValueRegistry = b.mUnusedValueRegistry.insert m v)) := by
  unfold setPresetCciValue at h
  split at h
  · cases h
  · rename_i hl
    cases h
    refine ⟨hl, ?_⟩
    by_cases hu : m ∈ b.mUsedValueRegistry <;> simp [hu]

/-- What it leaves alone. -/
theorem setPresetCciValue_rest {b b' : ConsumingBroker P C} {m : String} {v : C}
    {o : CciOriginator} (h : b.setPresetCciValue m v o = .ok b') :
    b'.mParamRegistry = b.mParamRegistry ∧
      b'.mIgnoredUnconsumedPredicates = b.mIgnoredUnconsumedPredicates := by
  unfold setPresetCciValue at h
  split at h
  · cases h
  · cases h
    by_cases hu : m ∈ b.mUsedValueRegistry <;> simp [hu]

theorem setPresetCciValue_error_iff (b : ConsumingBroker P C) (m : String) (v : C)
    (o : CciOriginator) : (∃ r, b.setPresetCciValue m v o = .error r) ↔ m ∈ b.locked := by
  unfold setPresetCciValue
  by_cases hl : m ∈ b.locked <;> simp [hl]

/-! ### The abstract map -/

/-- The value and the originator of the preset of a name. -/
def preset (b : ConsumingBroker P C) (n : String) : Option (C × CciOriginator) :=
  match b.mUsedValueRegistry[n]? <|> b.mUnusedValueRegistry[n]? with
  | some v => b.mPresetValueOriginatorMap[n]?.map fun o => (v, o)
  | none => none

/-- The presets of a broker as a last-write-wins map. -/
def presets (b : ConsumingBroker P C) : LockedMap String (C × CciOriginator) :=
  ⟨b.preset, fun n => n ∈ b.locked⟩

/-- No name is in both registries, and exactly the names with a preset have an originator. -/
structure Consistent (b : ConsumingBroker P C) : Prop where
  disjoint : ∀ n : String, b.mUsedValueRegistry[n]? = none ∨ b.mUnusedValueRegistry[n]? = none
  originated : ∀ n : String, b.mPresetValueOriginatorMap[n]?.isSome =
    (b.mUsedValueRegistry[n]? <|> b.mUnusedValueRegistry[n]?).isSome

theorem hasPresetValue_eq {b : ConsumingBroker P C} (hb : b.Consistent) (n : String) :
    b.hasPresetValue n = (b.preset n).isSome := by
  have ho := hb.originated n
  simp only [hasPresetValue, preset, Std.ExtTreeMap.mem_iff_isSome_getElem?]
  cases hu : b.mUsedValueRegistry[n]? <;> cases hv : b.mUnusedValueRegistry[n]? <;>
    simp [hu, hv] at ho ⊢ <;> exact ho

theorem getPresetCciValue_eq [Inhabited C] {b : ConsumingBroker P C} (hb : b.Consistent)
    (n : String) : b.getPresetCciValue n = ((b.preset n).map Prod.fst).getD default := by
  have ho := hb.originated n
  simp only [getPresetCciValue, preset]
  cases hu : b.mUsedValueRegistry[n]? <;> cases hv : b.mUnusedValueRegistry[n]? <;>
    cases hm : b.mPresetValueOriginatorMap[n]? <;> simp [hu, hv, hm] at ho ⊢

theorem getPresetValueOrigin_eq {b : ConsumingBroker P C} (hb : b.Consistent) (n : String) :
    b.getPresetValueOrigin n = ((b.preset n).map Prod.snd).getD .unknown := by
  have ho := hb.originated n
  simp only [getPresetValueOrigin, preset]
  cases hu : b.mUsedValueRegistry[n]? <;> cases hv : b.mUnusedValueRegistry[n]? <;>
    cases hm : b.mPresetValueOriginatorMap[n]? <;> simp [hu, hv, hm] at ho ⊢

/-- A move between the registries of a consistent broker changes no preset. -/
theorem Consistent.of_moved {b b' : ConsumingBroker P C} (hb : b.Consistent)
    (hdisj : ∀ n : String, b'.mUsedValueRegistry[n]? = none ∨ b'.mUnusedValueRegistry[n]? = none)
    (hsum : ∀ n : String, (b'.mUsedValueRegistry[n]? <|> b'.mUnusedValueRegistry[n]?) =
      (b.mUsedValueRegistry[n]? <|> b.mUnusedValueRegistry[n]?))
    (horig : b'.mPresetValueOriginatorMap = b.mPresetValueOriginatorMap)
    (hlock : b'.locked = b.locked) : b'.Consistent ∧ b'.presets = b.presets := by
  refine ⟨⟨hdisj, fun n => by rw [horig, hsum]; exact hb.originated n⟩, ?_⟩
  refine LockedMap.ext (funext fun n => ?_) (by simp only [presets, hlock])
  simp only [presets, preset, hsum, horig]

theorem Consistent.consume {b : ConsumingBroker P C} (hb : b.Consistent) (m : String) :
    (b.consume m).Consistent ∧ (b.consume m).presets = b.presets := by
  refine hb.of_moved (fun n => ?_) (fun n => ?_) (by simp) (by simp)
  · rw [used_consume, unused_consume]
    by_cases hmn : m = n
    · simp [hmn]
    · simpa [hmn] using hb.disjoint n
  · rw [used_consume, unused_consume]
    by_cases hmn : m = n <;> simp [hmn]

theorem Consistent.release {b : ConsumingBroker P C} (hb : b.Consistent) (m : String) :
    (b.release m).Consistent ∧ (b.release m).presets = b.presets := by
  refine hb.of_moved (fun n => ?_) (fun n => ?_) (by simp) (by simp)
  · rw [used_release, unused_release]
    by_cases hmn : m = n
    · simp [hmn]
    · simpa [hmn] using hb.disjoint n
  · rw [used_release, unused_release]
    by_cases hmn : m = n
    · subst hmn
      rcases hb.disjoint m with hu | hu <;> simp [hu]
    · simp [hmn]

theorem Consistent.setPreset {b b' : ConsumingBroker P C} (hb : b.Consistent) {m : String} {v : C}
    {o : CciOriginator} (h : b.setPresetCciValue m v o = .ok b') :
    b'.Consistent ∧ b'.presets = b.presets.set m (v, o) := by
  obtain ⟨hl, hl', ho, hreg⟩ := setPresetCciValue_eq_ok h
  have hother : ∀ n : String, m ≠ n → b'.mUsedValueRegistry[n]? = b.mUsedValueRegistry[n]? ∧
      b'.mUnusedValueRegistry[n]? = b.mUnusedValueRegistry[n]? ∧
      b'.mPresetValueOriginatorMap[n]? = b.mPresetValueOriginatorMap[n]? := by
    intro n hmn
    rcases hreg with ⟨-, hu, hv⟩ | ⟨-, hu, hv⟩ <;>
      simp [hu, hv, ho, hmn, Std.ExtTreeMap.getElem?_insert]
  have hhere : (b'.mUsedValueRegistry[m]? = none ∨ b'.mUnusedValueRegistry[m]? = none) ∧
      (b'.mUsedValueRegistry[m]? <|> b'.mUnusedValueRegistry[m]?) = some v := by
    rcases hreg with ⟨hm, hu, hv⟩ | ⟨hm, hu, hv⟩
    · have hun : b.mUnusedValueRegistry[m]? = none := by
        rcases hb.disjoint m with h' | h'
        · rw [Std.ExtTreeMap.mem_iff_isSome_getElem?, h'] at hm
          cases hm
        · exact h'
      simp [hu, hv, hun]
    · have hn : b.mUsedValueRegistry[m]? = none := Std.ExtTreeMap.getElem?_eq_none hm
      simp [hu, hv, hn]
  constructor
  · constructor
    · intro n
      by_cases hmn : m = n
      · exact hmn ▸ hhere.1
      · rw [(hother n hmn).1, (hother n hmn).2.1]
        exact hb.disjoint n
    · intro n
      by_cases hmn : m = n
      · subst hmn
        simp [hhere.2, ho]
      · rw [(hother n hmn).1, (hother n hmn).2.1, (hother n hmn).2.2]
        exact hb.originated n
  · rw [LockedMap.set_of_not_locked (show ¬b.presets.locked m from hl)]
    refine LockedMap.ext (funext fun n => ?_) (by simp only [presets, hl'])
    by_cases hmn : m = n
    · subst hmn
      simp [presets, preset, hhere.2, ho]
    · simp only [presets, preset, hother n hmn, Function.update_of_ne (Ne.symm hmn)]

end ConsumingBroker

/-! ### Runs -/

/-- The calls of a run on a broker. -/
inductive BrokerCmd (P C : Type) where
  | setPresetCciValue (parname : String) (value : C) (originator : CciOriginator) : BrokerCmd P C
  | lockPresetValue (parname : String) : BrokerCmd P C
  | addParam (par : P) : BrokerCmd P C
  | removeParam (par : P) : BrokerCmd P C

variable {σ P C : Type}

def BrokerCmd.run (env : BrokerEnv σ P C) : BrokerCmd P C → Eff Report σ Unit
  | .setPresetCciValue n v o => env.setPresetCciValue n v o
  | .lockPresetValue n => env.lockPresetValue n
  | .addParam par => env.addParam par
  | .removeParam par => env.removeParam par

/-- What a call means to the abstract map. -/
def BrokerCmd.op : BrokerCmd P C → Option (LockedMap.Op String (C × CciOriginator))
  | .setPresetCciValue n v o => some (.set n (v, o))
  | .lockPresetValue n => some (.lock n)
  | .addParam _ | .removeParam _ => none

/-- The last preset of a name set before the name was first locked. -/
def lastPreset (n : String) (cs : List (BrokerCmd P C)) : Option (C × CciOriginator) :=
  LockedMap.lastBeforeLock n (cs.filterMap BrokerCmd.op)

/-- A broker that knows no preset and no lock yet. -/
def ConsumingBroker.NoPresets (b : ConsumingBroker P C) : Prop :=
  b.mUsedValueRegistry = ∅ ∧ b.mUnusedValueRegistry = ∅ ∧ b.locked = ∅ ∧
    b.mPresetValueOriginatorMap = ∅

/-- The broker is consistent and its presets are those of a history. -/
def ConsumingBroker.Simulates (b : ConsumingBroker P C)
    (ops : List (LockedMap.Op String (C × CciOriginator))) : Prop :=
  b.Consistent ∧ b.presets = LockedMap.run ops

theorem ConsumingBroker.NoPresets.simulates {b : ConsumingBroker P C} (h : b.NoPresets) :
    b.Simulates [] := by
  obtain ⟨hu, hv, hl, ho⟩ := h
  refine ⟨⟨fun n => ?_, fun n => ?_⟩, LockedMap.ext (funext fun n => ?_) (funext fun n => ?_)⟩
  · simp [hu]
  · simp [hu, hv, ho]
  · simp [presets, preset, LockedMap.run, LockedMap.empty, hu, hv]
  · simp [presets, LockedMap.run, LockedMap.empty, hl]

/-- One call moves the broker and the history together. -/
theorem BrokerCmd.run_simulates {env : BrokerEnv σ P C} (henv : env.Outside) (c : BrokerCmd P C)
    {ops : List (LockedMap.Op String (C × CciOriginator))} {s : σ}
    (hs : (env.broker.get s).Simulates ops) :
    (env.broker.get (c.run env s).2).Simulates (ops ++ c.op.toList) := by
  cases c with
  | setPresetCciValue n v o =>
    have hstep : LockedMap.run (ops ++ [.set n (v, o)]) =
        (env.broker.get s).presets.set n (v, o) := by rw [LockedMap.run_snoc, ← hs.2]; rfl
    simp only [BrokerCmd.run, BrokerEnv.setPresetCciValue, Eff.get_bind_run, BrokerCmd.op,
      Option.toList_some, ConsumingBroker.Simulates, hstep]
    cases hr : (env.broker.get s).setPresetCciValue n v o with
    | error r =>
      have hl := ((env.broker.get s).setPresetCciValue_error_iff n v o).1 ⟨r, hr⟩
      show (env.broker.get (env.report r s).2).Consistent ∧ _
      rw [henv.report r s, LockedMap.set_of_locked hl]
      exact ⟨hs.1, rfl⟩
    | ok b' =>
      show (env.broker.get (env.broker.set b' s)).Consistent ∧
        (env.broker.get (env.broker.set b' s)).presets = _
      rw [Lens.get_set]
      exact hs.1.setPreset hr
  | lockPresetValue n =>
    simp only [BrokerCmd.run, BrokerEnv.lockPresetValue, Lens.get_modify_run, BrokerCmd.op,
      Option.toList_some, ConsumingBroker.Simulates, LockedMap.run_snoc, ← hs.2]
    refine ⟨⟨hs.1.disjoint, hs.1.originated⟩, LockedMap.ext rfl (funext fun m => ?_)⟩
    simp [ConsumingBroker.presets, ConsumingBroker.lockPresetValue, LockedMap.apply, LockedMap.lock,
      @eq_comm _ n]
  | addParam par =>
    simp only [BrokerCmd.op, Option.toList_none, List.append_nil]
    exact henv.keeps_addParam (I := fun b => b.Simulates ops) par
      (fun _ _ hb => ⟨⟨hb.1.disjoint, hb.1.originated⟩, hb.2⟩)
      (fun _ hb => ⟨(hb.1.consume _).1, (hb.1.consume _).2.trans hb.2⟩) s hs
  | removeParam par =>
    simp only [BrokerCmd.op, Option.toList_none, List.append_nil]
    exact henv.keeps_removeParam (I := fun b => b.Simulates ops) par
      (fun _ hb => ⟨⟨hb.1.disjoint, hb.1.originated⟩, hb.2⟩)
      (fun _ hb => ⟨(hb.1.release _).1, (hb.1.release _).2.trans hb.2⟩) s hs

/-- The run lemma: after every sequence of calls the broker simulates its history. -/
theorem states_simulates {env : BrokerEnv σ P C} (henv : env.Outside) {s : σ}
    (hs : (env.broker.get s).NoPresets) (cs : List (BrokerCmd P C)) :
    (env.broker.get (states (BrokerCmd.run env) s cs)).Simulates (cs.filterMap BrokerCmd.op) := by
  induction cs using List.reverseRecOn with
  | nil => exact hs.simulates
  | append_singleton cs c ih =>
    rw [states_snoc, List.filterMap_append]
    have hc : [c].filterMap BrokerCmd.op = c.op.toList := by cases h : c.op <;> simp [h]
    rw [hc]
    exact BrokerCmd.run_simulates henv c ih

theorem ConsumingBroker.Simulates.preset_eq {b : ConsumingBroker P C} {cs : List (BrokerCmd P C)}
    (h : b.Simulates (cs.filterMap BrokerCmd.op)) (n : String) : b.preset n = lastPreset n cs := by
  rw [lastPreset, ← LockedMap.run_entry, ← h.2]
  rfl

theorem ConsumingBroker.Simulates.locked_iff {b : ConsumingBroker P C} {cs : List (BrokerCmd P C)}
    (h : b.Simulates (cs.filterMap BrokerCmd.op)) (n : String) :
    n ∈ b.locked ↔ .lockPresetValue n ∈ cs := by
  have hop : ∀ c : BrokerCmd P C, c.op = some (.lock n) ↔ c = .lockPresetValue n := by
    intro c
    cases c <;> simp [BrokerCmd.op]
  show b.presets.locked n ↔ _
  rw [h.2, LockedMap.run_locked, List.mem_filterMap]
  simp only [hop, exists_eq_right]

/-- **The preset store refines a last-write-wins map with permanent locks.** -/
theorem preset_store_refines [Inhabited C] (env : BrokerEnv σ P C) (henv : env.Outside) (s : σ)
    (hs : (env.broker.get s).NoPresets) (cs : List (BrokerCmd P C)) :
    let t := states (BrokerCmd.run env) s cs
    let b := env.broker.get t
    (∀ n, b.hasPresetValue n = (lastPreset n cs).isSome ∧
      b.getPresetCciValue n = ((lastPreset n cs).map Prod.fst).getD default ∧
      b.getPresetValueOrigin n = ((lastPreset n cs).map Prod.snd).getD .unknown) ∧
    (∀ n v o, .lockPresetValue n ∈ cs →
      ∃ r, BrokerCmd.run env (.setPresetCciValue n v o) t = env.report r t ∧
        env.broker.get (BrokerCmd.run env (.setPresetCciValue n v o) t).2 = b) ∧
    ∀ n, ¬(n ∈ b.mUsedValueRegistry ∧ n ∈ b.mUnusedValueRegistry) := by
  intro t b
  have hsim : b.Simulates (cs.filterMap BrokerCmd.op) := states_simulates henv hs cs
  refine ⟨fun n => ?_, fun n v o hn => ?_, fun n hn => ?_⟩
  · rw [← hsim.preset_eq n]
    exact ⟨b.hasPresetValue_eq hsim.1 n, b.getPresetCciValue_eq hsim.1 n,
      b.getPresetValueOrigin_eq hsim.1 n⟩
  · obtain ⟨r, hr⟩ := (b.setPresetCciValue_error_iff n v o).2 ((hsim.locked_iff n).2 hn)
    have hrun : BrokerCmd.run env (.setPresetCciValue n v o) t = env.report r t := by
      simp only [BrokerCmd.run, BrokerEnv.setPresetCciValue, Eff.get_bind_run]
      rw [show (env.broker.get t).setPresetCciValue n v o = .error r from hr]
    exact ⟨r, hrun, by rw [hrun]; exact henv.report r t⟩
  · rcases hsim.1.disjoint n with h | h
    · exact absurd hn.1 (by simp [Std.ExtTreeMap.mem_iff_isSome_getElem?, h])
    · exact absurd hn.2 (by simp [Std.ExtTreeMap.mem_iff_isSome_getElem?, h])

/-- The last of two presets survives a lock, a destruction and a second creation. -/
theorem preset_store_refines_recreated :
    let cs : List (BrokerCmd String ℕ) := [.setPresetCciValue "top.p" 1 (.named "tool"),
      .addParam "top.p", .setPresetCciValue "top.p" 2 (.named "cli"), .lockPresetValue "top.p",
      .removeParam "top.p", .setPresetCciValue "top.p" 3 (.named "tool"), .addParam "top.p"]
    let b := states (BrokerCmd.run (.alone id)) {} cs
    b.hasPresetValue "top.p" = true ∧ b.getPresetCciValue "top.p" = 2 ∧
      b.getPresetValueOrigin "top.p" = .named "cli" := by
  intro cs b
  have h := (preset_store_refines (.alone id) (BrokerEnv.alone_outside id) {}
    ⟨rfl, rfl, rfl, rfl⟩ cs).1 "top.p"
  have hlast : lastPreset "top.p" cs = some (2, .named "cli") := by decide
  rw [hlast] at h
  exact h

end Cci
