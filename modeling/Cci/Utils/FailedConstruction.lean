import Cci.Utils.Lifetime

/-!
# Constructions that fail

A constructor that is left by an exception does not run the destructor of its parameter, so what it
has done to the broker stays.

* `SameRegistries` — the parameter and preset registries of two broker states agree;
* `PresetFails` — the preset of a name does not convert, and this is thrown;
* `construct_cases` — the constructor fails at the preset or enters `add_param`;
* `failed_construction_exact` — when a failed construction has left the broker unchanged.
-/

namespace Cci

open Effect CciParamTyped

variable {D : Design}

/-- The registries of parameters and presets are the same. -/
structure SameRegistries {P C : Type} (b b' : ConsumingBroker P C) : Prop where
  params : b'.mParamRegistry = b.mParamRegistry
  used : b'.mUsedValueRegistry = b.mUsedValueRegistry
  unused : b'.mUnusedValueRegistry = b.mUnusedValueRegistry

/-- The create callbacks do not take the parameter they are told about off the registry again. -/
def Watchers.LeaveRegistered (L : Watchers D) : Prop :=
  ∀ held p n, Keeps (fun w : BrokerWorld D => w.store.broker.getOrigParam n = some p) (L.call held p)

variable {L : Watchers D}

/-- An exception of a create callback leaves the parameter registered. -/
theorem addParam_throw (hL : L.LeaveRegistered) {w₀ w w' : BrokerWorld D} {p : D.Param} {e : Report}
    (h : (L.env w₀).addParam p w = (.throw e, w')) :
    (w₀.param p).mName ∉ w.store.broker.mParamRegistry ∧
      w'.store.broker.getOrigParam (w₀.param p).mName = some p := by
  by_cases hn : (w₀.param p).mName ∈ w.store.broker.mParamRegistry
  · -- A second parameter of the name ends the program.
    rw [BrokerEnv.addParam_of_registered hn] at h
    cases h
  · refine ⟨hn, ?_⟩
    have hkeeps : Keeps (fun w : BrokerWorld D =>
        w.store.broker.getOrigParam (w₀.param p).mName = some p)
        (Eff.forEach (fun s i => s.store.broker.mCreateCallbacks[i]?) ((L.env w₀).invoke p)
          L.fuel 0 ()) :=
      BrokerEnv.keeps_callbacks (fun held => hL held p _) _
    have hreg : (registered (w₀.param p).mName p w).store.broker.getOrigParam (w₀.param p).mName =
        some p := by
      rw [ConsumingBroker.getOrigParam, registered, ConsumingBroker.registry_consume,
        ConsumingBroker.register, ConsumingBroker.getElem?_insertIfNew, if_pos rfl,
        Std.ExtTreeMap.getElem?_eq_none hn]
      rfl
    have hend := hkeeps _ hreg
    rw [← addParam_run hn, h] at hend
    exact hend

variable [Inhabited D.CciValue]

/-- The broker has a preset of the name that does not convert, and reports are thrown. -/
def PresetFails (p : D.Param) (n : String) (b : ConsumingBroker D.Param D.CciValue) : Prop :=
  b.hasPresetValue n = true ∧ ¬Converts p (b.getPresetCciValue n)

/-- The constructor throws at the preset before it has touched the broker, or goes on to
`add_param`. -/
theorem construct_cases (I : Interp D (ConsumingBroker D.Param D.CciValue)) (p : D.Param)
    (a : ParamArgs (D.Value p)) (w : BrokerWorld D) :
    (PresetFails p a.name w.store.broker ∧ ∃ e t, construct L I p a w = (.throw e, t) ∧
      t.store.broker = w.store.broker) ∨
    (¬PresetFails p a.name w.store.broker ∧ ∃ t,
      construct L I p a w = (L.env (w.setParam p a.object)).addParam p t ∧
      t.store.broker = w.store.broker) := by
  have hrun : construct L I p a w = presetThen I p (w.store.broker.hasPresetValue a.name)
      (w.store.broker.getPresetCciValue a.name)
      (w.store.broker.getValueOrigin (fun q => ((w.setParam p a.object).param q).mValueOrigin) a.name)
      ((L.env (w.setParam p a.object)).addParam p) (w.setParam p a.object) := by
    show CciParamIf.init L I p (w.setParam p a.object) = _
    rw [CciParamIf.init, Eff.get_bind_run, mName_constructed]
    rfl
  rw [hrun]
  rcases presetThen_cases (w := w.setParam p a.object) (fun k => by rw [World.param_setParam]; rfl) I
    (w.store.broker.hasPresetValue a.name) _ _ _ with ⟨hfail, e, t, ht, hstore⟩ | ⟨hno, t, ht, hstore⟩
  · refine .inl ⟨hfail, e, t, ht, ?_⟩
    rw [hstore]
    rfl
  · refine .inr ⟨hno, t, ht, ?_⟩
    rcases hstore with hstore | ⟨v, hstore⟩
    · rw [hstore]
      rfl
    · rw [hstore]
      rfl

/-- A construction that threw left the registries unchanged if and only if it threw at its preset. -/
theorem construct_throw (hL : L.LeaveRegistered)
    {I : Interp D (ConsumingBroker D.Param D.CciValue)} {p : D.Param} {a : ParamArgs (D.Value p)}
    {w w' : BrokerWorld D} {e : Report} (h : construct L I p a w = (.throw e, w')) :
    SameRegistries w.store.broker w'.store.broker ↔ PresetFails p a.name w.store.broker := by
  rcases construct_cases (L := L) I p a w with ⟨hfail, e', t, ht, hb⟩ | ⟨hno, t, ht, hb⟩
  · rw [h] at ht
    obtain ⟨-, rfl⟩ := Prod.mk.inj ht
    rw [hb]
    exact ⟨fun _ => hfail, fun _ => ⟨rfl, rfl, rfl⟩⟩
  · refine ⟨fun hsame => ?_, fun hfail => absurd hfail hno⟩
    -- The exception came from a create callback: the parameter is registered, as it was not before.
    rw [h] at ht
    obtain ⟨hn, hreg⟩ := addParam_throw hL ht.symm
    rw [ConsumingBroker.getOrigParam, hsame.params, ← hb,
      Std.ExtTreeMap.getElem?_eq_none hn] at hreg
    cases hreg

/-- **Failed construction.**  A construction that is left by an exception leaves the registries of
the broker unchanged if and only if the exception is that of a conversion, of the preset or of a
default value given as a `cci_value`, and not one of a create callback. -/
theorem failed_construction_exact (L : Watchers D) (hL : L.LeaveRegistered)
    (I : Interp D (ConsumingBroker D.Param D.CciValue)) (p : D.Param) (w w' : BrokerWorld D)
    (e : Report) :
    (∀ a, construct L I p a w = (.throw e, w') →
      (SameRegistries w.store.broker w'.store.broker ↔ PresetFails p a.name w.store.broker)) ∧
    (∀ c a, constructFromCciValue L I p c a w = (.throw e, w') →
      (SameRegistries w.store.broker w'.store.broker ↔
        ¬Converts p c ∨ PresetFails p a.name w.store.broker)) := by
  refine ⟨fun a h => construct_throw hL h, fun c a h => ?_⟩
  by_cases hconv : Converts p c
  · obtain ⟨t, ht, hstore⟩ := cciValueGet_of_converts hconv w
    rw [constructFromCciValue, Eff.bind_run_ok ht] at h
    have hthrow := construct_throw hL h
    rw [hstore] at hthrow
    rw [hthrow, or_iff_right (not_not_intro hconv)]
  · obtain ⟨e', t, ht, hstore⟩ := cciValueGet_fails hconv w
    rw [constructFromCciValue, Eff.bind_run_throw ht] at h
    obtain ⟨-, rfl⟩ := Prod.mk.inj h
    rw [hstore]
    exact ⟨fun _ => .inl hconv, fun _ => ⟨rfl, rfl, rfl⟩⟩

/-- A design with one parameter, a broker with one create callback, and a preset for the
parameter. -/
def watchedWorld : BrokerWorld (natDesign Unit true) :=
  let broker : ConsumingBroker Unit ℕ := {
    mUnusedValueRegistry := (∅ : Std.ExtTreeMap String ℕ).insert "top.p" 7
    mCreateCallbacks := [⟨some (.impl ⟨1, ⟨.other 0, .void⟩⟩), .named "tool"⟩] }
  natWorld true (fun _ => "") (fun _ => 0) .unknown broker

/-- A create callback that throws leaves the parameter registered and its preset consumed. -/
theorem failed_construction_registers :
    ¬∀ (L : Watchers (natDesign Unit true)) (I : Interp (natDesign Unit true) _) (p : Unit)
      (a : ParamArgs ℕ) (w w' : BrokerWorld (natDesign Unit true)) (e : Report),
      construct L I p a w = (.throw e, w') →
        SameRegistries w.store.broker w'.store.broker := by
  intro h
  let L : Watchers (natDesign Unit true) := ⟨fun _ _ => Eff.raise (setParamFailed "rejected"), 1⟩
  let I : Interp (natDesign Unit true) (ConsumingBroker Unit ℕ) := ⟨fun _ _ => Eff.diverge, 1⟩
  let a : ParamArgs ℕ := ⟨"top.p", 1, .named "owner", 1⟩
  have hthrow : construct L I () a watchedWorld =
      (.throw (setParamFailed "rejected"), (construct L I () a watchedWorld).2) := by
    apply Prod.ext
    · decide +kernel
    · rfl
  have hsame := (h L I () a watchedWorld _ _ hthrow).params
  have hafter : "top.p" ∈ (construct L I () a watchedWorld).2.store.broker.mParamRegistry := by
    decide +kernel
  rw [hsame] at hafter
  exact absurd hafter (by decide +kernel)

/-- Such a construction, seen through the equivalence. -/
theorem failed_construction_exact_watched :
    let L : Watchers (natDesign Unit true) := ⟨fun _ _ => Eff.raise (setParamFailed "rejected"), 1⟩
    let I : Interp (natDesign Unit true) (ConsumingBroker Unit ℕ) := ⟨fun _ _ => Eff.diverge, 1⟩
    let w' := (construct L I () ⟨"top.p", (1 : ℕ), .named "owner", 1⟩ watchedWorld).2
    (∀ a, construct L I () a watchedWorld = (.throw (setParamFailed "rejected"), w') →
      (SameRegistries watchedWorld.store.broker w'.store.broker ↔
        PresetFails () a.name watchedWorld.store.broker)) ∧
    (∀ c a, constructFromCciValue L I () c a watchedWorld =
        (.throw (setParamFailed "rejected"), w') →
      (SameRegistries watchedWorld.store.broker w'.store.broker ↔
        ¬Converts () c ∨ PresetFails () a.name watchedWorld.store.broker)) := by
  intro L I w'
  exact failed_construction_exact L (fun _ _ _ _ hw => hw) I () watchedWorld w' _

end Cci
