import Cci.Examples.WrittenConfig
import Cci.Utils.ChainWorld

/-!
# Presets from a configuration file

`config` reads a file and sets, in the order of the names, a preset at the global broker for each name
of its configuration; the modules constructed after that find their initial values there.

* `config`, `Refused`, `config_presets` — the presets of the file up to the first one that is refused
  or does not parse;
* `construct_run` — a parameter constructed on a chain of brokers;
* `configured_parameters` — the parameters of a design whose presets a file has set.
-/

namespace Cci

open Effect

/-! ### Setting a preset -/

section

variable {σ P C : Type} {env : BrokerEnv σ P C} {n : String} {v : C} {o : CciOriginator} {s : σ}

theorem BrokerEnv.setPresetCciValue_ok {b : ConsumingBroker P C}
    (h : (env.broker.get s).setPresetCciValue n v o = .ok b) :
    env.setPresetCciValue n v o s = (.ok (), env.broker.set b s) := by
  simp only [BrokerEnv.setPresetCciValue, Eff.get_bind_run, h]
  rfl

theorem BrokerEnv.setPresetCciValue_error {r : Report}
    (h : (env.broker.get s).setPresetCciValue n v o = .error r) :
    env.setPresetCciValue n v o s = env.report r s := by
  simp only [BrokerEnv.setPresetCciValue, Eff.get_bind_run, h]

/-- The presets after an accepted one. -/
theorem ConsumingBroker.Consistent.preset_set {b b' : ConsumingBroker P C} (hb : b.Consistent)
    (h : b.setPresetCciValue n v o = .ok b') (m : String) :
    b'.preset m = if n = m then some (v, o) else b.preset m := by
  have hset := congrArg (fun M => M.entry m) (hb.setPreset h).2
  have hfree : ¬b.presets.locked n := (ConsumingBroker.setPresetCciValue_eq_ok h).1
  rw [LockedMap.set_of_not_locked hfree] at hset
  have hentry : b'.preset m = Function.update b.preset n (some (v, o)) m := hset
  rw [hentry, Function.update_apply]
  simp only [eq_comm]

theorem ConsumingBroker.NoPresets.preset_eq {b : ConsumingBroker P C} (h : b.NoPresets)
    (m : String) : b.preset m = none := by
  obtain ⟨hused, hunused, -, -⟩ := h
  simp [ConsumingBroker.preset, hused, hunused]

theorem ConsumingBroker.originator_of_preset {b : ConsumingBroker P C} {x : C × CciOriginator}
    (h : b.preset n = some x) : b.mPresetValueOriginatorMap[n]? = some x.2 := by
  rw [ConsumingBroker.preset] at h
  split at h
  · obtain ⟨o, ho, rfl⟩ := Option.map_eq_some_iff.1 h
    exact ho
  · cases h

end

namespace ConfigFileTool

/-! ### Presets of entries -/

section

variable {σ P C : Type} {env : ChainEnv σ P C} {json : List Char → Except Report C}
variable {tool : CciOriginator}

/-- The state `t` has, over the state `s`, the presets of some entries at the global broker. -/
structure Configured (env : ChainEnv σ P C) (json : List Char → Except Report C)
    (tool : CciOriginator) (done : List (List Char × List Char)) (s t : σ) : Prop where
  consistent : (env.chain.get t 0).Consistent
  preset : ∀ nv ∈ done, ∃ c, json nv.2 = .ok c ∧
    (env.chain.get t 0).preset (String.ofList nv.1) = some (c, tool)
  kept : ∀ n, (∀ nv ∈ done, String.ofList nv.1 ≠ n) →
    (env.chain.get t 0).preset n = (env.chain.get s 0).preset n
  locked : (env.chain.get t 0).locked = (env.chain.get s 0).locked
  registry : (env.chain.get t 0).mParamRegistry = (env.chain.get s 0).mParamRegistry
  expose : (env.chain.get t 0).expose = (env.chain.get s 0).expose
  others : ∀ j, j ≠ 0 → env.chain.get t j = env.chain.get s j

theorem Configured.refl {s t : σ} (hs : (env.chain.get s 0).Consistent)
    (h : env.chain.get t = env.chain.get s) : Configured env json tool [] s t where
  consistent := by
    rw [h]
    exact hs
  preset := List.forall_mem_nil _
  kept n _ := by rw [h]
  locked := by rw [h]
  registry := by rw [h]
  expose := by rw [h]
  others j _ := by rw [h]

/-- One more entry before the others, none of which has its name. -/
theorem Configured.cons {nv : List Char × List Char} {done : List (List Char × List Char)} {s t : σ}
    {c : C} {b : ConsumingBroker P C} (hs : (env.chain.get s 0).Consistent)
    (hjson : json nv.2 = .ok c)
    (hset : (env.chain.get s 0).setPresetCciValue (String.ofList nv.1) c tool = .ok b)
    (hnew : ∀ nv' ∈ done, nv.1 ≠ nv'.1)
    (h : Configured env json tool done ((env.node 0).broker.set b s) t) :
    Configured env json tool (nv :: done) s t := by
  have hchain : env.chain.get ((env.node 0).broker.set b s) =
      Function.update (env.chain.get s) 0 { env.chain.get s 0 with toConsumingBroker := b } :=
    env.chain.get_set _ s
  obtain ⟨-, hlocked, -, -⟩ := ConsumingBroker.setPresetCciValue_eq_ok hset
  have hpreset := hs.preset_set hset
  have hkept := h.kept
  have hlock := h.locked
  have hreg := h.registry
  have hexp := h.expose
  have hoth := h.others
  rw [hchain, Function.update_self] at hkept hlock hreg hexp
  refine ⟨h.consistent, List.forall_mem_cons.2 ⟨⟨c, hjson, ?_⟩, h.preset⟩, fun n hn => ?_,
    hlock.trans hlocked, hreg.trans (ConsumingBroker.setPresetCciValue_rest hset).1, hexp,
    fun j hj => ?_⟩
  · have hother : ∀ nv' ∈ done, String.ofList nv'.1 ≠ String.ofList nv.1 :=
      fun nv' hmem heq => hnew nv' hmem (String.ofList_injective heq).symm
    exact (hkept _ hother).trans ((hpreset _).trans (if_pos rfl))
  · obtain ⟨hhere, hrest⟩ := List.forall_mem_cons.1 hn
    exact (hkept n hrest).trans ((hpreset n).trans (if_neg hhere))
  · rw [hoth j hj, hchain, Function.update_of_ne hj]

end

/-! ### Applying a configuration -/

section

variable {σ P C : Type} [Inhabited C] (env : ChainEnv σ P C) (json : List Char → Except Report C)
variable (tool : CciOriginator)

/-- `cci_value::from_json`, for a parser `json`; after the report of an error the value is null. -/
def fromJson (text : List Char) : Eff Report σ C :=
  match json text with
  | .ok c => pure c
  | .error r => do
      env.report r
      pure default

/-- The body of the loop of `config`; `mApi` is a handle of the global broker. -/
def applyPreset (nv : List Char × List Char) : Eff Report σ Unit := do
  let c ← fromJson env json nv.2
  env.setPresetCciValue 0 (String.ofList nv.1) c tool

/-- `config`. -/
def config (interpret : List Char → Option (List Char × List Char)) (filename : String)
    (file : Option (List Char)) : Eff Report σ Unit :=
  match createConfigSetFromFile interpret filename file with
  | some read => read.1.toList.forM (applyPreset env json tool)
  | none => Eff.abort

/-- The report that an entry of a configuration ends in. -/
def Refused (locked : Std.ExtTreeSet String) (nv : List Char × List Char) (r : Report) : Prop :=
  json nv.2 = .error r ∨
    (∃ c, json nv.2 = .ok c) ∧ String.ofList nv.1 ∈ locked ∧
      r = setParamFailed "Setting preset value failed (parameter locked)."

variable {env json tool}

/-- An entry is refused, or its preset is set. -/
theorem applyPreset_cases (hthrow : ∀ r s, ∃ t, env.report r s = (.throw r, t))
    (nv : List Char × List Char) (s : σ) :
    (∃ r t, Refused json (env.chain.get s 0).locked nv r ∧
      applyPreset env json tool nv s = (.throw r, t) ∧ env.report r s = (.throw r, t)) ∨
    ∃ c b, json nv.2 = .ok c ∧
      (env.chain.get s 0).setPresetCciValue (String.ofList nv.1) c tool = .ok b ∧
      applyPreset env json tool nv s = (.ok (), (env.node 0).broker.set b s) := by
  cases hjson : json nv.2 with
  | error r =>
    obtain ⟨t, ht⟩ := hthrow r s
    refine .inl ⟨r, t, .inl hjson, ?_, ht⟩
    simp only [applyPreset, fromJson, hjson]
    exact Eff.bind_run_throw (Eff.bind_run_throw ht _) _
  | ok c =>
    have hrun : applyPreset env json tool nv s =
        (env.node 0).setPresetCciValue (String.ofList nv.1) c tool s := by
      simp only [applyPreset, fromJson, hjson]
      rfl
    cases hset : (env.chain.get s 0).setPresetCciValue (String.ofList nv.1) c tool with
    | error r =>
      obtain ⟨t, ht⟩ := hthrow r s
      have hlocked : String.ofList nv.1 ∈ (env.chain.get s 0).locked :=
        ((env.chain.get s 0).setPresetCciValue_error_iff _ c tool).1 ⟨r, hset⟩
      have hr : r = setParamFailed "Setting preset value failed (parameter locked)." := by
        rw [ConsumingBroker.setPresetCciValue, if_pos hlocked] at hset
        cases hset
        rfl
      refine .inl ⟨r, t, .inr ⟨⟨c, hjson⟩, hlocked, hr⟩, ?_, ht⟩
      have hreport : (env.node 0).setPresetCciValue (String.ofList nv.1) c tool s = env.report r s :=
        BrokerEnv.setPresetCciValue_error hset
      rw [hrun, hreport, ht]
    | ok b =>
      refine .inr ⟨c, b, rfl, hset, ?_⟩
      rw [hrun]
      exact BrokerEnv.setPresetCciValue_ok hset

/-- A configuration is applied up to the first entry that is refused. -/
theorem applyPresets (henv : env.Outside) (hthrow : ∀ r s, ∃ t, env.report r s = (.throw r, t))
    {nvs : List (List Char × List Char)} (hnvs : nvs.Pairwise fun a b => a.1 ≠ b.1) {s : σ}
    (hs : (env.chain.get s 0).Consistent) :
    ∃ done rest, nvs = done ++ rest ∧
      Configured env json tool done s (nvs.forM (applyPreset env json tool) s).2 ∧
      (rest = [] ∧ (nvs.forM (applyPreset env json tool) s).1 = .ok () ∨
        ∃ nv rest' r, rest = nv :: rest' ∧ Refused json (env.chain.get s 0).locked nv r ∧
          (nvs.forM (applyPreset env json tool) s).1 = .throw r) := by
  induction nvs generalizing s with
  | nil => exact ⟨[], [], rfl, .refl hs rfl, .inl ⟨rfl, rfl⟩⟩
  | cons nv nvs ih =>
    obtain ⟨hnew, hrest⟩ := List.pairwise_cons.1 hnvs
    have hstep : (nv :: nvs).forM (applyPreset env json tool) s =
        (applyPreset env json tool nv >>= fun _ => nvs.forM (applyPreset env json tool)) s := rfl
    rw [hstep]
    rcases @applyPreset_cases σ P C _ env json tool hthrow nv s with
      ⟨r, t, hrefused, hrun, hreport⟩ | ⟨c, b, hjson, hset, hrun⟩
    · have hchain : env.chain.get t = env.chain.get s := by
        have hfixed := henv.report r s
        rwa [hreport] at hfixed
      rw [Eff.bind_run_throw hrun]
      exact ⟨[], nv :: nvs, rfl, .refl hs hchain, .inr ⟨nv, nvs, r, rfl, hrefused, rfl⟩⟩
    · have hb : env.chain.get ((env.node 0).broker.set b s) =
          Function.update (env.chain.get s) 0 { env.chain.get s 0 with toConsumingBroker := b } :=
        env.chain.get_set _ s
      have hlocked : (env.chain.get ((env.node 0).broker.set b s) 0).locked =
          (env.chain.get s 0).locked := by
        rw [hb, Function.update_self]
        exact (ConsumingBroker.setPresetCciValue_eq_ok hset).2.1
      have hcons : (env.chain.get ((env.node 0).broker.set b s) 0).Consistent := by
        rw [hb, Function.update_self]
        exact (hs.setPreset hset).1
      rw [Eff.bind_run_ok hrun]
      obtain ⟨done, rest, rfl, hdone, hend⟩ := ih hrest hcons
      rw [hlocked] at hend
      exact ⟨nv :: done, rest, rfl,
        hdone.cons hs hjson hset fun nv' h => hnew nv' (List.mem_append_left _ h), hend⟩

/-- **The presets a file sets.**  Where reports are thrown, `config` sets at the global broker, with
the originator of the tool, the presets of the entries of the configuration in the order of their
names, up to the first one that does not parse or whose name is locked; it ends with the report of
that one, or comes back if there is none.  It changes nothing else at any broker. -/
theorem config_presets (henv : env.Outside) (hthrow : ∀ r s, ∃ t, env.report r s = (.throw r, t))
    {s : σ} (hs : (env.chain.get s 0).Consistent) (valueText : List Char → List Char)
    (filename : String) (file : Option (List Char)) :
    ∃ cs warned done rest,
      createConfigSetFromFile (interpretConfigLine valueText) filename file = some (cs, warned) ∧
      cs.toList = done ++ rest ∧
      Configured env json tool done s
        (config env json tool (interpretConfigLine valueText) filename file s).2 ∧
      (rest = [] ∧ (config env json tool (interpretConfigLine valueText) filename file s).1 = .ok () ∨
        ∃ nv rest' r, rest = nv :: rest' ∧ Refused json (env.chain.get s 0).locked nv r ∧
          (config env json tool (interpretConfigLine valueText) filename file s).1 = .throw r) := by
  obtain ⟨cs, warned, hread⟩ : ∃ cs warned,
      createConfigSetFromFile (interpretConfigLine valueText) filename file = some (cs, warned) := by
    cases file with
    | none => exact ⟨_, _, rfl⟩
    | some content =>
      obtain ⟨st, hread, -⟩ := @createConfigSetFromFile_reads valueText filename content
      exact ⟨_, _, hread⟩
  have hconfig : config env json tool (interpretConfigLine valueText) filename file =
      cs.toList.forM (applyPreset env json tool) := by
    rw [config, hread]
  obtain ⟨done, rest, hsplit, hdone, hend⟩ :=
    @applyPresets σ P C _ env json tool henv hthrow _ cs.distinct_names s hs
  rw [hconfig]
  exact ⟨cs, warned, done, rest, hread, hsplit, hdone, hend⟩

end

/-- A configuration of one entry. -/
def sevenSet : ConfigSet := ({} : ConfigSet).insert ['p'] ['7']

theorem sevenSet_read : createConfigSetFromFile (interpretConfigLine id) "seven.txt"
    (some (written id sevenSet)) = some (sevenSet, []) := by
  refine written_read "seven.txt" sevenSet fun nv hnv => ?_
  have hget := Std.ExtTreeMap.mem_toList_iff_getElem?_eq_some.1 hnv
  rw [sevenSet, Std.ExtTreeMap.getElem?_insert] at hget
  split at hget
  · rename_i hname
    obtain ⟨n, v⟩ := nv
    have hn : ['p'] = n := Std.LawfulEqCmp.eq_of_compare hname
    have hv : ['7'] = v := Option.some.inj hget
    subst hn hv
    refine PlainText.writable ⟨by simp, by simp [isspace], by simp [isSeparator], ?_⟩
      ⟨by simp, ⟨by simp [isspace], by simp [isspace]⟩, by simp, ?_⟩ (by decide) <;> simp [ends, nul]
  · simp at hget

/-- A file for a chain of brokers on their own. -/
theorem config_presets_seven :
    ∃ cs warned done rest,
      createConfigSetFromFile (interpretConfigLine id) "seven.txt" (some (written id sevenSet)) =
        some (cs, warned) ∧ cs.toList = done ++ rest ∧
      Configured (ChainEnv.alone (fun _ : Unit => "") none) (fun v => .ok v.length) .unknown done
        (fun _ => {}) (config (ChainEnv.alone (fun _ : Unit => "") none) (fun v => .ok v.length)
          .unknown (interpretConfigLine id) "seven.txt" (some (written id sevenSet))
          (fun _ => {})).2 := by
  obtain ⟨cs, warned, done, rest, hread, hsplit, hconf, -⟩ := config_presets
    (ChainEnv.alone_outside (fun _ : Unit => "") none) (fun r s => ⟨s, rfl⟩)
    (s := fun _ => ({} : Broker Unit ℕ))
    (ConsumingBroker.NoPresets.simulates ⟨rfl, rfl, rfl, rfl⟩).1 id "seven.txt"
    (some (written id sevenSet))
  exact ⟨cs, warned, done, rest, hread, hsplit, hconf⟩

end ConfigFileTool

/-! ### Parameters constructed on a chain -/

namespace ChainWatchers

variable {D : Design} {L : ChainWatchers D} {I : Interp D (BrokerChain D.Param D.CciValue)}

/-- The create and destroy callbacks do not write to parameters. -/
def Quiet (L : ChainWatchers D) : Prop :=
  ∀ held p (w : ChainWorld D) q, (L.call held p w).2.param q = w.param q

/-- Two chains are consistent, with the same presets, locks and expose sets. -/
def SamePresets (ch ch' : BrokerChain D.Param D.CciValue) : Prop :=
  ∀ j, (ch' j).Consistent ∧ (ch' j).presets = (ch j).presets ∧ (ch' j).expose = (ch j).expose

theorem addParam_param (hquiet : L.Quiet) (w₀ w : ChainWorld D) (i : ℕ) (p q : D.Param) :
    (((L.env I w₀).addParam i p w).2).param q = w.param q := by
  let c : ChainCmd D.Param D.CciValue := ⟨i, .addParam p⟩
  have hadd : (L.env I w₀).addParam i p = c.run (L.env I w₀) := rfl
  rw [hadd, ChainCmd.run_eq]
  refine BrokerCmd.run_frame (J := fun t => t.param q = w.param q) (fun b t ht => ?_)
    (fun r t ht => ?_) (fun held p t ht => ?_) c.cmd w rfl
  · exact ht
  · show (reportError r t).2.param q = _
    rw [reportError_run]
    exact ht
  · exact (hquiet held p t q).trans ht

theorem addParam_presets (hL : L.Outside) (w₀ : ChainWorld D) {w : ChainWorld D}
    (hw : ∀ j, (w.store.broker j).Consistent) (i : ℕ) (p : D.Param) :
    SamePresets w.store.broker ((L.env I w₀).addParam i p w).2.store.broker := by
  intro j
  let c : ChainCmd D.Param D.CciValue := ⟨i, .addParam p⟩
  have henv := hL.env (I := I) w₀
  have hadd : (L.env I w₀).addParam i p = c.run (L.env I w₀) := rfl
  rw [hadd]
  refine and_assoc.1 ⟨?_, ChainCmd.run_expose henv c w j⟩
  by_cases hj : j = c.target (L.env I w₀) w.store.broker
  · have hrun : c.run (L.env I w₀) w = ((L.env I w₀).node j).addParam p w := by
      rw [hj]
      exact ChainCmd.run_eq _ c w
    rw [hrun]
    exact (henv.node j).keeps_addParam
      (I := fun b => b.Consistent ∧ b.presets = (w.store.broker j).presets) p
      (fun b _ hb => ⟨⟨hb.1.disjoint, hb.1.originated⟩, hb.2⟩)
      (fun b hb => ⟨(hb.1.consume _).1, (hb.1.consume _).2.trans hb.2⟩) w ⟨hw j, rfl⟩
  · have hother := ChainCmd.run_other henv c w hj
    have hsame : (((c.run (L.env I w₀)) w).2.store.broker j).toConsumingBroker =
        (w.store.broker j).toConsumingBroker := hother
    rw [hsame]
    exact ⟨hw j, rfl⟩

/-- Registration comes back only for a name that the broker that answers for it does not have. -/
theorem addParam_unregistered {w₀ w w' : ChainWorld D} {i : ℕ} {p : D.Param}
    (hok : (L.env I w₀).addParam i p w = (.ok (), w')) :
    (w.store.broker (w.store.broker.resp (w₀.param p).mName i)).getOrigParam (w₀.param p).mName =
      none := by
  let r := w.store.broker.resp (w₀.param p).mName i
  have hnode : (L.env I w₀).addParam i p w = ((L.env I w₀).node r).addParam p w :=
    ChainCmd.run_eq (L.env I w₀) ⟨i, .addParam p⟩ w
  by_contra hreg
  have hmem : ((L.env I w₀).node r).name p ∈
      (((L.env I w₀).node r).broker.get w).mParamRegistry := by
    rw [Std.ExtTreeMap.mem_iff_isSome_getElem?]
    exact Option.isSome_iff_ne_none.2 hreg
  rw [hnode, BrokerEnv.addParam_of_registered hmem] at hok
  cases hok

/-- A constructor that comes back gives its parameter the preset of the broker that answers for its
name, if that has one. -/
theorem construct_run [Inhabited D.CciValue] (hL : L.Outside) (hquiet : L.Quiet)
    {w w' : ChainWorld D} (hw : ∀ j, (w.store.broker j).Consistent) {h : D.BrokerHandle}
    {p : D.Param} {a : ParamArgs (D.Value p)} (hrun : L.construct I h p a w = (.ok (), w')) :
    w'.param p = ((w.store.broker (w.store.broker.resp a.name (L.index h))).preset a.name).elim
        a.object (fun x => stored (D.unpack p (D.uninit p) x.1).2 x.2 a.object) ∧
      (∀ q, q ≠ p → w'.param q = w.param q) ∧ SamePresets w.store.broker w'.store.broker := by
  let i := w.store.broker.resp a.name (L.index h)
  let w₁ := withObject h p a w
  have hobject : w₁.param p = a.object := withObject_param h p a w
  have hother : ∀ q, q ≠ p → w₁.param q = w.param q :=
    fun q hq => withObject_param_of_ne h a w hq
  have hnew : ∀ k, (w₁.param p).callbacks k = {} := fun k => by rw [hobject]; rfl
  have hname : (w₁.param p).mName = a.name := congrArg CciParam.mName hobject
  -- What comes of the registration, in a state with the same brokers.
  have hadd : ∀ t : ChainWorld D, t.store.broker = w.store.broker →
      (L.env I w₁).addParam (L.index h) p t = (.ok (), w') →
      (w.store.broker i).getOrigParam a.name = none ∧ (∀ q, w'.param q = t.param q) ∧
        SamePresets w.store.broker w'.store.broker := by
    intro t ht hok
    have hreg := addParam_unregistered hok
    have hsame := addParam_presets (I := I) hL w₁ (w := t) (by rw [ht]; exact hw) (L.index h) p
    rw [hname, ht] at hreg
    rw [hok, ht] at hsame
    refine ⟨hreg, fun q => ?_, hsame⟩
    have hq := addParam_param (I := I) hquiet w₁ t (L.index h) p q
    rwa [hok] at hq
  have hhas : w.store.broker.hasPresetValue (L.index h) a.name =
      ((w.store.broker i).preset a.name).isSome := by
    rw [← ConsumingBroker.hasPresetValue_eq (hw i)]
    exact BrokerChain.forward_eq _ _ _
  have hvalue : w.store.broker.getPresetCciValue (L.index h) a.name =
      (((w.store.broker i).preset a.name).map Prod.fst).getD default := by
    rw [← ConsumingBroker.getPresetCciValue_eq (hw i)]
    exact BrokerChain.forward_eq _ _ _
  rw [construct_eq, hhas, hvalue] at hrun
  cases hpreset : (w.store.broker i).preset a.name with
  | none =>
    rw [hpreset] at hrun
    obtain ⟨-, hparams, hsame⟩ := hadd w₁ rfl hrun
    refine ⟨(hparams p).trans hobject, fun q hq => (hparams q).trans (hother q hq), hsame⟩
  | some x =>
    obtain ⟨c, o⟩ := x
    rw [hpreset] at hrun
    have hconv : Converts p c := by
      by_contra hnot
      rcases presetThen_cases hnew I true c (w.store.broker.getValueOrigin
        (fun q => (w₁.param q).mValueOrigin) (L.index h) a.name)
        ((L.env I w₁).addParam (L.index h) p) with ⟨-, e, t, ht, -⟩ | ⟨hno, -⟩
      · cases hrun.symm.trans ht
      · exact hno ⟨rfl, hnot⟩
    obtain ⟨t, ht, hstore⟩ := presetCciValue_new hnew hconv I (w.store.broker.getValueOrigin
      (fun q => (w₁.param q).mValueOrigin) (L.index h) a.name)
    have hok : (L.env I w₁).addParam (L.index h) p t = (.ok (), w') :=
      (Eff.bind_run_ok ht fun _ => (L.env I w₁).addParam (L.index h) p).symm.trans hrun
    have hbroker : t.store.broker = w.store.broker := by
      rw [hstore]
      rfl
    obtain ⟨hreg, hparams, hsame⟩ := hadd t hbroker hok
    -- The name is not registered yet, so its value origin is that of the preset.
    have horigin : w.store.broker.getValueOrigin (fun q => (w₁.param q).mValueOrigin) (L.index h)
        a.name = o := by
      have hplain : w.store.broker.getValueOrigin (fun q => (w₁.param q).mValueOrigin) (L.index h)
          a.name = (w.store.broker i).getValueOrigin (fun q => (w₁.param q).mValueOrigin) a.name :=
        BrokerChain.forward_eq _ _ _
      rw [hplain, ConsumingBroker.getValueOrigin, hreg]
      simp only [ConsumingBroker.originator_of_preset hpreset]
    rw [horigin, hobject] at hstore
    refine ⟨?_, fun q hq => ?_, hsame⟩
    · rw [hparams p, World.param, hstore]
      exact w₁.param_setParam p _
    · rw [hparams q, World.param, hstore]
      exact (w₁.param_setParam_of_ne _ hq).trans (hother q hq)

/-! ### A configured design -/

theorem SamePresets.trans {ch ch' ch'' : BrokerChain D.Param D.CciValue} (h : SamePresets ch ch')
    (h' : SamePresets ch' ch'') : SamePresets ch ch'' := fun j =>
  ⟨(h' j).1, (h' j).2.1.trans (h j).2.1, (h' j).2.2.trans (h j).2.2⟩

theorem SamePresets.resp {ch ch' : BrokerChain D.Param D.CciValue} (h : SamePresets ch ch')
    (n : String) (i : ℕ) : ch'.resp n i = ch.resp n i :=
  BrokerChain.resp_congr (fun j => (h j).2.2) n i

theorem SamePresets.preset {ch ch' : BrokerChain D.Param D.CciValue} (h : SamePresets ch ch')
    (n : String) (j : ℕ) : (ch' j).preset n = (ch j).preset n :=
  congrFun (congrArg LockedMap.entry (h j).2.1) n

variable [Inhabited D.CciValue]

/-- A parameter to be constructed, with its broker handle and its arguments. -/
structure Declaration (D : Design) where
  param : D.Param
  broker : D.BrokerHandle
  args : ParamArgs (D.Value param)

/-- The members of the parameter with its initial value: the preset at the broker that answers for
the name, or the default value. -/
def Declaration.initial (L : ChainWatchers D) (ch : BrokerChain D.Param D.CciValue)
    (d : Declaration D) : CciParam (D.Value d.param) :=
  ((ch (ch.resp d.args.name (L.index d.broker))).preset d.args.name).elim d.args.object
    fun x => stored (D.unpack d.param (D.uninit d.param) x.1).2 x.2 d.args.object

/-- The constructors of the parameters of a design. -/
def constructAll (L : ChainWatchers D) (I : Interp D (BrokerChain D.Param D.CciValue))
    (ds : List (Declaration D)) : Eff Report (ChainWorld D) Unit :=
  ds.forM fun d => L.construct I d.broker d.param d.args

/-- Each of the parameters of a design that was constructed shows its initial value. -/
theorem constructAll_run (hL : L.Outside) (hquiet : L.Quiet) {ds : List (Declaration D)}
    (hds : ds.Pairwise fun a b => a.param ≠ b.param) {w w' : ChainWorld D}
    (hw : ∀ j, (w.store.broker j).Consistent) (hrun : constructAll L I ds w = (.ok (), w')) :
    (∀ d ∈ ds, w'.param d.param = d.initial L w.store.broker) ∧
      (∀ q, (∀ d ∈ ds, q ≠ d.param) → w'.param q = w.param q) ∧
      SamePresets w.store.broker w'.store.broker := by
  induction ds generalizing w with
  | nil =>
    cases hrun
    exact ⟨List.forall_mem_nil _, fun _ _ => rfl, fun j => ⟨hw j, rfl, rfl⟩⟩
  | cons d ds ih =>
    obtain ⟨hnew, hrest⟩ := List.pairwise_cons.1 hds
    have hstep : constructAll L I (d :: ds) w =
        (L.construct I d.broker d.param d.args >>= fun _ => constructAll L I ds) w := rfl
    rw [hstep] at hrun
    obtain ⟨_, u, hfirst, hlater⟩ := Eff.bind_run_eq_ok hrun
    obtain ⟨hparam, hkept, hsame⟩ := construct_run hL hquiet hw hfirst
    obtain ⟨hparams, hothers, hsames⟩ := ih hrest (fun j => (hsame j).1) hlater
    refine ⟨List.forall_mem_cons.2 ⟨?_, fun d' hd' => ?_⟩, fun q hq => ?_, hsame.trans hsames⟩
    · exact (hothers d.param hnew).trans hparam
    · rw [hparams d' hd', Declaration.initial, Declaration.initial, hsame.resp, hsame.preset]
    · obtain ⟨hne, hrestne⟩ := List.forall_mem_cons.1 hq
      exact (hothers q hrestne).trans (hkept q hne)

/-- `sc_main` of the examples, up to the simulation: a file is applied, and the modules construct
their parameters. -/
def configuredDesign (L : ChainWatchers D) (I : Interp D (BrokerChain D.Param D.CciValue))
    (json : List Char → Except Report D.CciValue) (tool : CciOriginator)
    (interpret : List Char → Option (List Char × List Char)) (filename : String)
    (file : Option (List Char)) (ds : List (Declaration D)) : Eff Report (ChainWorld D) Unit := do
  let w ← Eff.get
  ConfigFileTool.config (L.env I w) json tool interpret filename file
  constructAll L I ds

/-- **From a file to the parameters.**  A design is constructed after a file has been applied to fresh
brokers.  Each of its parameters whose name the global broker answers for starts with the value of
the file for that name, with the tool as its origin, or with its default value if the file has none
for it. -/
theorem configured_parameters (hL : L.Outside) (hquiet : L.Quiet) (hthrows : D.throws = true)
    {json : List Char → Except Report D.CciValue} {tool : CciOriginator}
    {valueText : List Char → List Char} {filename : String} {file : Option (List Char)}
    {cs : ConfigFileTool.ConfigSet} {warned : List String}
    (hread : ConfigFileTool.createConfigSetFromFile (ConfigFileTool.interpretConfigLine valueText)
      filename file = some (cs, warned))
    {ds : List (Declaration D)} (hds : ds.Pairwise fun a b => a.param ≠ b.param)
    {w w' : ChainWorld D} (hw : ∀ j, (w.store.broker j).NoPresets)
    (hrun : configuredDesign L I json tool (ConfigFileTool.interpretConfigLine valueText) filename
      file ds w = (.ok (), w')) :
    ∀ d ∈ ds, w.store.broker.resp d.args.name (L.index d.broker) = 0 →
      (∀ v, cs[d.args.name.toList]? = some v → ∃ c, json v = .ok c ∧
        w'.param d.param = stored (D.unpack d.param (D.uninit d.param) c).2 tool d.args.object) ∧
      (cs[d.args.name.toList]? = none → w'.param d.param = d.args.object) := by
  have hthrow : ∀ r (s : ChainWorld D), ∃ t, (L.env I w).report r s = (.throw r, t) := by
    intro r s
    refine ⟨s.record (.report r), (reportError_run r s).trans ?_⟩
    rw [if_pos hthrows]
  rw [configuredDesign, Eff.get_bind_run] at hrun
  obtain ⟨⟨⟩, w₁, hconfig, hconstruct⟩ := Eff.bind_run_eq_ok hrun
  rw [ConfigFileTool.config, hread] at hconfig
  have happly : cs.toList.forM (ConfigFileTool.applyPreset (L.env I w) json tool) w = (.ok (), w₁) :=
    hconfig
  obtain ⟨done, rest, hsplit, hconf, hend⟩ := @ConfigFileTool.applyPresets _ _ _ _ (L.env I w) json
    tool (hL.env w) hthrow _ cs.distinct_names w (hw 0).simulates.1
  rw [happly] at hconf hend
  -- The tool came back, so no entry was refused.
  have hdone : cs.toList = done := by
    rcases hend with ⟨hnil, -⟩ | ⟨nv, rest', r, -, -, hthrown⟩
    · rw [hsplit, hnil, List.append_nil]
    · cases hthrown
  have hcons : ∀ j, (w₁.store.broker j).Consistent := by
    intro j
    by_cases hj : j = 0
    · rw [hj]
      exact hconf.consistent
    · have hother : w₁.store.broker j = w.store.broker j := hconf.others j hj
      rw [hother]
      exact (hw j).simulates.1
  have hexpose : ∀ j, (w₁.store.broker j).expose = (w.store.broker j).expose := by
    intro j
    by_cases hj : j = 0
    · rw [hj]
      exact hconf.expose
    · exact congrArg Broker.expose (hconf.others j hj)
  obtain ⟨hparams, -⟩ := constructAll_run hL hquiet hds hcons hconstruct
  intro d hd hresp
  have hinitial : w'.param d.param = ((w₁.store.broker 0).preset d.args.name).elim d.args.object
      fun x => stored (D.unpack d.param (D.uninit d.param) x.1).2 x.2 d.args.object := by
    rw [hparams d hd, Declaration.initial, BrokerChain.resp_congr hexpose, hresp]
  refine ⟨fun v hv => ?_, fun hnone => ?_⟩
  · have hmem : (d.args.name.toList, v) ∈ done := by
      rw [← hdone]
      exact Std.ExtTreeMap.mem_toList_iff_getElem?_eq_some.2 hv
    obtain ⟨c, hjson, hpreset⟩ := hconf.preset _ hmem
    rw [String.ofList_toList] at hpreset
    have hpreset' : (w₁.store.broker 0).preset d.args.name = some (c, tool) := hpreset
    exact ⟨c, hjson, by rw [hinitial, hpreset', Option.elim_some]⟩
  · have hnot : ∀ nv ∈ done, String.ofList nv.1 ≠ d.args.name := by
      intro nv hnv heq
      rw [← hdone] at hnv
      have hget := Std.ExtTreeMap.mem_toList_iff_getElem?_eq_some.1 hnv
      rw [← heq, String.toList_ofList, hget] at hnone
      cases hnone
    have hkept : (w₁.store.broker 0).preset d.args.name = (w.store.broker 0).preset d.args.name :=
      hconf.kept d.args.name hnot
    rw [hinitial, hkept, (hw 0).preset_eq, Option.elim_none]

/-- All parameters are constructed at the global broker. -/
def globalOnly : ChainWatchers (natDesign Unit true) := ⟨fun _ => 0, fun _ _ => pure (), 0, none⟩

/-- A parameter of the global broker. -/
def sevenDesign : List (Declaration (natDesign Unit true)) :=
  [⟨(), (), ⟨"p", (0 : ℕ), .named "owner", 1⟩⟩]

/-- The parameter is constructed after the file was applied, with the length of a text as its value. -/
def sevenRun : Outcome Report Unit × ChainWorld (natDesign Unit true) :=
  configuredDesign globalOnly ⟨fun _ _ => Eff.diverge, 0⟩ (fun v => .ok v.length) (.named "tool")
    (ConfigFileTool.interpretConfigLine id) "seven.txt"
    (some (ConfigFileTool.written id ConfigFileTool.sevenSet)) sevenDesign
    (natWorld true (fun _ => "") (fun _ => 0) .unknown fun _ => {})

theorem configured_parameters_seven : (sevenRun.2.param ()).mValue = (1 : ℕ) := by
  have hok : sevenRun.1 = .ok () := by
    simp only [sevenRun, configuredDesign, ConfigFileTool.config, ConfigFileTool.sevenSet_read]
    decide +kernel
  have hrun : sevenRun = (.ok (), sevenRun.2) := Prod.ext hok rfl
  have hvalue : ConfigFileTool.sevenSet["p".toList]? = some ['7'] := by
    simp [ConfigFileTool.sevenSet]
  obtain ⟨c, hc, hparam⟩ := (configured_parameters ⟨fun _ _ _ => rfl, fun _ _ _ => rfl,
    fun _ _ _ _ => rfl⟩ (fun _ _ _ _ => rfl) rfl ConfigFileTool.sevenSet_read
    (List.pairwise_singleton _ _) (fun _ => ⟨rfl, rfl, rfl, rfl⟩) hrun _ List.mem_cons_self rfl).1
    ['7'] hvalue
  rw [hparam]
  cases hc
  rfl

end ChainWatchers

end Cci
