import Cci.Utils.ChainWorld

/-!
# Reading a parameter by name and by handle

`get_param_handle` asks up the chain for a name that the broker does not know; `get_cci_value` and
`get_value_origin` only follow the expose sets.  And `get_cci_value` leaves its originator to the
default argument at each broker on the way.

* `ChainEnv.askedAs` — the originator that reaches the responding broker;
* `getCciValue_eq` — `get_cci_value` is the plain operation of that broker, asked so;
* `getParamHandle_resp` — where a handle comes from;
* `ReadsAlike` — the value and the origin by name are those by handle;
* `value_by_name_exact` — when they are.
-/

namespace Cci

open Effect CciParamTyped

namespace ChainEnv

variable {σ P C : Type} (env : ChainEnv σ P C)

/-! ### The originator on the way -/

/-- The originator that `get_cci_value` at broker `i` presents to the broker that answers for
`parname`: the default one, built anew at each broker on the way. -/
def askedAs (parname : String) : ℕ → Eff Report σ CciOriginator
  | 0 => env.defaultOriginator
  | i + 1 => do
      let s ← Eff.get
      if (env.chain.get s).sendToParent (i + 1) parname then
        let _ ← env.defaultOriginator
        askedAs parname i
      else env.defaultOriginator

variable {env} (hreport : ∀ r, env.chain.Fixed (env.report r))

include hreport

theorem defaultOriginator_fixed : env.chain.Fixed env.defaultOriginator := by
  intro s
  unfold defaultOriginator
  cases env.currentObject with
  | some obj => rfl
  | none =>
    have hfix := hreport (cciReport "cci_originator/check_is_valid"
      ("It is forbidden to build an originator without information (no SystemC hierarchy or " ++
        "empty name)!")) s
    simp only [Eff.bind_run]
    rcases hr : env.report (cciReport "cci_originator/check_is_valid"
      ("It is forbidden to build an originator without information (no SystemC hierarchy or " ++
        "empty name)!")) s with ⟨_ | _ | _ | _, t⟩ <;> rw [hr] at hfix <;> exact hfix

/-- `get_cci_value` is the plain operation of the broker that answers for the name. -/
theorem getCciValue_eq [Inhabited C] (n : String) (i : ℕ) (o : CciOriginator) (s : σ) :
    env.getCciValue n i o s = (env.askedAs n i >>= fun d =>
      env.ownGetCciValue ((env.chain.get s).resp n i) n d) s := by
  induction i generalizing o s with
  | zero => rfl
  | succ i ih =>
    unfold getCciValue askedAs
    simp only [Eff.get_bind_run]
    cases hsent : (env.chain.get s).sendToParent (i + 1) n with
    | false =>
      rw [BrokerChain.resp_of_not_sent hsent]
      simp only [Bool.false_eq_true, if_false, Eff.bind_run, Eff.get_run, hsent]
    | true =>
      rw [BrokerChain.resp_of_sent hsent]
      have hfix := defaultOriginator_fixed hreport s
      simp only [if_true, Eff.bind_run, Eff.get_run, hsent]
      rcases hr : env.defaultOriginator s with ⟨d | e | _ | _, t⟩
      · rw [hr] at hfix
        have hlater := ih d t
        rw [hfix] at hlater
        simpa only [Eff.bind_run] using hlater
      · rfl
      · rfl
      · rfl

omit hreport in
/-- The plain operation on a registered name reads the parameter. -/
theorem ownGetCciValue_registered [Inhabited C] {s : σ} {j : ℕ} {n : String} {p : P}
    (hp : (env.chain.get s j).getOrigParam n = some p) (d : CciOriginator) :
    env.ownGetCciValue j n d s = env.read p d s := by
  rw [ownGetCciValue, Eff.get_bind_run, hp]

omit hreport in
/-- On a name that is not registered it answers with an unused preset, or reports an error. -/
theorem ownGetCciValue_unregistered [Inhabited C] {s : σ} {j : ℕ} {n : String}
    (hp : (env.chain.get s j).getOrigParam n = none) (d : CciOriginator) :
    env.ownGetCciValue j n d s = match (env.chain.get s j).mUnusedValueRegistry[n]? with
      | some v => (.ok v, s)
      | none => (env.report (getParamFailed "Unable to find the parameter to get value") >>= fun _ =>
          pure default) s := by
  rw [ownGetCciValue, Eff.get_bind_run, hp]
  cases (env.chain.get s j).mUnusedValueRegistry[n]? <;> rfl

/-! ### Where a handle comes from -/

omit hreport in
/-- The brokers that pass the name on do not matter for a handle. -/
theorem getParamHandle_resp (ch : BrokerChain P C) (n : String) (o : CciOriginator) (i : ℕ) :
    getParamHandle ch n o i = getParamHandle ch n o (ch.resp n i) := by
  induction i with
  | zero => rfl
  | succ i ih =>
    cases hsent : ch.sendToParent (i + 1) n with
    | false => rw [BrokerChain.resp_of_not_sent hsent]
    | true =>
      rw [BrokerChain.resp_of_sent hsent, ← ih, getParamHandle, if_pos hsent]

omit hreport in
/-- A name registered where it is answered for is found there. -/
theorem getParamHandle_registered {ch : BrokerChain P C} {n : String} {i : ℕ} {p : P}
    (hp : (ch (ch.resp n i)).getOrigParam n = some p) (o : CciOriginator) :
    getParamHandle ch n o i = ⟨some p, o⟩ := by
  rw [getParamHandle_resp]
  have hkept : ch.sendToParent (ch.resp n i) n = false := BrokerChain.sendToParent_resp n i
  cases hr : ch.resp n i with
  | zero =>
    rw [hr] at hp
    rw [getParamHandle, hp]
  | succ r =>
    rw [hr] at hp hkept
    rw [getParamHandle, if_neg (by rw [hkept]; exact Bool.false_ne_true), hp]

/-! ### The default argument -/

omit hreport in
/-- The default argument `cci_originator()` can be had: inside the hierarchy, or if its report does
not throw. -/
def HasDefault (env : ChainEnv σ P C) (throws : Bool) : Prop :=
  env.currentObject.isSome = true ∨ throws = false

/-- Error reports throw or not, as configured, and otherwise do what `R` allows. -/
structure Reporting (env : ChainEnv σ P C) (throws : Bool) (R : σ → σ → Prop) : Prop where
  refl : ∀ s, R s s
  trans : ∀ {s t u}, R s t → R t u → R s u
  report : ∀ r s, ∃ t, env.report r s = (if throws then .throw r else .ok (), t) ∧ R s t

namespace Reporting

variable {throws : Bool} {R : σ → σ → Prop} (h : env.Reporting throws R)

include h
omit hreport

theorem defaultOriginator_ok (hd : env.HasDefault throws) (s : σ) :
    ∃ t, env.defaultOriginator s = (.ok env.fallbackOriginator, t) ∧ R s t := by
  unfold defaultOriginator fallbackOriginator
  cases hobj : env.currentObject with
  | some obj => exact ⟨s, rfl, h.refl s⟩
  | none =>
    have hthrows : throws = false := hd.resolve_left (by rw [hobj]; exact Bool.false_ne_true)
    obtain ⟨t, ht, hR⟩ := h.report (cciReport "cci_originator/check_is_valid"
      ("It is forbidden to build an originator without information (no SystemC hierarchy or " ++
        "empty name)!")) s
    rw [hthrows] at ht
    exact ⟨t, Eff.bind_run_ok ht _, hR⟩

theorem defaultOriginator_throws (hd : ¬env.HasDefault throws) (s : σ) :
    ∃ r t, env.defaultOriginator s = (.throw r, t) ∧ R s t := by
  obtain ⟨hobj, hthrows⟩ := not_or.1 hd
  unfold defaultOriginator
  rw [Option.not_isSome_iff_eq_none.1 hobj]
  obtain ⟨t, ht, hR⟩ := h.report (cciReport "cci_originator/check_is_valid"
    ("It is forbidden to build an originator without information (no SystemC hierarchy or " ++
      "empty name)!")) s
  rw [Bool.not_eq_false] at hthrows
  rw [hthrows] at ht
  exact ⟨_, t, Eff.bind_run_throw ht _, hR⟩

/-- The default originator reaches the responding broker. -/
theorem askedAs_ok (hd : env.HasDefault throws) (n : String) (i : ℕ) (s : σ) :
    ∃ t, env.askedAs n i s = (.ok env.fallbackOriginator, t) ∧ R s t := by
  induction i generalizing s with
  | zero => exact h.defaultOriginator_ok hd s
  | succ i ih =>
    unfold askedAs
    simp only [Eff.get_bind_run]
    split
    · obtain ⟨t, ht, hst⟩ := h.defaultOriginator_ok hd s
      obtain ⟨u, hu, htu⟩ := ih t
      exact ⟨u, (Eff.bind_run_ok ht _).trans hu, h.trans hst htu⟩
    · exact h.defaultOriginator_ok hd s

theorem askedAs_throws (hd : ¬env.HasDefault throws) (n : String) (i : ℕ) (s : σ) :
    ∃ r t, env.askedAs n i s = (.throw r, t) ∧ R s t := by
  cases i with
  | zero => exact h.defaultOriginator_throws hd s
  | succ i =>
    unfold askedAs
    simp only [Eff.get_bind_run]
    split
    · obtain ⟨r, t, ht, hst⟩ := h.defaultOriginator_throws hd s
      exact ⟨r, t, Eff.bind_run_throw ht _, hst⟩
    · exact h.defaultOriginator_throws hd s

end Reporting

end ChainEnv

/-! ### Both ways of reading -/

namespace ChainWatchers

variable {D : Design} (L : ChainWatchers D) (I : Interp D (BrokerChain D.Param D.CciValue))

variable {L I}

theorem report_fixed (w₀ : ChainWorld D) (r : Report) :
    (L.env I w₀).chain.Fixed ((L.env I w₀).report r) := fun w =>
  congrArg (fun x => x.2.store.broker) (reportError_run r w)

/-- Reports leave the store alone. -/
theorem env_reporting (w₀ : ChainWorld D) :
    (L.env I w₀).Reporting D.throws fun w t => t.store = w.store where
  refl _ := rfl
  trans h h' := h'.trans h
  report r w := ⟨_, reportError_run r w, rfl⟩

/-! ### Parameters without read callbacks -/

/-- No read callback of `p` will run: there is none, or the guard of the list is set. -/
def Unread (w : ChainWorld D) (p : D.Param) : Prop :=
  ∀ k, k = .preRead ∨ k = .postRead → (w.param p).oncall k = true ∨ (w.param p).vec k = []

theorem observe_unread {w : ChainWorld D} {p : D.Param} {k : CallbackKind}
    (h : (w.param p).oncall k = true ∨ (w.param p).vec k = [])
    (mkEvent : CciParam (D.Value p) → CallbackObj → ParamEvent (D.Value p)) :
    ∃ t, observe I p k mkEvent w = (.ok (), t) ∧ t.store = w.store := by
  rw [observe_eq_guarded]
  cases hon : (w.param p).oncall k with
  | true => exact ⟨w, guarded_skip hon, rfl⟩
  | false =>
    have hvec := h.resolve_left (by rw [hon]; exact Bool.false_ne_true)
    exact ⟨_, guarded_empty hon hvec, rfl⟩

/-- It is read without anybody being told. -/
theorem getRawValue_unread {w : ChainWorld D} {p : D.Param} (h : Unread w p) (o : CciOriginator) :
    ∃ t, getRawValue I p o w = (.ok (w.param p).mValue, t) := by
  obtain ⟨t, ht, hstore⟩ := observe_unread (I := I) (h .preRead (.inl rfl))
    fun q entry => .read q.mValue o entry.originator
  have hparam : t.param p = w.param p := by rw [World.param, hstore, World.param]
  obtain ⟨u, hu, hstore'⟩ := observe_unread (I := I) (w := t) (p := p)
    (by rw [hparam]; exact h .postRead (.inr rfl)) fun q entry => .read q.mValue o entry.originator
  have hparam' : u.param p = w.param p := by rw [World.param, hstore', ← World.param, hparam]
  refine ⟨u.setParam p { u.param p with fastRead := fastReadAllowed (u.param p) }, ?_⟩
  rw [getRawValue, Eff.bind_run_ok (show preReadCallback I p o w = _ from ht),
    Eff.bind_run_ok (show postReadCallback I p o t = _ from hu), modifyParam, Eff.modify_bind_run,
    getParam, Eff.gets_bind_run, Eff.pure_run, World.param_setParam, hparam']

/-- Then every originator reads the same. -/
theorem getCciValue_unread {w w' : ChainWorld D} {p : D.Param} (h : Unread w p)
    (hstore : w'.store = w.store) (o o' : CciOriginator) :
    (CciParamTyped.getCciValue I p o w).1 = (CciParamTyped.getCciValue I p o' w').1 := by
  have hparam : w'.param p = w.param p := by rw [World.param, hstore, World.param]
  obtain ⟨t, ht⟩ := getRawValue_unread (I := I) h o
  obtain ⟨t', ht'⟩ := getRawValue_unread (I := I) (w := w') (p := p)
    (fun k hk => by rw [hparam]; exact h k hk) o'
  rw [CciParamTyped.getCciValue, Eff.bind_run_ok ht, CciParamTyped.getCciValue,
    Eff.bind_run_ok ht', hparam]
  unfold cciValueOf
  split
  · rfl
  · simp only [Eff.bind_run, reportError_run]
    cases D.throws <;> rfl

/-! ### Agreement -/

section

variable [Inhabited D.CciValue] (L : ChainWatchers D)
  (I : Interp D (BrokerChain D.Param D.CciValue)) (w : ChainWorld D) (i : ℕ) (n : String)
  (o : CciOriginator) (p : D.Param)

/-- The parameter that a handle taken at broker `i` refers to. -/
def handleParam : Option D.Param := (ChainEnv.getParamHandle w.store.broker n o i).mParam

/-- The broker that answers for the name knows it, as a parameter or as an unused preset: it does not
report "Unable to find the parameter to get value". -/
def Found : Prop :=
  let b := w.store.broker (w.store.broker.resp n i)
  (b.getOrigParam n).isSome = true ∨ n ∈ b.mUnusedValueRegistry

/-- Reading by name at broker `i` is reading `p` through a handle with the originator `o`. -/
structure ReadsAlike : Prop where
  value : ∀ v, (CciParamTyped.getCciValue I p o w).1 = .ok v →
    Found w i n ∧ ((L.env I w).getCciValue n i o w).1 = .ok v
  origin : w.store.broker.getValueOrigin (fun q => (w.param q).mValueOrigin) i n =
    (w.param p).mValueOrigin

/-- The default originator can be had, and the read callbacks of `p` make no difference between it and
the originator of the handle. -/
def AnswersBoth : Prop :=
  ∀ v, (CciParamTyped.getCciValue I p o w).1 = .ok v → (L.env I w).HasDefault D.throws ∧
    (CciParamTyped.getCciValue I p (L.env I w).fallbackOriginator ((L.env I w).askedAs n i w).2).1 =
      .ok v

/-- Where the name is answered for there is an unused preset that happens to have the value and the
origin of `p`. -/
def PresetMirrors : Prop :=
  let b := w.store.broker (w.store.broker.resp n i)
  b.getPresetValueOrigin n = (w.param p).mValueOrigin ∧
    ∀ v, (CciParamTyped.getCciValue I p o w).1 = .ok v →
      (L.env I w).HasDefault D.throws ∧ b.mUnusedValueRegistry[n]? = some v

variable {L I w i n o p}

omit [Inhabited D.CciValue] in
/-- The origin by name, where the name is registered. -/
theorem getValueOrigin_registered
    (hp : (w.store.broker (w.store.broker.resp n i)).getOrigParam n = some p)
    (originOf : D.Param → CciOriginator) :
    w.store.broker.getValueOrigin originOf i n = originOf p := by
  rw [BrokerChain.getValueOrigin, BrokerChain.forward_eq, ConsumingBroker.getValueOrigin, hp]

omit [Inhabited D.CciValue] in
/-- The origin by name, where it is not. -/
theorem getValueOrigin_unregistered
    (hnone : (w.store.broker (w.store.broker.resp n i)).getOrigParam n = none)
    (originOf : D.Param → CciOriginator) :
    w.store.broker.getValueOrigin originOf i n =
      (w.store.broker (w.store.broker.resp n i)).getPresetValueOrigin n := by
  rw [BrokerChain.getValueOrigin, BrokerChain.forward_eq, ConsumingBroker.getValueOrigin, hnone]
  rfl

/-- Without a default originator nothing is read by name. -/
theorem getCciValue_throws (hd : ¬(L.env I w).HasDefault D.throws) (v : D.CciValue) :
    ((L.env I w).getCciValue n i o w).1 ≠ .ok v := by
  obtain ⟨r, t, ht, -⟩ := (env_reporting (I := I) w).askedAs_throws hd n i w
  rw [ChainEnv.getCciValue_eq (report_fixed w), Eff.bind_run_throw ht]
  simp

/-- With one, the broker that answers for the name is asked, in the same store. -/
theorem getCciValue_run (hd : (L.env I w).HasDefault D.throws) :
    ∃ t, ((L.env I w).askedAs n i w).2 = t ∧ t.store = w.store ∧ (L.env I w).getCciValue n i o w =
      (L.env I w).ownGetCciValue (w.store.broker.resp n i) n (L.env I w).fallbackOriginator t := by
  obtain ⟨t, ht, hstore⟩ := (env_reporting (I := I) w).askedAs_ok hd n i w
  refine ⟨t, by rw [ht], hstore, ?_⟩
  rw [ChainEnv.getCciValue_eq (report_fixed w), Eff.bind_run_ok ht]
  rfl

/-- Where the name is registered, both ways lead to the same parameter. -/
theorem readsAlike_registered
    (hp : (w.store.broker (w.store.broker.resp n i)).getOrigParam n = some p) :
    ReadsAlike L I w i n o p ↔ AnswersBoth L I w i n o p := by
  have hval : (L.env I w).HasDefault D.throws → ((L.env I w).getCciValue n i o w).1 =
      (CciParamTyped.getCciValue I p (L.env I w).fallbackOriginator
        ((L.env I w).askedAs n i w).2).1 := by
    intro hd
    obtain ⟨t, ht, hstore, hrun⟩ := getCciValue_run (I := I) (w := w) (n := n) (i := i) (o := o) hd
    have hreg : ((L.env I w).chain.get t (w.store.broker.resp n i)).getOrigParam n = some p := by
      show (t.store.broker _).getOrigParam n = some p
      rw [hstore]
      exact hp
    rw [hrun, ChainEnv.ownGetCciValue_registered hreg, ht]
    rfl
  constructor
  · intro h v hv
    have hname := (h.value v hv).2
    by_cases hd : (L.env I w).HasDefault D.throws
    · exact ⟨hd, (hval hd).symm.trans hname⟩
    · exact absurd hname (getCciValue_throws hd v)
  · intro h
    refine ⟨fun v hv => ⟨.inl (by rw [hp]; rfl), ?_⟩, getValueOrigin_registered hp _⟩
    obtain ⟨hd, hread⟩ := h v hv
    exact (hval hd).trans hread

/-- Where it is not, only a preset can answer. -/
theorem readsAlike_unregistered
    (hnone : (w.store.broker (w.store.broker.resp n i)).getOrigParam n = none) :
    ReadsAlike L I w i n o p ↔ PresetMirrors L I w i n o p := by
  let b := w.store.broker (w.store.broker.resp n i)
  have horigin := getValueOrigin_unregistered hnone fun q => (w.param q).mValueOrigin
  -- A preset answers with its value, whoever asks.
  have hval : (L.env I w).HasDefault D.throws → ∀ v, b.mUnusedValueRegistry[n]? = some v →
      ((L.env I w).getCciValue n i o w).1 = .ok v := by
    intro hd v hv
    obtain ⟨t, -, hstore, hrun⟩ := getCciValue_run (I := I) (w := w) (n := n) (i := i) (o := o) hd
    have hchain : (L.env I w).chain.get t = w.store.broker := congrArg Store.broker hstore
    rw [hrun, ChainEnv.ownGetCciValue_unregistered (by rw [hchain]; exact hnone), hchain, hv]
  constructor
  · intro h
    refine ⟨horigin.symm.trans h.origin, fun v hv => ?_⟩
    obtain ⟨hfound, hname⟩ := h.value v hv
    have hd : (L.env I w).HasDefault D.throws := by
      by_contra hd
      exact getCciValue_throws hd v hname
    have hmem : n ∈ b.mUnusedValueRegistry := by
      rcases hfound with hreg | hmem
      · rw [hnone] at hreg
        exact absurd hreg Bool.false_ne_true
      · exact hmem
    rw [Std.ExtTreeMap.mem_iff_isSome_getElem?] at hmem
    obtain ⟨v', hv'⟩ := Option.isSome_iff_exists.1 hmem
    have heq : v' = v := by
      have hboth := (hval hd v' hv').symm.trans hname
      cases hboth
      rfl
    exact ⟨hd, heq ▸ hv'⟩
  · rintro ⟨horg, hread⟩
    refine ⟨fun v hv => ?_, horigin.trans horg⟩
    obtain ⟨hd, hpreset⟩ := hread v hv
    refine ⟨.inr ?_, hval hd v hpreset⟩
    show n ∈ b.mUnusedValueRegistry
    rw [Std.ExtTreeMap.mem_iff_isSome_getElem?, hpreset]
    rfl

/-- A parameter without read callbacks tells no originators apart. -/
theorem answersBoth_of_unread (hd : (L.env I w).HasDefault D.throws) (h : Unread w p) :
    AnswersBoth L I w i n o p := by
  intro v hv
  obtain ⟨t, ht, hstore, -⟩ := getCciValue_run (I := I) (w := w) (n := n) (i := i) (o := o) hd
  refine ⟨hd, ?_⟩
  rw [ht, ← getCciValue_unread h hstore o]
  exact hv

/-- **By name and by handle.**  Whenever a handle for the name is valid, reading by name has the value
and the origin of the handle if and only if the name is registered where it is answered for and the
parameter does not tell the originators apart, or is not registered there and an unused preset mirrors
the parameter that the handle found further up. -/
theorem value_by_name_exact (L : ChainWatchers D) (I : Interp D (BrokerChain D.Param D.CciValue))
    (w : ChainWorld D) (i : ℕ) (n : String) (o : CciOriginator) :
    (∀ p, handleParam w i n o = some p → ReadsAlike L I w i n o p) ↔
      ∀ p, handleParam w i n o = some p →
        let registered := (w.store.broker (w.store.broker.resp n i)).getOrigParam n
        (registered = some p ∧ AnswersBoth L I w i n o p) ∨
          (registered = none ∧ PresetMirrors L I w i n o p) := by
  refine forall_congr' fun p => imp_congr_right fun hhandle => ?_
  cases hreg : (w.store.broker (w.store.broker.resp n i)).getOrigParam n with
  | some q =>
    have hq : q = p := by
      rw [handleParam, ChainEnv.getParamHandle_registered hreg] at hhandle
      exact Option.some.inj hhandle
    subst hq
    rw [readsAlike_registered hreg]
    exact ⟨fun h => .inl ⟨rfl, h⟩, fun h => h.elim And.right fun h => absurd h.1 (by simp)⟩
  | none =>
    rw [readsAlike_unregistered hreg]
    exact ⟨fun h => .inr ⟨rfl, h⟩, fun h => h.elim (fun h => absurd h.1 (by simp)) And.right⟩

end

/-! ### A parameter above a private broker -/

instance : DecidableEq (natDesign Unit true).CciValue := inferInstanceAs (DecidableEq ℕ)

/-- A parameter of the global broker; the private broker 1 below it exposes nothing. -/
def globalWatchers : ChainWatchers (natDesign Unit true) :=
  ⟨fun _ => 0, fun _ _ => pure (), 0, some ⟨1, "top"⟩⟩

/-- The parameter is constructed. -/
def globalWorld (I : Interp (natDesign Unit true) (BrokerChain Unit ℕ)) :
    ChainWorld (natDesign Unit true) :=
  let chain : BrokerChain Unit ℕ := fun _ => {}
  let w := natWorld true (fun _ => "") (fun _ => 0) .unknown chain
  (globalWatchers.construct I () () ⟨"top.p", (5 : ℕ), .named "owner", 1⟩ w).2

/-- The private broker hands out a valid handle, and by name it reports that it cannot find the
parameter. -/
theorem value_by_name_missed :
    ¬∀ (L : ChainWatchers (natDesign Unit true))
      (I : Interp (natDesign Unit true) (BrokerChain Unit ℕ)) (w : ChainWorld (natDesign Unit true))
      (i : ℕ) (n : String) (o : CciOriginator) (p : Unit),
      handleParam w i n o = some p → ReadsAlike L I w i n o p := by
  intro h
  let I : Interp (natDesign Unit true) (BrokerChain Unit ℕ) := ⟨fun _ _ => Eff.diverge, 0⟩
  let o : CciOriginator := .object ⟨1, "top"⟩
  have hvalid : (handleParam (globalWorld I) 1 "top.p" o).isSome = true := by decide +kernel
  obtain ⟨⟨⟩, hhandle⟩ := Option.isSome_iff_exists.1 hvalid
  have hread : (CciParamTyped.getCciValue I () o (globalWorld I)).1 = .ok (5 : ℕ) := by
    decide +kernel
  have hname : ((globalWatchers.env I (globalWorld I)).getCciValue "top.p" 1 o (globalWorld I)).1 =
      .throw (getParamFailed "Unable to find the parameter to get value") := by
    decide +kernel
  have halike := h globalWatchers I (globalWorld I) 1 "top.p" o () hhandle
  have hok := (halike.value (5 : ℕ) hread).2
  rw [hname] at hok
  cases hok

end ChainWatchers

end Cci
