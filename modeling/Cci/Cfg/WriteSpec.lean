import Cci.Cfg.Closure

/-!
# What a write checks before it starts

`set_raw_value` has two gates before the pre-write callbacks: mutability and the key.  A write that
does not pass them only reports.

* `writeRefusal` — the report of the gate that refuses a write, if one does;
* `rawWrite` — the rest of `set_raw_value`;
* `gates_run`, `setRawValue_eq` — the two together.
-/

namespace Cci

open Effect CciParamTyped

variable {D : Design} {B : Type}

/-- Report, and answer that the write did not go through. -/
def refuse (r : Report) : CciM D B Bool := do
  reportError r
  pure false

theorem Reports.refuse {K : (α : Type) → CciM D B α → CciM D B α → Prop} (hK : Reports K)
    (r : Report) : K Bool (refuse r) (refuse r) :=
  hK.bind (hK.reportError r) fun _ => hK.pure false

theorem reportError_run (r : Report) (w : World D B) :
    reportError r w = (if D.throws then .throw r else .ok (), w.record (.report r)) := by
  simp only [reportError, log, Eff.modify_bind_run]
  split <;> rfl

theorem refuse_run (r : Report) (w : World D B) :
    refuse r w = (if D.throws then .throw r else .ok false, w.record (.report r)) := by
  by_cases h : D.throws = true <;> simp [refuse, Eff.bind_run, reportError_run, h]

/-- Past a refused gate nothing runs. -/
theorem refuse_bind (r : Report) (k : CciM D B Bool) (w : World D B) :
    (refuse r >>= fun passed => if !passed then pure false else k) w = refuse r w := by
  by_cases h : D.throws = true <;> simp [Eff.bind_run, refuse_run, h]

theorem refuse_store (r : Report) (w : World D B) : (refuse r w).2.store = w.store := by
  rw [refuse_run]
  rfl

/-- `cci_value_cref::get<T>()` comes back to its caller. -/
def Converts (p : D.Param) (c : D.CciValue) : Prop :=
  (D.unpack p (D.uninit p) c).1 = true ∨ D.throws = false

/-- The report of the gate of `set_raw_value` that refuses a write with the key `pwd`. -/
def writeRefusal (p : D.Param) (pwd : Option ℕ) (q : CciParam (D.Value p)) : Option Report :=
  if D.mutableType p = .immutableParam then
    some (setParamFailed ("Parameter (" ++ q.mName ++ ") is immutable."))
  else
    match pwd with
    | none => if CciParamUntyped.isLocked q then some (setParamFailed "Parameter locked.") else none
    | some key => if some key ≠ q.mLockPwd then some (setParamFailed "Wrong key.") else none

/-- The common tail of an accepted write and of a preset: the assignments and the post-write
callbacks. -/
def commit (I : Interp D B) (p : D.Param) (value : D.Value p) (originator : CciOriginator)
    (oldValue : D.Value p) : CciM D B Unit := do
  CciParamTyped.store p value originator
  postWriteCallback I p oldValue value originator

/-- The commit of a write, with the recomputation of `fast_write`. -/
def finishWrite (I : Interp D B) (p : D.Param) (value : D.Value p) (originator : CciOriginator)
    (oldValue : D.Value p) : CciM D B Bool := do
  commit I p value originator oldValue
  modifyParam p fun q => { q with fastWrite := fastWriteAllowed p originator q }
  pure true

/-- `set_raw_value` past its gates. -/
def rawWrite (I : Interp D B) (p : D.Param) (value : D.Value p) (originator : CciOriginator) :
    CciM D B Bool := do
  if !(← preWriteCallback I p value originator) then pure false
  else
    let oldValue := (← getParam p).mValue
    finishWrite I p value originator oldValue

/-- A preset or a default value: the write that checks neither mutability nor key and leaves
`fast_write` alone. -/
def applyValue (I : Interp D B) (p : D.Param) (value : D.Value p) (originator : CciOriginator)
    (oldValue : CciParam (D.Value p) → D.Value p) : CciM D B Bool := do
  if !(← preWriteCallback I p value originator) then pure false
  else
    let q ← getParam p
    commit I p value originator (oldValue q)
    pure true

/-- The object after the two assignments of a write. -/
def stored {p : D.Param} (v : D.Value p) (o : CciOriginator) (q : CciParam (D.Value p)) :
    CciParam (D.Value p) := { q with mValue := v, mValueOrigin := o }

theorem store_run (p : D.Param) (v : D.Value p) (o : CciOriginator) (w : World D B) :
    CciParamTyped.store p v o w = (.ok (), w.setParam p (stored v o (w.param p))) := by
  simp only [CciParamTyped.store, modifyParam, Eff.modify_bind_run, Eff.modify_run,
    World.param_setParam, World.setParam_setParam]
  rfl

theorem commit_run (I : Interp D B) (p : D.Param) (v : D.Value p) (o : CciOriginator)
    (oldValue : D.Value p) (w : World D B) :
    commit I p v o oldValue w =
      postWriteCallback I p oldValue v o (w.setParam p (stored v o (w.param p))) := by
  rw [commit, Eff.bind_run_ok (store_run p v o w)]

/-- A pre-write dispatch that lets a write pass was not already running. -/
theorem preWriteCallback_passed {I : Interp D B} {p : D.Param} {v : D.Value p} {o : CciOriginator}
    {w t : World D B} (h : preWriteCallback I p v o w = (.ok true, t)) :
    (w.param p).oncall .preWrite = false := by
  by_contra hc
  rw [preWriteCallback_eq_guarded, guarded_skip (by simpa using hc)] at h
  cases h

/-- A write that the pre-write dispatch does not let pass ends with it. -/
theorem rawWrite_stopped {I : Interp D B} {p : D.Param} {v : D.Value p} {o : CciOriginator}
    {w t : World D B} {out : Outcome Report Bool} (h : preWriteCallback I p v o w = (out, t))
    (hout : out ≠ .ok true) : rawWrite I p v o w = (out, t) := by
  rw [rawWrite, Eff.bind_run, h]
  rcases out with (_ | _) | _ | _ | _
  · rfl
  · exact absurd rfl hout
  · rfl
  · rfl
  · rfl

theorem rawWrite_passed {I : Interp D B} {p : D.Param} {v : D.Value p} {o : CciOriginator}
    {w t : World D B} (h : preWriteCallback I p v o w = (.ok true, t)) :
    rawWrite I p v o w = finishWrite I p v o (t.param p).mValue t := by
  rw [rawWrite, Eff.bind_run_ok h]
  rfl

/-- Without post-write callbacks a commit is its two assignments. -/
theorem commit_quiet {p : D.Param} {w : World D B} (hvec : (w.param p).vec .postWrite = [])
    (I : Interp D B) (v : D.Value p) (o : CciOriginator) (oldValue : D.Value p) :
    ∃ t, commit I p v o oldValue w = (.ok (), t) ∧
      t.store = (w.setParam p (stored v o (w.param p))).store ∧
      t.trace.filter TraceEvent.plain = w.trace.filter TraceEvent.plain := by
  rw [commit_run, postWriteCallback, observe_eq_guarded]
  cases hg : ((w.setParam p (stored v o (w.param p))).param p).oncall .postWrite with
  | true =>
    rw [guarded_skip hg]
    exact ⟨_, rfl, rfl, rfl⟩
  | false =>
    have hvec₁ : ((w.setParam p (stored v o (w.param p))).param p).vec .postWrite = [] := by
      rw [World.param_setParam]
      exact hvec
    rw [guarded_empty hg hvec₁]
    refine ⟨_, rfl, rfl, ?_⟩
    rw [World.trace_record, List.filter_append]
    exact List.append_nil _

/-- Without pre-write callbacks a write passes. -/
theorem preWriteCallback_quiet {p : D.Param} {w : World D B}
    (hpre : (w.param p).oncall .preWrite = false) (hvec : (w.param p).vec .preWrite = [])
    (I : Interp D B) (v : D.Value p) (o : CciOriginator) :
    preWriteCallback I p v o w = (.ok true, w.record (.dispatch p .preWrite w.stack)) := by
  rw [preWriteCallback_eq_guarded, guarded_empty hpre hvec]

theorem applyValue_stopped {I : Interp D B} {p : D.Param} {v : D.Value p} {o : CciOriginator}
    {old : CciParam (D.Value p) → D.Value p} {w t : World D B} {out : Outcome Report Bool}
    (h : preWriteCallback I p v o w = (out, t)) (hout : out ≠ .ok true) :
    applyValue I p v o old w = (out, t) := by
  rw [applyValue, Eff.bind_run, h]
  rcases out with (_ | _) | _ | _ | _
  · rfl
  · exact absurd rfl hout
  · rfl
  · rfl
  · rfl

theorem applyValue_passed {I : Interp D B} {p : D.Param} {v : D.Value p} {o : CciOriginator}
    {old : CciParam (D.Value p) → D.Value p} {w t : World D B}
    (h : preWriteCallback I p v o w = (.ok true, t)) :
    applyValue I p v o old w = (commit I p v o (old (t.param p)) >>= fun _ => pure true) t := by
  rw [applyValue, Eff.bind_run_ok h]
  rfl

theorem finishWrite_ok {I : Interp D B} {p : D.Param} {v : D.Value p} {o : CciOriginator}
    {oldValue : D.Value p} {w t : World D B} (h : commit I p v o oldValue w = (.ok (), t)) :
    finishWrite I p v o oldValue w = (.ok true, t.setParam p
      { t.param p with fastWrite := fastWriteAllowed p o (t.param p) }) := by
  rw [finishWrite, Eff.bind_run_ok h]
  rfl

/-- A commit that throws has run a post-write callback. -/
theorem commit_throw {I : Interp D B} {p : D.Param} {v : D.Value p} {o : CciOriginator}
    {oldValue : D.Value p} {w t : World D B} {e : Report}
    (h : commit I p v o oldValue w = (.throw e, t)) : (w.param p).vec .postWrite ≠ [] := by
  intro hvec
  obtain ⟨u, hu, -⟩ := commit_quiet hvec I v o oldValue
  rw [hu] at h
  cases h

theorem cciValueGet_run (p : D.Param) (c : D.CciValue) (w : World D B) :
    cciValueGet p c w =
      if (D.unpack p (D.uninit p) c).1 then (.ok (D.unpack p (D.uninit p) c).2, w)
      else (if D.throws then .throw (cciValueFailure "conversion from cci_value failed")
          else .ok (D.unpack p (D.uninit p) c).2,
        w.record (.report (cciValueFailure "conversion from cci_value failed"))) := by
  by_cases hu : (D.unpack p (D.uninit p) c).1 = true
  · simp [cciValueGet, hu]
  · by_cases ht : D.throws = true <;> simp [cciValueGet, hu, Eff.bind_run, reportError_run, ht]

theorem cciValueGet_store (p : D.Param) (c : D.CciValue) (w : World D B) :
    (cciValueGet p c w).2.store = w.store := by
  rw [cciValueGet_run]
  split <;> rfl

theorem cciValueGet_param {p : D.Param} {c : D.CciValue} {w t : World D B}
    {o : Outcome Report (D.Value p)} (h : cciValueGet p c w = (o, t)) (r : D.Param) :
    t.param r = w.param r := by
  have hstore := cciValueGet_store p c w
  rw [h] at hstore
  exact congrArg (fun s : Store D B => s.params r) hstore

theorem cciValueGet_of_converts {p : D.Param} {c : D.CciValue} (h : Converts p c) (w : World D B) :
    ∃ t, cciValueGet p c w = (.ok (D.unpack p (D.uninit p) c).2, t) ∧ t.store = w.store := by
  rw [cciValueGet_run]
  split
  · exact ⟨_, rfl, rfl⟩
  · rename_i hu
    rw [h.resolve_left hu]
    exact ⟨_, rfl, rfl⟩

/-- A conversion whose failure is thrown. -/
theorem cciValueGet_fails {p : D.Param} {c : D.CciValue} (h : ¬Converts p c) (w : World D B) :
    ∃ e t, cciValueGet p c w = (.throw e, t) ∧ t.store = w.store := by
  obtain ⟨hu, ht⟩ := not_or.1 h
  rw [cciValueGet_run, if_neg hu, if_pos (by simpa using ht)]
  exact ⟨_, _, rfl, rfl⟩

/-- A conversion that came back did not fail, or its report does not throw. -/
theorem cciValueGet_ok {p : D.Param} {c : D.CciValue} {w t : World D B} {v : D.Value p}
    (h : cciValueGet p c w = (.ok v, t)) : Converts p c := by
  rw [cciValueGet_run] at h
  split at h
  · exact .inl ‹_›
  · cases ht : D.throws with
    | true =>
      rw [ht] at h
      cases h
    | false => exact .inr ht

theorem setCciValueAllowed_run (p : D.Param) (w : World D B) :
    setCciValueAllowed p w = if D.mutableType p = .immutableParam then
        refuse (setParamFailed ("Parameter (" ++ (w.param p).mName ++ ") is immutable.")) w
      else (.ok true, w) := by
  simp only [setCciValueAllowed]
  split <;> rfl

theorem keyAccepted_run (p : D.Param) (pwd : Option ℕ) (w : World D B) :
    keyAccepted p pwd w = match pwd with
      | none => if CciParamUntyped.isLocked (w.param p) then
          refuse (setParamFailed "Parameter locked.") w else (.ok true, w)
      | some key => if some key ≠ (w.param p).mLockPwd then
          refuse (setParamFailed "Wrong key.") w else (.ok true, w) := by
  simp only [keyAccepted, getParam, Eff.gets_bind_run]
  cases pwd with
  | none => simp only []; split <;> rfl
  | some key => simp only []; split <;> rfl

/-- The two gates in front of the rest `k` of a write. -/
theorem gates_run (p : D.Param) (pwd : Option ℕ) (k : CciM D B Bool) (w : World D B) :
    (setCciValueAllowed p >>= fun allowed => if !allowed then pure false
      else keyAccepted p pwd >>= fun accepted => if !accepted then pure false else k) w =
      match writeRefusal p pwd (w.param p) with
        | some r => refuse r w
        | none => k w := by
  have hgate : ∀ (m k : CciM D B Bool), (∃ r, m w = refuse r w) →
      (m >>= fun passed => if !passed then pure false else k) w = m w := by
    rintro m k ⟨r, hr⟩
    rw [Eff.bind_run, hr]
    exact refuse_bind r k w
  have hpass : ∀ (m k : CciM D B Bool), m w = (.ok true, w) →
      (m >>= fun passed => if !passed then pure false else k) w = k w := by
    intro m k hm
    rw [Eff.bind_run_ok hm]
    rfl
  unfold writeRefusal
  by_cases hm : D.mutableType p = .immutableParam
  · have hrun : setCciValueAllowed p w = refuse _ w := (setCciValueAllowed_run p w).trans (if_pos hm)
    rw [hgate _ _ ⟨_, hrun⟩, hrun, if_pos hm]
  · have hrun : setCciValueAllowed p w = (.ok true, w) :=
      (setCciValueAllowed_run p w).trans (if_neg hm)
    rw [hpass _ _ hrun, if_neg hm]
    have hkey := keyAccepted_run p pwd w
    cases pwd with
    | none =>
      by_cases hl : CciParamUntyped.isLocked (w.param p) = true
      · have hk : keyAccepted p none w = refuse _ w := hkey.trans (if_pos hl)
        rw [hgate _ _ ⟨_, hk⟩, hk]
        simp only [hl, if_true]
      · rw [hpass _ _ (hkey.trans (if_neg hl))]
        simp only [hl]
        rfl
    | some key =>
      by_cases hl : some key ≠ (w.param p).mLockPwd
      · have hk : keyAccepted p (some key) w = refuse _ w := hkey.trans (if_pos hl)
        rw [hgate _ _ ⟨_, hk⟩, hk]
        simp only [hl, ne_eq, not_false_eq_true, if_true]
      · rw [hpass _ _ (hkey.trans (if_neg hl))]
        simp only [hl, if_false]

theorem setRawValue_eq (I : Interp D B) (p : D.Param) (value : D.Value p) (pwd : Option ℕ)
    (originator : CciOriginator) (w : World D B) :
    setRawValue I p value pwd originator w = match writeRefusal p pwd (w.param p) with
      | some r => refuse r w
      | none => rawWrite I p value originator w :=
  gates_run p pwd (rawWrite I p value originator) w

theorem setValue_slow {p : D.Param} {w : World D B} (hf : (w.param p).fastWrite = false)
    (I : Interp D B) (v : D.Value p) :
    setValue I p v w = setRawValue I p v none (w.param p).mOriginator w := by
  simp only [setValue, getParam, Eff.gets_bind_run, hf, Bool.false_eq_true, if_false]

theorem setValue_fast {p : D.Param} {w : World D B} (hf : (w.param p).fastWrite = true)
    (I : Interp D B) (v : D.Value p) :
    setValue I p v w = (.ok true, w.setParam p { w.param p with mValue := v }) := by
  show (if (w.param p).fastWrite then
      (modifyParam p (fun q => { q with mValue := v }) >>= fun _ => pure true : CciM D B Bool)
    else setRawValue I p v none (w.param p).mOriginator) w = _
  rw [if_pos hf]
  rfl

theorem presetCciValue_eq (I : Interp D B) (p : D.Param) (c : D.CciValue) (o : CciOriginator)
    (w : World D B) : presetCciValue I p c o w =
      (cciValueGet p c >>= fun v => applyValue I p v o fun _ => (w.param p).mValue) w := by
  simp only [presetCciValue, applyValue, commit, getParam, Eff.gets_bind_run]
  simp only [Eff.bind_run]
  rcases cciValueGet p c w with ⟨v | e | _ | _, t⟩
  · rcases preWriteCallback I p v o t with ⟨b | e | _ | _, u⟩
    · cases b <;> rfl
    · rfl
    · rfl
    · rfl
  · rfl
  · rfl
  · rfl

theorem reset_eq [CciBrokerIf B D.BrokerHandle D.CciValue] (I : Interp D B) (p : D.Param)
    (w : World D B) : reset I p w =
      if CciParamUntyped.isLocked (w.param p) then (.ok false, w)
      else if CciBrokerIf.hasPresetValue w.store.broker (w.store.mBrokerHandle p)
          (w.param p).mName then
        (presetCciValue I p
          (CciBrokerIf.getPresetCciValue w.store.broker (w.store.mBrokerHandle p) (w.param p).mName)
          (CciBrokerIf.getPresetValueOrigin w.store.broker (w.store.mBrokerHandle p)
            (w.param p).mName) >>= fun _ => pure true) w
      else applyValue I p (w.param p).mDefaultValue (w.param p).mOriginator (fun q => q.mValue) w := by
  simp only [reset, Eff.get_bind_run]
  split
  · rfl
  · split
    · rfl
    · simp only [applyValue, commit, getParam, Eff.gets_bind_run]
      rfl

end Cci
