import Cci.Cfg.FastFlags
import Cci.Cfg.Unchanged

/-!
# Resetting a parameter

`reset` applies the preset of the broker, or the default value if there is none, and tells whether
it did so.

* `Frozen` — inside the pre-write dispatch nothing changes what a parameter shows;
* `preWriteCallback_same` — so a write that is vetoed there leaves it as it was;
* `World.initialValue`, `World.initialOrigin` — what a reset restores;
* `reset_run` — a reset of an unlocked parameter, as far as its callbacks let it come;
* `reset_truthful_exact` — when its answer is truthful.
-/

namespace Cci

open Effect CciParamTyped

variable {D : Design} {B : Type}

/-! ### Inside the pre-write dispatch -/

/-- The pre-write list is being dispatched, the fast path is closed, and the parameter shows `x`. -/
structure Frozen {T : Type} (x : T × CciOriginator) (q : CciParam T) : Prop where
  guard : q.oncall .preWrite = true
  slow : q.fastWrite = false
  shown : q.shown = x

/-- `p` is frozen, and its post-write callbacks were told `es` so far. -/
structure FrozenIn (p : D.Param) (x : D.Value p × CciOriginator)
    (es : List (CallbackObj × ParamEvent (D.Value p))) (w : World D B) : Prop where
  param : Frozen x (w.param p)
  postWrites : w.postWrites p = es

section

variable {p : D.Param} {x : D.Value p × CciOriginator}
variable {es : List (CallbackObj × ParamEvent (D.Value p))}

/-- `m` keeps `p` frozen. -/
abbrev KeepsFrozen {α : Type} (p : D.Param) (x : D.Value p × CciOriginator)
    (es : List (CallbackObj × ParamEvent (D.Value p))) (m : CciM D B α) : Prop :=
  Keeps (FrozenIn p x es) m

theorem FrozenIn.record {w : World D B} (h : FrozenIn p x es w) {e : TraceEvent D B}
    (he : e.postWrite? p = none) : FrozenIn p x es (w.record e) := by
  refine ⟨h.param, ?_⟩
  rw [World.postWrites_record, he, h.postWrites]
  exact List.append_nil es

theorem modifyParam_frozen {r : D.Param} {f : CciParam (D.Value r) → CciParam (D.Value r)}
    (hf : ∀ (x : D.Value r × CciOriginator) (q : CciParam (D.Value r)),
      Frozen x q → Frozen x (f q)) :
    KeepsFrozen p x es (modifyParam r f : CciM D B Unit) := by
  refine Keeps.modify fun w hw => ⟨?_, hw.postWrites⟩
  by_cases hr : p = r
  · subst hr
    rw [World.param_setParam]
    exact hf x _ hw.param
  · rw [World.param_setParam_of_ne w _ hr]
    exact hw.param

theorem modifyParam_frozen_of_ne {r : D.Param} (hr : r ≠ p)
    (f : CciParam (D.Value r) → CciParam (D.Value r)) :
    KeepsFrozen p x es (modifyParam r f : CciM D B Unit) := by
  refine Keeps.modify fun w hw => ⟨?_, hw.postWrites⟩
  rw [World.param_setParam_of_ne w _ (Ne.symm hr)]
  exact hw.param

theorem frozen_reports : Reports fun α (m _ : CciM D B α) => KeepsFrozen p x es m where
  toPlumbing := Keeps.plumbing _
  report _ := Keeps.modify fun _ hw => hw.record rfl

/-- Setting or clearing another guard. -/
theorem Frozen.setOncall {T : Type} {y : T × CciOriginator} {q : CciParam T} (h : Frozen y q)
    {k : CallbackKind} (hk : k ≠ .preWrite) (b : Bool) : Frozen y (q.setOncall k b) := by
  refine ⟨?_, h.slow, h.shown⟩
  rw [CciParam.oncall_setOncall, if_neg (Ne.symm hk)]
  exact h.guard

/-- The dispatch of any list but the pre-write list of `p`. -/
theorem frozen_scopedTrue {α : Type} {r : D.Param} {k : CallbackKind}
    (hrk : ¬(r = p ∧ k = .preWrite)) {m : CciM D B α} (hm : KeepsFrozen p x es m) :
    KeepsFrozen p x es (scopedTrue r k m) := by
  have hguard : ∀ (w : World D B) (b : Bool), FrozenIn p x es w →
      FrozenIn p x es (w.setParam r ((w.param r).setOncall k b)) := by
    intro w b hw
    refine ⟨?_, hw.postWrites⟩
    by_cases hr : r = p
    · subst hr
      rw [World.param_setParam]
      exact hw.param.setOncall (fun hk => hrk ⟨rfl, hk⟩) b
    · rw [World.param_setParam_of_ne w _ (Ne.symm hr)]
      exact hw.param
  have hrecord : ∀ (w : World D B) (e : TraceEvent D B) stack, e.postWrite? p = none →
      FrozenIn p x es w → FrozenIn p x es { w.record e with stack := stack } :=
    fun w e stack he hw => ⟨hw.param, (hw.record he).postWrites⟩
  refine Keeps.bind (Keeps.modify fun w hw => ?_) fun _ => Keeps.finalizing (fun w hw => ?_) hm
  · exact hrecord _ _ _ rfl (hguard w true hw)
  · exact ⟨(hguard w false hw).param, hw.postWrites⟩

theorem frozen_closed {I : Interp D B} (hcall : ∀ f ev, KeepsFrozen p x es (I.call f ev)) :
    Closed I I (fun r k => ¬(r = p ∧ k = .postWrite)) (fun _ m _ => KeepsFrozen p x es m)
      (fun _ m _ => KeepsFrozen p x es m) where
  outer := frozen_reports
  inner := frozen_reports
  call := hcall
  invoked _ _ hrk entry ev := Keeps.modify fun _ hw =>
    hw.record (TraceEvent.postWrite?_invoked hrk entry ev)
  guarded r k init skip _ hact := by
    by_cases hrk : r = p ∧ k = .preWrite
    · obtain ⟨rfl, rfl⟩ := hrk
      intro w hw
      rw [guarded_skip hw.param.guard]
      exact hw
    · exact Keeps.bind (Keeps.gets _) fun _ => Keeps.ite (Keeps.pure skip)
        (frozen_scopedTrue hrk (Keeps.forEach hact _ _ init))
  fastRead _ := modifyParam_frozen fun _ _ h => ⟨h.guard, h.slow, h.shown⟩

theorem frozen_stores {r : D.Param} (hr : r ≠ p) :
    Stores (fun α (m _ : CciM D B α) => KeepsFrozen p x es m) r where
  value _ := modifyParam_frozen_of_ne hr _
  origin _ := modifyParam_frozen_of_ne hr _
  fastWrite _ := modifyParam_frozen_of_ne hr _

/-- A write of the frozen parameter stops at its guard. -/
theorem preWriteCallback_frozen (I : Interp D B) {w : World D B} (hw : FrozenIn p x es w)
    (v : D.Value p) (o : CciOriginator) : preWriteCallback I p v o w = (.ok false, w) := by
  rw [preWriteCallback_eq_guarded, guarded_skip hw.param.guard]

theorem setRawValue_frozen (I : Interp D B) (v : D.Value p) (pwd : Option ℕ) (o : CciOriginator) :
    KeepsFrozen p x es (setRawValue I p v pwd o) := by
  intro w hw
  rw [setRawValue_eq]
  cases writeRefusal p pwd (w.param p) with
  | some r => exact frozen_reports.refuse r w hw
  | none =>
    simp only [rawWrite_stopped (preWriteCallback_frozen I hw v o) (by simp)]
    exact hw

theorem presetCciValue_frozen (I : Interp D B) (c : D.CciValue) (o : CciOriginator) :
    KeepsFrozen p x es (presetCciValue I p c o) := by
  intro w hw
  rw [presetCciValue_eq]
  refine Keeps.bind (frozen_reports.cciValueGet p c) (fun v u hu => ?_) w hw
  rw [applyValue_stopped (preWriteCallback_frozen I hu v o) (by simp)]
  exact hu

variable [CciBrokerIf B D.BrokerHandle D.CciValue]

theorem reset_frozen (I : Interp D B) : KeepsFrozen p x es (reset I p) := by
  intro w hw
  rw [reset_eq]
  split
  · exact hw
  · split
    · exact Keeps.bind (presetCciValue_frozen I _ _) (fun _ => Keeps.pure true) w hw
    · rw [applyValue_stopped (preWriteCallback_frozen I hw _ _) (by simp)]
      exact hw

theorem frozen_administers : Administers fun α (m _ : CciM D B α) => KeepsFrozen p x es m where
  lock _ pwd := modifyParam_frozen fun y q h => by
    obtain ⟨hslow, -, hvec⟩ := fastFlags_lock pwd q
    refine ⟨?_, hslow, (shown_lock pwd q).trans h.shown⟩
    rw [CciParam.oncall, hvec]
    exact h.guard
  unlock _ pwd := modifyParam_frozen fun y q h => by
    unfold CciParamUntyped.unlock
    split
    · exact ⟨h.guard, h.slow, h.shown⟩
    · exact h
  setPreset := frozen_reports.setPreset fun _ => Keeps.modify fun _ hw => ⟨hw.param, hw.postWrites⟩

omit [CciBrokerIf B D.BrokerHandle D.CciValue] in
theorem frozen_registers : Registers fun α (m _ : CciM D B α) => KeepsFrozen p x es m where
  register _ k cb o := modifyParam_frozen fun _ q h =>
    ⟨(oncall_registerCallback k cb o q _).trans h.guard, rfl, h.shown⟩
  registerOwn _ k cb := modifyParam_frozen fun _ q h =>
    ⟨(oncall_registerCallback k cb _ _ _).trans h.guard, rfl, h.shown⟩
  unregister _ k cb o := modifyParam_frozen fun _ q h => by
    refine ⟨(oncall_unregisterCallback k cb o q _).trans h.guard, ?_,
      (shown_unregisterCallback k cb o q).trans h.shown⟩
    unfold CciParamUntyped.unregisterCallback
    split
    · exact h.slow
    · exact h.slow
  unregisterAll _ o := modifyParam_frozen fun _ q h =>
    ⟨(oncall_unregisterAllCallbacks o q _).trans h.guard, h.slow, h.shown⟩

/-- Every command keeps the parameter frozen, if the callback bodies do. -/
theorem run_frozen {I : Interp D B} (hcall : ∀ f ev, KeepsFrozen p x es (I.call f ev)) (c : Cmd D) :
    KeepsFrozen p x es (c.run I) := by
  have hans : ∀ {α : Type} {m : CciM D B α} (f : α → Answer D), KeepsFrozen p x es m →
      KeepsFrozen p x es (m >>= fun a => pure (f a)) :=
    fun f hm => Keeps.bind hm fun a => Keeps.pure (f a)
  by_cases hc : c.writes p
  · cases c with
    | setValue r v =>
      cases hc
      refine hans _ fun w hw => ?_
      rw [setValue_slow hw.param.slow]
      exact setRawValue_frozen I v none _ w hw
    | setValuePwd r v pwd =>
      cases hc
      exact hans _ (Keeps.bind (Keeps.gets _) fun _ => setRawValue_frozen I v pwd _)
    | handleSetValue r v pwd o =>
      cases hc
      exact hans _ (setRawValue_frozen I v pwd o)
    | setCciValue r c pwd o =>
      cases hc
      exact hans _ (Keeps.bind (frozen_reports.cciValueGet _ c) fun v =>
        setRawValue_frozen I v pwd o)
    | reset r =>
      cases hc
      exact hans _ (reset_frozen I)
    | _ => cases hc
  · refine (frozen_closed hcall).run_all (fun r => ⟨by simp, by simp⟩) c (fun r hr => ?_)
      frozen_administers frozen_registers
    have hrp : r ≠ p := fun h => hc (h ▸ hr)
    exact ⟨frozen_stores hrp, fun h => hrp h.1, fun h => hrp h.1⟩

theorem exec_frozen {I : Interp D B} (hcall : ∀ f ev, KeepsFrozen p x es (I.call f ev)) (c : Cmd D) :
    KeepsFrozen p x es (exec I c) :=
  Keeps.bind (Keeps.modify fun _ hw => hw.record rfl) fun _ =>
    Keeps.finalizing (fun _ hw => hw.record rfl) (run_frozen hcall c)

theorem interp_frozen (Γ : CallbackImpl → Payload D → Prog D) (n : ℕ) (f : CallbackImpl)
    (ev : Payload D) : KeepsFrozen p x es ((interp Γ n : Interp D B).call f ev) := by
  induction n generalizing f ev with
  | zero => exact Keeps.diverge
  | succ n ih =>
    exact frozen_reports.runProg (interp Γ n) (interp Γ n) (fun _ => True)
      (fun c _ => exec_frozen ih c) (Γ f ev).all_true

/-- Whatever the pre-write callbacks do, and however the dispatch ends, the parameter shows what it
showed before, and no post-write callback of it has been told anything. -/
theorem preWriteCallback_same (Γ : CallbackImpl → Payload D → Prog D) (n : ℕ) {w : World D B}
    (hs : FastFlagsSound p (w.param p)) (v : D.Value p) (o : CciOriginator) :
    Same p CciParam.shown w (preWriteCallback (interp Γ n) p v o w).2 := by
  rw [preWriteCallback_eq_guarded]
  cases hg : (w.param p).oncall .preWrite with
  | true =>
    rw [guarded_skip hg]
    exact ⟨rfl, rfl⟩
  | false =>
    by_cases hvec : (w.param p).vec .preWrite = []
    · rw [guarded_empty hg hvec]
      refine ⟨rfl, ?_⟩
      rw [World.postWrites_record]
      exact List.append_nil _
    · -- With a pre-write callback the fast path is closed, so the dispatch freezes the parameter.
      have hslow : (w.param p).fastWrite = false := by
        by_contra hf
        exact hvec (hs.write (by simpa using hf)).2.2.1
      have henter : FrozenIn p (w.param p).shown (w.postWrites p) (enterDispatch p .preWrite w) := by
        refine ⟨?_, ?_⟩
        · rw [param_enterDispatch]
          refine ⟨?_, hslow, rfl⟩
          rw [CciParam.oncall_setOncall, if_pos rfl]
        · refine (World.postWrites_record p (w.setParam p ((w.param p).setOncall .preWrite true))
            (.dispatch p .preWrite w.stack)).trans ?_
          exact List.append_nil _
      have hinterp : ∀ f ev, KeepsFrozen p (w.param p).shown (w.postWrites p)
          ((interp Γ n : Interp D B).call f ev) := interp_frozen Γ n
      have hclosed := frozen_closed hinterp
      have hloop : KeepsFrozen p (w.param p).shown (w.postWrites p)
          (Eff.forEach (entryAt p .preWrite) (preWriteEntry (interp Γ n) p v o)
            (interp Γ n : Interp D B).fuel 0 true : CciM D B Bool) :=
        Keeps.forEach (fun e a => hclosed.preWriteEntry (by simp) v o e a) _ 0 true
      have hend := hloop _ henter
      rw [guarded_open hg]
      simp only [dispatch, scopedTrue, Eff.modify_bind_run, Eff.finalizing]
      rcases hr : (Eff.forEach (entryAt p .preWrite) (preWriteEntry (interp Γ n) p v o)
        (interp Γ n : Interp D B).fuel 0 true : CciM D B Bool) (enterDispatch p .preWrite w) with
        ⟨_ | _ | _ | _, t⟩ <;> rw [hr] at hend
      · refine ⟨?_, hend.postWrites⟩
        rw [param_leaveDispatch]
        exact hend.param.shown
      · refine ⟨?_, hend.postWrites⟩
        rw [param_leaveDispatch]
        exact hend.param.shown
      · exact ⟨hend.param.shown, hend.postWrites⟩
      · exact ⟨hend.param.shown, hend.postWrites⟩

end

/-! ### What a reset restores -/

section

variable [CciBrokerIf B D.BrokerHandle D.CciValue]

namespace World

/-- `m_broker_handle.has_preset_value(name())`. -/
def hasPreset (w : World D B) (p : D.Param) : Bool :=
  CciBrokerIf.hasPresetValue w.store.broker (w.store.mBrokerHandle p) (w.param p).mName

/-- `m_broker_handle.get_preset_cci_value(name())`. -/
def preset (w : World D B) (p : D.Param) : D.CciValue :=
  CciBrokerIf.getPresetCciValue w.store.broker (w.store.mBrokerHandle p) (w.param p).mName

/-- What `get<T>()` makes of the preset, or the default value if there is no preset. -/
def initialValue (w : World D B) (p : D.Param) : D.Value p :=
  if w.hasPreset p then (D.unpack p (D.uninit p) (w.preset p)).2 else (w.param p).mDefaultValue

/-- The origin of the preset, or the parameter's own originator. -/
def initialOrigin (w : World D B) (p : D.Param) : CciOriginator :=
  if w.hasPreset p then
    CciBrokerIf.getPresetValueOrigin w.store.broker (w.store.mBrokerHandle p) (w.param p).mName
  else (w.param p).mOriginator

/-- The preset, if there is one, is a value of the type of the parameter. -/
def Convertible (w : World D B) (p : D.Param) : Prop :=
  w.hasPreset p = true → (D.unpack p (D.uninit p) (w.preset p)).1 = true

/-- The state after the conversion of the preset. -/
def converted (w : World D B) (p : D.Param) : World D B :=
  if w.hasPreset p then (cciValueGet p (w.preset p) w).2 else w

theorem store_converted (w : World D B) (p : D.Param) : (w.converted p).store = w.store := by
  unfold converted
  split
  · exact cciValueGet_store p _ w
  · rfl

end World

/-- A reset of an unlocked parameter whose preset does not fail to convert by an exception: the
verdict of the pre-write callbacks, then the commit.  A refused preset is answered with `true`. -/
theorem reset_run (I : Interp D B) (p : D.Param) {w : World D B}
    (hl : CciParamUntyped.isLocked (w.param p) = false)
    (hconv : w.hasPreset p = true → Converts p (w.preset p))
    (hshown : ∀ v o, ((preWriteCallback I p v o (w.converted p)).2.param p).shown =
      (w.param p).shown) :
    reset I p w = match preWriteCallback I p (w.initialValue p) (w.initialOrigin p)
        (w.converted p) with
      | (.ok true, s) => (commit I p (w.initialValue p) (w.initialOrigin p) (w.param p).mValue >>=
          fun _ => pure true) s
      | (.ok false, s) => (.ok (w.hasPreset p), s)
      | (.throw e, s) => (.throw e, s)
      | (.abort, s) => (.abort, s)
      | (.diverge, s) => (.diverge, s) := by
  have hold : ∀ v o b s, preWriteCallback I p v o (w.converted p) = (.ok b, s) →
      (s.param p).mValue = (w.param p).mValue := by
    intro v o b s hs
    have h := hshown v o
    rw [hs] at h
    exact congrArg Prod.fst h
  have hunlocked : ¬(CciParamUntyped.isLocked (w.param p) = true) := by
    rw [hl]
    exact Bool.false_ne_true
  cases hp : w.hasPreset p with
  | true =>
    obtain ⟨t, ht, -⟩ := cciValueGet_of_converts (hconv hp) w
    have hconverted : w.converted p = t := by rw [World.converted, if_pos hp, ht]
    have hvalue : w.initialValue p = (D.unpack p (D.uninit p) (w.preset p)).2 := by
      rw [World.initialValue, if_pos hp]
    have horigin : w.initialOrigin p = CciBrokerIf.getPresetValueOrigin w.store.broker
        (w.store.mBrokerHandle p) (w.param p).mName := by
      rw [World.initialOrigin, if_pos hp]
    rw [(reset_eq I p w).trans ((if_neg hunlocked).trans (if_pos hp)), ← horigin, hconverted, hvalue]
    have hpreset : presetCciValue I p (w.preset p) (w.initialOrigin p) w =
        applyValue I p (D.unpack p (D.uninit p) (w.preset p)).2 (w.initialOrigin p)
          (fun _ => (w.param p).mValue) t := by
      rw [presetCciValue_eq, Eff.bind_run_ok ht]
    show (presetCciValue I p (w.preset p) (w.initialOrigin p) >>= fun _ => pure true) w = _
    rw [Eff.bind_run, hpreset]
    rcases hr : preWriteCallback I p (D.unpack p (D.uninit p) (w.preset p)).2 (w.initialOrigin p) t
      with ⟨b | e | _ | _, s⟩
    · cases b with
      | true =>
        rw [applyValue_passed hr]
        simp only [Eff.bind_run]
        rcases commit I p (D.unpack p (D.uninit p) (w.preset p)).2 (w.initialOrigin p)
          (w.param p).mValue s with ⟨_ | _ | _ | _, u⟩ <;> rfl
      | false => rw [applyValue_stopped hr (by simp)]; rfl
    · rw [applyValue_stopped hr (by simp)]
    · rw [applyValue_stopped hr (by simp)]
    · rw [applyValue_stopped hr (by simp)]
  | false =>
    have hconverted : w.converted p = w := by
      rw [World.converted, if_neg (by rw [hp]; exact Bool.false_ne_true)]
    have hvalue : w.initialValue p = (w.param p).mDefaultValue := by
      rw [World.initialValue, if_neg (by rw [hp]; exact Bool.false_ne_true)]
    have horigin : w.initialOrigin p = (w.param p).mOriginator := by
      rw [World.initialOrigin, if_neg (by rw [hp]; exact Bool.false_ne_true)]
    have hnone : ¬(w.hasPreset p = true) := by
      rw [hp]
      exact Bool.false_ne_true
    rw [(reset_eq I p w).trans ((if_neg hunlocked).trans (if_neg hnone)), hvalue, horigin]
    rw [hconverted] at hold ⊢
    rcases hr : preWriteCallback I p (w.param p).mDefaultValue (w.param p).mOriginator w
      with ⟨b | e | _ | _, s⟩
    · cases b with
      | true => rw [applyValue_passed hr, hold _ _ _ _ hr]
      | false => rw [applyValue_stopped hr (by simp)]
    · rw [applyValue_stopped hr (by simp)]
    · rw [applyValue_stopped hr (by simp)]
    · rw [applyValue_stopped hr (by simp)]

/-- What the parameter shows is what a reset restores. -/
def World.AtInitial (w : World D B) (p : D.Param) : Prop :=
  (w.param p).shown = (w.initialValue p, w.initialOrigin p)

/-- The verdict of the pre-write callbacks on the value a reset restores. -/
def resetVerdict (I : Interp D B) (p : D.Param) (w : World D B) : Outcome Report Bool × World D B :=
  preWriteCallback I p (w.initialValue p) (w.initialOrigin p) (w.converted p)

/-- The assignments and the post-write callbacks of a reset from `w`, in the state `s` that its
pre-write callbacks have led to. -/
def resetCommit (I : Interp D B) (p : D.Param) (w s : World D B) : Outcome Report Unit × World D B :=
  commit I p (w.initialValue p) (w.initialOrigin p) (w.param p).mValue s

/-- The post-write callbacks of a reset from `w` do not write the parameter: their dispatch ends
with the value and the origin that it started with. -/
def PostWriteQuiet (I : Interp D B) (p : D.Param) (w : World D B) : Prop :=
  ∀ s, resetVerdict I p w = (.ok true, s) →
    let t := s.setParam p (stored (w.initialValue p) (w.initialOrigin p) (s.param p))
    ((postWriteCallback I p (w.param p).mValue (w.initialValue p) (w.initialOrigin p) t).2.param
      p).shown = (t.param p).shown

/-- The answer of a reset is true to what it did: `true` says that the parameter shows its preset
or its default value, unless a post-write callback has written it again; `false` or an exception
says that it shows what it showed before. -/
structure Truthful (I : Interp D B) (p : D.Param) (w : World D B) : Prop where
  applied : (reset I p w).1 = .ok true → PostWriteQuiet I p w → w.Convertible p ∧
    ((reset I p w).2.param p).shown = (w.initialValue p, w.initialOrigin p)
  unchanged : ((reset I p w).1 = .ok false ∨ ∃ e, (reset I p w).1 = .throw e) →
    ((reset I p w).2.param p).shown = (w.param p).shown

/-- A preset is not refused, neither by a callback nor by the guard, unless the parameter shows it
already; what is applied is a converted value; and no post-write callback throws, unless the
parameter showed the value before. -/
structure GoesThrough (I : Interp D B) (p : D.Param) (w : World D B) : Prop where
  notRefused : w.hasPreset p = true → (resetVerdict I p w).1 = .ok false →
    w.Convertible p ∧ w.AtInitial p
  converts : ∀ s t, resetVerdict I p w = (.ok true, s) → resetCommit I p w s = (.ok (), t) →
    w.Convertible p
  notThrown : ∀ s t e, resetVerdict I p w = (.ok true, s) → resetCommit I p w s = (.throw e, t) →
    PostWriteQuiet I p w ∧ w.AtInitial p

section

variable {I : Interp D B} {p : D.Param} {w s t : World D B}

theorem PostWriteQuiet.shown (h : PostWriteQuiet I p w) (hs : resetVerdict I p w = (.ok true, s)) :
    ((resetCommit I p w s).2.param p).shown = (w.initialValue p, w.initialOrigin p) := by
  have hquiet := h s hs
  simp only [World.param_setParam] at hquiet
  rw [resetCommit, commit_run]
  exact hquiet

/-- What has to be shown of a reset that answers `true`. -/
theorem Truthful.of_applied (hrun : reset I p w = (.ok true, t))
    (h : PostWriteQuiet I p w → w.Convertible p ∧
      (t.param p).shown = (w.initialValue p, w.initialOrigin p)) : Truthful I p w := by
  constructor
  · intro _
    rw [hrun]
    exact h
  · intro hne
    rw [hrun] at hne
    rcases hne with hne | ⟨e, hne⟩ <;> cases hne

/-- What has to be shown of a reset that ends in any other way. -/
theorem Truthful.of_unchanged {out : Outcome Report Bool} (hrun : reset I p w = (out, t))
    (hout : out ≠ .ok true) (h : (t.param p).shown = (w.param p).shown) : Truthful I p w := by
  constructor
  · intro hok
    rw [hrun] at hok
    exact absurd hok hout
  · intro _
    rw [hrun]
    exact h

/-- An ending that returns nothing is not an answer. -/
theorem Truthful.of_stopped {out : Outcome Report Bool} (hrun : reset I p w = (out, t))
    (hout : out.returned = false) : Truthful I p w := by
  constructor
  · intro hok
    rw [hrun] at hok
    cases hok
    cases hout
  · intro hne
    rw [hrun] at hne
    rcases hne with hne | ⟨e, hne⟩ <;> cases hne <;> cases hout

/-- A locked parameter is left alone, and so is one whose preset fails to convert with an
exception. -/
theorem reset_refused (h : CciParamUntyped.isLocked (w.param p) = true ∨
    w.hasPreset p = true ∧ ¬Converts p (w.preset p)) : Truthful I p w := by
  cases hl : CciParamUntyped.isLocked (w.param p) with
  | true => exact .of_unchanged ((reset_eq I p w).trans (if_pos hl)) (by simp) rfl
  | false =>
    obtain ⟨hp, hconv⟩ := h.resolve_left (by rw [hl]; exact Bool.false_ne_true)
    obtain ⟨e, t, ht, hstore⟩ := cciValueGet_fails hconv w
    have hunlocked : ¬(CciParamUntyped.isLocked (w.param p) = true) := by
      rw [hl]
      exact Bool.false_ne_true
    have hpreset : presetCciValue I p (w.preset p) (CciBrokerIf.getPresetValueOrigin
        w.store.broker (w.store.mBrokerHandle p) (w.param p).mName) w = (.throw e, t) := by
      rw [presetCciValue_eq, Eff.bind_run_throw ht]
    have hrun : reset I p w = (.throw e, t) :=
      (reset_eq I p w).trans ((if_neg hunlocked).trans ((if_pos hp).trans
        (Eff.bind_run_throw hpreset _)))
    exact .of_unchanged hrun (by simp) (congrArg (fun s : Store D B => (s.params p).shown) hstore)

/-- The ending of a reset whose pre-write callbacks let the value pass. -/
theorem reset_passed (hl : CciParamUntyped.isLocked (w.param p) = false)
    (hconv : w.hasPreset p = true → Converts p (w.preset p))
    (hshown : ∀ v o, ((preWriteCallback I p v o (w.converted p)).2.param p).shown =
      (w.param p).shown) (hv : resetVerdict I p w = (.ok true, s)) {out : Outcome Report Unit}
    (hc : resetCommit I p w s = (out, t)) : reset I p w = match out with
      | .ok _ => (.ok true, t)
      | .throw e => (.throw e, t)
      | .abort => (.abort, t)
      | .diverge => (.diverge, t) := by
  rw [resetVerdict] at hv
  rw [resetCommit] at hc
  rw [reset_run I p hl hconv hshown, hv]
  simp only [Eff.bind_run, hc]
  cases out <;> rfl

/-- A value that goes through is reported truthfully. -/
theorem truthful_of_goesThrough (hl : CciParamUntyped.isLocked (w.param p) = false)
    (hconv : w.hasPreset p = true → Converts p (w.preset p))
    (hshown : ∀ v o, ((preWriteCallback I p v o (w.converted p)).2.param p).shown =
      (w.param p).shown) (h : GoesThrough I p w) : Truthful I p w := by
  have hkept : ((resetVerdict I p w).2.param p).shown = (w.param p).shown := hshown _ _
  have hrun := reset_run I p hl hconv hshown
  rcases hv : resetVerdict I p w with ⟨b | e | _ | _, s⟩ <;> rw [hv] at hkept
  · cases b with
    | true =>
      have hpassed := @reset_passed D B _ I p w s
      rcases hc : resetCommit I p w s with ⟨⟨⟩ | e | _ | _, t⟩
      · refine .of_applied (hpassed hl hconv hshown hv hc) fun hquiet => ⟨h.converts s t hv hc, ?_⟩
        have hlast := hquiet.shown hv
        rw [hc] at hlast
        exact hlast
      · obtain ⟨hquiet, hat⟩ := h.notThrown s t e hv hc
        have hlast := hquiet.shown hv
        rw [hc] at hlast
        exact .of_unchanged (hpassed hl hconv hshown hv hc) (by simp) (hlast.trans hat.symm)
      · exact .of_stopped (hpassed hl hconv hshown hv hc) rfl
      · exact .of_stopped (hpassed hl hconv hshown hv hc) rfl
    | false =>
      rw [resetVerdict] at hv
      rw [hv] at hrun
      cases hp : w.hasPreset p with
      | true =>
        rw [hp] at hrun
        refine .of_applied hrun fun _ => ?_
        obtain ⟨hconvertible, hat⟩ := h.notRefused hp (congrArg Prod.fst hv)
        exact ⟨hconvertible, hkept.trans hat⟩
      | false =>
        rw [hp] at hrun
        exact .of_unchanged hrun (by simp) hkept
  · rw [resetVerdict] at hv
    rw [hv] at hrun
    exact .of_unchanged hrun (by simp) hkept
  · rw [resetVerdict] at hv
    rw [hv] at hrun
    exact .of_stopped hrun rfl
  · rw [resetVerdict] at hv
    rw [hv] at hrun
    exact .of_stopped hrun rfl

/-- And if the post-write callbacks do not write, only such a value is. -/
theorem goesThrough_of_truthful (hl : CciParamUntyped.isLocked (w.param p) = false)
    (hconv : w.hasPreset p = true → Converts p (w.preset p))
    (hshown : ∀ v o, ((preWriteCallback I p v o (w.converted p)).2.param p).shown =
      (w.param p).shown) (hquiet : PostWriteQuiet I p w) (h : Truthful I p w) :
    GoesThrough I p w := by
  have hkept : ((resetVerdict I p w).2.param p).shown = (w.param p).shown := hshown _ _
  refine ⟨fun hp hv => ?_, fun s t hv hc => ?_, fun s t e hv hc => ⟨hquiet, ?_⟩⟩
  · rcases hr : resetVerdict I p w with ⟨out, s⟩
    rw [hr] at hv hkept
    cases hv
    have hrun := reset_run I p hl hconv hshown
    rw [resetVerdict] at hr
    rw [hr, hp] at hrun
    obtain ⟨hconvertible, hat⟩ := h.applied (congrArg Prod.fst hrun) hquiet
    rw [hrun] at hat
    exact ⟨hconvertible, hkept.symm.trans hat⟩
  · have hrun := reset_passed hl hconv hshown hv hc
    exact (h.applied (congrArg Prod.fst hrun) hquiet).1
  · have hrun := reset_passed hl hconv hshown hv hc
    have hun := h.unchanged (.inr ⟨e, congrArg Prod.fst hrun⟩)
    rw [hrun] at hun
    have hlast := hquiet.shown hv
    rw [hc] at hlast
    exact hun.symm.trans hlast

end

/-- **`reset()` reports truthfully.**  In every store that client code can look at, from the top
level or from a callback, the answer of a reset is truthful if and, unless a post-write callback
writes the parameter, only if the parameter is locked, or its preset fails to convert with an
exception, or the value goes through. -/
theorem reset_truthful_exact (Γ : CallbackImpl → Payload D → Prog D) (n : ℕ) {w₀ w : World D B}
    (h₀ : w₀.Initial) {cs : List (Cmd D)} (hrun : Calls (interp Γ n) w₀ cs w) (c : Cmd D)
    {u : World D B} (hu : u.store ∈ (exec (interp Γ n) c w).2.visible) (m : ℕ) (p : D.Param) :
    ((CciParamUntyped.isLocked (u.param p) = true ∨
        (u.hasPreset p = true ∧ ¬Converts p (u.preset p)) ∨ GoesThrough (interp Γ m) p u) →
      Truthful (interp Γ m) p u) ∧
    (PostWriteQuiet (interp Γ m) p u → Truthful (interp Γ m) p u →
      CciParamUntyped.isLocked (u.param p) = true ∨
        (u.hasPreset p = true ∧ ¬Converts p (u.preset p)) ∨ GoesThrough (interp Γ m) p u) := by
  have hflags : FastFlagsSound p ((u.converted p).param p) := by
    show FastFlagsSound p ((u.converted p).store.params p)
    rw [World.store_converted]
    exact fastFlags_invariant Γ n c w (fastFlags_calls h₀ hrun) _ hu p
  have hsame : (u.converted p).param p = u.param p :=
    congrArg (fun s : Store D B => s.params p) (u.store_converted p)
  have hshown : ∀ v o, ((preWriteCallback (interp Γ m) p v o (u.converted p)).2.param p).shown =
      (u.param p).shown := by
    intro v o
    rw [(preWriteCallback_same Γ m hflags v o).param, hsame]
  by_cases hrefused : CciParamUntyped.isLocked (u.param p) = true ∨
      u.hasPreset p = true ∧ ¬Converts p (u.preset p)
  · exact ⟨fun _ => reset_refused hrefused, fun _ _ => or_assoc.1 (.inl hrefused)⟩
  · obtain ⟨hl, hconv⟩ := not_or.1 hrefused
    have hl' : CciParamUntyped.isLocked (u.param p) = false := Bool.eq_false_iff.2 hl
    have hconv' : u.hasPreset p = true → Converts p (u.preset p) := fun hp =>
      not_not.1 fun hn => hconv ⟨hp, hn⟩
    constructor
    · intro h
      exact truthful_of_goesThrough hl' hconv' hshown ((or_assoc.2 h).resolve_left hrefused)
    · intro hquiet h
      exact .inr (.inr (goesThrough_of_truthful hl' hconv' hshown hquiet h))

end

/-- A mutable parameter without callbacks goes back to the preset of a tool, and says so. -/
theorem reset_truthful_exact_preset :
    let I : Interp (natDesign Unit true) (ConsumingBroker Unit ℕ) := interp (fun _ _ => .ret true) 1
    let w₀ := natWorld true (fun _ => "top.p") (fun _ => 1) (.named "owner") {}
    let u := (exec I (.setPresetCciValue () "top.p" (7 : ℕ) (.named "tool")) w₀).2
    u.hasPreset () = true ∧ Truthful I () u := by
  intro I w₀ u
  have hrun : Calls I w₀ [.setPresetCciValue () "top.p" (7 : ℕ) (.named "tool")] u :=
    .cons (by decide +kernel) (.nil _)
  have hu : u.store ∈ (exec I (.isLocked ()) u).2.visible :=
    List.mem_append_left _ (List.mem_filterMap.2 ⟨.step (.isLocked ()) u.store,
      List.mem_append_left _ (List.mem_append_right _ (List.mem_singleton_self _)), rfl⟩)
  have hverdict : (resetVerdict I () u).1 = .ok true := by decide +kernel
  have hcommit : (resetCommit I () u (resetVerdict I () u).2).1 = .ok () := by decide +kernel
  have hgoes : GoesThrough I () u := by
    refine ⟨fun _ hv => ?_, fun _ _ _ _ _ => rfl, fun s t e hs ht => ?_⟩
    · rw [hverdict] at hv
      cases hv
    · have hst : s = (resetVerdict I () u).2 := (congrArg Prod.snd hs).symm
      rw [← hst, ht] at hcommit
      cases hcommit
  exact ⟨by decide +kernel, (reset_truthful_exact _ 1 (natWorld_initial _ _ _ _ _) hrun
    (.isLocked ()) hu 1 ()).1 (.inr (.inr hgoes))⟩

/-- With suppressed reports, a reset to a preset that a callback rejects answers `true` and leaves
the default value in place. -/
theorem reset_claims_rejected_preset :
    let I : Interp (natDesign Unit false) (ConsumingBroker Unit ℕ) :=
      interp (fun _ _ => .ret false) 1
    let w₀ := natWorld false (fun _ => "top.p") (fun _ => 1) (.named "owner") {}
    let cb : CallbackHandle := some (.impl ⟨1, CallbackKind.preWrite.signature 0⟩)
    let cs : List (Cmd (natDesign Unit false)) := [.registerCallback () .preWrite cb,
      .setPresetCciValue () "top.p" (7 : ℕ) (.named "tool")]
    let u := states (exec I) w₀ cs
    let preset : ℕ := u.initialValue ()
    let value : ℕ := ((reset I () u).2.param ()).mValue
    Calls I w₀ cs u ∧ (reset I () u).1 = .ok true ∧ preset = 7 ∧ value = 0 ∧
      PostWriteQuiet I () u ∧ ¬Truthful I () u := by
  intro I w₀ cb cs u preset value
  have hanswer : (reset I () u).1 = .ok true := by decide +kernel
  have hquiet : PostWriteQuiet I () u := by
    intro s hs
    have hverdict : (resetVerdict I () u).1 = .ok false := by decide +kernel
    rw [hs] at hverdict
    cases hverdict
  have hpreset : preset = 7 := Nat.eq_of_beq_eq_true (by decide +kernel)
  have hvalue : value = 0 := Nat.eq_of_beq_eq_true (by decide +kernel)
  refine ⟨.cons (by decide +kernel) (.cons (by decide +kernel) (.nil _)), hanswer, hpreset, hvalue,
    hquiet, fun h => ?_⟩
  have happlied : value = preset := congrArg Prod.fst (h.applied hanswer hquiet).2
  rw [hpreset, hvalue] at happlied
  cases happlied

end Cci
