import Cci.Cfg.WriteOutcome

/-!
# Who is asked about a write

`pre_write_callback` goes on to the next callback when one has rejected the value, but it reports the
rejection inside the loop: where error reports throw, a rejection ends the loop, and the callbacks
registered later are not asked.

* `World.consulted` — the pre-write callbacks of a parameter that were asked, with the value;
* `Quiet` — what runs inside a pre-write dispatch asks none of its callbacks;
* `Asked`, `GoesOn`, `Passing` — a turn of the loop, and the loop over a list of entries;
* `pre_write_consults_exact` — when all registered callbacks are asked.
-/

namespace Cci

open Effect CciParamTyped

variable {D : Design} {B : Type}

/-! ### The callbacks that were asked -/

/-- An invocation of a pre-write callback of `p`: its entry, and the value it was asked about. -/
def TraceEvent.consulted? (p : D.Param) : TraceEvent D B → Option (CallbackObj × D.Value p)
  | .invoked r .preWrite entry (.write _ newValue _ _) =>
      if h : r = p then some (entry, h ▸ newValue) else none
  | _ => none

/-- The pre-write callbacks of `p` asked so far, in their order. -/
def World.consulted (p : D.Param) (w : World D B) : List (CallbackObj × D.Value p) :=
  w.trace.filterMap (TraceEvent.consulted? p)

theorem World.consulted_record (p : D.Param) (w : World D B) (e : TraceEvent D B) :
    (w.record e).consulted p = w.consulted p ++ (e.consulted? p).toList := by
  simp only [World.consulted, World.trace_record, List.filterMap_append]
  cases h : e.consulted? p <;> simp [h]

theorem TraceEvent.consulted?_invoked {p r : D.Param} {k : CallbackKind}
    (h : ¬(r = p ∧ k = .preWrite)) (entry : CallbackObj) (ev : ParamEvent (D.Value r)) :
    (TraceEvent.invoked r k entry ev : TraceEvent D B).consulted? p = none := by
  cases k with
  | preWrite =>
    cases ev with
    | write oldValue newValue originator paramHandle => exact dif_neg fun hr => h ⟨hr, rfl⟩
    | read value originator paramHandle => rfl
  | _ => rfl

/-! ### Inside a dispatch -/

/-- While the pre-write callbacks of `p` are under dispatch, none of them was asked. -/
def Unasked (p : D.Param) (w w' : World D B) : Prop :=
  (w.param p).oncall .preWrite = true → w'.consulted p = w.consulted p

/-- And they still are. -/
def Quiet (p : D.Param) (w w' : World D B) : Prop :=
  (w.param p).oncall .preWrite = true →
    w'.consulted p = w.consulted p ∧ (w'.param p).oncall .preWrite = true

theorem quiet_composable (p : D.Param) : Composable (Unasked (B := B) p) (Quiet p) where
  refl _ hw := ⟨rfl, hw⟩
  trans h h' hw := ⟨(h' (h hw).2).1.trans (h hw).1, (h' (h hw).2).2⟩
  weaken h hw := (h hw).1
  after h h' hw := (h' (h hw).2).trans (h hw).1

variable {p : D.Param}

theorem quiet_record (w : World D B) {e : TraceEvent D B} (he : e.consulted? p = none) :
    Quiet p w (w.record e) := by
  intro hw
  rw [World.consulted_record, he]
  exact ⟨List.append_nil _, hw⟩

theorem quiet_reports : Reports fun α (m _ : CciM D B α) => Between (Unasked p) (Quiet p) m where
  toPlumbing := Between.plumbing (quiet_composable p)
  report _ := Between.modify (quiet_composable p) fun w => quiet_record w rfl

theorem modifyParam_asksNone (r : D.Param) {f : CciParam (D.Value r) → CciParam (D.Value r)}
    (hf : ∀ q, (f q).oncall .preWrite = q.oncall .preWrite) :
    Between (Unasked p) (Quiet p) (modifyParam r f : CciM D B Unit) := by
  refine Between.modify (quiet_composable p) fun w hw => ⟨rfl, ?_⟩
  by_cases hr : p = r
  · subst hr
    rw [World.param_setParam, hf, hw]
  · rw [World.param_setParam_of_ne w _ hr, hw]

/-- The guard of the pre-write list of `p` is not that of another list. -/
theorem oncall_setParam_setOncall {r : D.Param} {k : CallbackKind} (hne : ¬(r = p ∧ k = .preWrite))
    (w : World D B) (b : Bool) :
    ((w.setParam r ((w.param r).setOncall k b)).param p).oncall .preWrite =
      (w.param p).oncall .preWrite := by
  by_cases hr : p = r
  · subst hr
    rw [World.param_setParam, CciParam.oncall_setOncall, if_neg fun hk => hne ⟨rfl, hk.symm⟩]
  · rw [World.param_setParam_of_ne w _ hr]

theorem consulted_enterDispatch (r : D.Param) (k : CallbackKind) (w : World D B) :
    (enterDispatch r k w).consulted p = w.consulted p := by
  show ((w.setParam r ((w.param r).setOncall k true)).record (.dispatch r k w.stack)).consulted p = _
  rw [World.consulted_record]
  exact List.append_nil _

theorem quiet_closed {I : Interp D B} (hcall : ∀ f ev, Between (Unasked p) (Quiet p) (I.call f ev)) :
    Closed I I (fun r k => ¬(r = p ∧ k = .preWrite))
      (fun _ m _ => Between (Unasked p) (Quiet p) m)
      (fun _ m _ => Between (Unasked p) (Quiet p) m) where
  outer := quiet_reports
  inner := quiet_reports
  call := hcall
  invoked r k hne entry ev := Between.modify (quiet_composable p) fun w =>
    quiet_record w (TraceEvent.consulted?_invoked hne entry ev)
  guarded r k init skip hne hact := by
    intro w
    cases hg : (w.param r).oncall k with
    | true => exact .of_run (quiet_composable p) (guarded_skip hg) ((quiet_composable p).refl w)
    | false =>
      have henter : Quiet p w (enterDispatch r k w) := by
        intro hw
        exact ⟨consulted_enterDispatch r k w, (oncall_setParam_setOncall hne w true).trans hw⟩
      have hleave : ∀ t : World D B, Quiet p t (leaveDispatch r k t) := fun t ht =>
        ⟨rfl, (oncall_setParam_setOncall hne t false).trans ht⟩
      have hloop : Between (Unasked p) (Quiet p) (Eff.forEach (entryAt r k) _ I.fuel 0 init) :=
        Between.forEach (quiet_composable p) hact I.fuel 0 init
      refine BetweenAt.congr ?_ (guarded_open hg)
      exact (hloop (enterDispatch r k w)).scope (fun t ht => (quiet_composable p).after henter ht)
        (fun t ht => (quiet_composable p).trans ((quiet_composable p).trans henter ht) (hleave t))
        fun t ht => (quiet_composable p).weaken ht
  fastRead r := modifyParam_asksNone r fun _ => rfl

/-! ### Client code inside a dispatch -/

theorem quiet_stores (r : D.Param) :
    Stores (fun α (m _ : CciM D B α) => Between (Unasked p) (Quiet p) m) r where
  value _ := modifyParam_asksNone r fun _ => rfl
  origin _ := modifyParam_asksNone r fun _ => rfl
  fastWrite _ := modifyParam_asksNone r fun _ => rfl

theorem quiet_administers [CciBrokerIf B D.BrokerHandle D.CciValue] :
    Administers fun α (m _ : CciM D B α) => Between (Unasked p) (Quiet p) m where
  lock r pwd := modifyParam_asksNone r fun q => oncall_lock pwd q .preWrite
  unlock r pwd := modifyParam_asksNone r fun q => oncall_unlock pwd q .preWrite
  setPreset := quiet_reports.setPreset fun _ =>
    Between.modify (quiet_composable p) fun _ hw => ⟨rfl, hw⟩

theorem quiet_registers :
    Registers fun α (m _ : CciM D B α) => Between (Unasked p) (Quiet p) m where
  register r k cb o := modifyParam_asksNone r fun q => oncall_registerCallback k cb o q .preWrite
  registerOwn r k cb := modifyParam_asksNone r fun q =>
    oncall_registerCallback k cb q.mOriginator { q with fastRead := false, fastWrite := false } .preWrite
  unregister r k cb o := modifyParam_asksNone r fun q => oncall_unregisterCallback k cb o q .preWrite
  unregisterAll r o := modifyParam_asksNone r fun q => oncall_unregisterAllCallbacks o q .preWrite

section

variable {I : Interp D B}

theorem quiet_of_nested {α : Type} {m : CciM D B α}
    (h : ∀ w, (w.param p).oncall .preWrite = true → BetweenAt (Unasked p) (Quiet p) m w) :
    Between (Unasked p) (Quiet p) m := by
  intro w
  cases hg : (w.param p).oncall .preWrite with
  | true => exact h w hg
  | false =>
    refine ⟨fun hw => ?_, fun _ hw => ?_⟩
    · exact absurd (hg.symm.trans hw) Bool.false_ne_true
    · exact absurd (hg.symm.trans hw) Bool.false_ne_true

/-- A nested write of `p` is refused before anything is asked. -/
theorem rawWrite_asksNone (v : D.Value p) (o : CciOriginator) :
    Between (Unasked p) (Quiet p) (rawWrite I p v o) := by
  apply quiet_of_nested
  intro w hg
  have hskip : preWriteCallback I p v o w = (.ok false, w) := guarded_skip hg
  exact .of_run (quiet_composable p) (rawWrite_stopped hskip (by simp)) ((quiet_composable p).refl w)

theorem applyValue_asksNone (v : D.Value p) (o : CciOriginator)
    (old : CciParam (D.Value p) → D.Value p) :
    Between (Unasked p) (Quiet p) (applyValue I p v o old) := by
  apply quiet_of_nested
  intro w hg
  have hskip : preWriteCallback I p v o w = (.ok false, w) := guarded_skip hg
  exact .of_run (quiet_composable p) (applyValue_stopped hskip (by simp))
    ((quiet_composable p).refl w)

theorem setRawValue_asksNone (v : D.Value p) (pwd : Option ℕ) (o : CciOriginator) :
    Between (Unasked p) (Quiet p) (setRawValue I p v pwd o) := by
  intro w
  have heq := setRawValue_eq I p v pwd o w
  cases hr : writeRefusal p pwd (w.param p) with
  | some r =>
    rw [hr] at heq
    exact (quiet_reports.refuse r w).congr heq
  | none =>
    rw [hr] at heq
    exact (rawWrite_asksNone v o w).congr heq

theorem presetCciValue_asksNone (c : D.CciValue) (o : CciOriginator) :
    Between (Unasked p) (Quiet p) (presetCciValue I p c o) := by
  intro w
  refine BetweenAt.congr ?_ (presetCciValue_eq I p c o w)
  exact Between.bind (quiet_composable p) (quiet_reports.cciValueGet p c)
    (fun v => applyValue_asksNone v o _) w

variable [CciBrokerIf B D.BrokerHandle D.CciValue]

theorem reset_asksNone : Between (Unasked p) (Quiet p) (reset I p) := by
  intro w
  have heq := reset_eq I p w
  split at heq
  · exact .of_run (quiet_composable p) heq ((quiet_composable p).refl w)
  · split at heq
    · refine BetweenAt.congr ?_ heq
      exact Between.bind (quiet_composable p) (presetCciValue_asksNone _ _)
        (fun _ => quiet_reports.pure true) w
    · exact (applyValue_asksNone _ _ _ w).congr heq

theorem run_asksNone (hcall : ∀ f ev, Between (Unasked p) (Quiet p) (I.call f ev)) (c : Cmd D) :
    Between (Unasked p) (Quiet p) (c.run I) := by
  by_cases hwrites : c.writes p
  · have hunit : ∀ {m : CciM D B Bool}, Between (Unasked p) (Quiet p) m →
        Between (Unasked p) (Quiet p) (m >>= fun _ => pure (Answer.unit : Answer D)) :=
      fun hm => Between.bind (quiet_composable p) hm fun _ => quiet_reports.pure _
    cases c with
    | setValue r v =>
      obtain rfl : r = p := hwrites
      refine hunit fun w => ?_
      cases hf : (w.param r).fastWrite with
      | true =>
        refine .of_run (quiet_composable r) (setValue_fast hf I v) fun hw => ⟨rfl, ?_⟩
        rw [World.param_setParam]
        exact hw
      | false => exact (setRawValue_asksNone v none _ w).congr (setValue_slow hf I v)
    | setValuePwd r v pwd =>
      obtain rfl : r = p := hwrites
      exact hunit (Between.bind (quiet_composable r) (quiet_reports.getParam r) fun q =>
        setRawValue_asksNone v pwd q.mOriginator)
    | handleSetValue r v pwd o =>
      obtain rfl : r = p := hwrites
      exact hunit (setRawValue_asksNone v pwd o)
    | setCciValue r c pwd o =>
      obtain rfl : r = p := hwrites
      exact hunit (Between.bind (quiet_composable r) (quiet_reports.cciValueGet r c) fun v =>
        setRawValue_asksNone v pwd o)
    | reset r =>
      obtain rfl : r = p := hwrites
      exact Between.bind (quiet_composable r) reset_asksNone fun _ => quiet_reports.pure _
    | _ => cases hwrites
  · refine (quiet_closed hcall).run_all (fun r => ⟨by simp, by simp⟩) c (fun r hr => ?_)
      quiet_administers quiet_registers
    have hne : r ≠ p := fun heq => hwrites (heq ▸ hr)
    exact ⟨quiet_stores r, fun h => hne h.1, fun h => hne h.1⟩

theorem exec_asksNone (hcall : ∀ f ev, Between (Unasked p) (Quiet p) (I.call f ev)) (c : Cmd D) :
    Between (Unasked p) (Quiet p) (exec I c) := by
  have hXR := quiet_composable (B := B) p
  have hstep : ∀ w : World D B, Quiet p w (w.record (.step c w.store)) := fun w =>
    quiet_record w rfl
  have hdone : ∀ t : World D B, Quiet p t (t.record (.done c t.store)) := fun t =>
    quiet_record t rfl
  intro w
  exact (run_asksNone hcall c _).scope (fun t ht => hXR.after (hstep w) ht)
    (fun t ht => hXR.trans (hXR.trans (hstep w) ht) (hdone t)) fun t ht => hXR.weaken ht

/-- What a callback does while the pre-write callbacks of `p` are under dispatch asks none of them. -/
theorem interp_asksNone (Γ : CallbackImpl → Payload D → Prog D) (n : ℕ) :
    ∀ f ev, Between (Unasked p) (Quiet p) ((interp Γ n : Interp D B).call f ev) := by
  induction n with
  | zero =>
    intro f ev w
    exact ⟨fun _ => rfl, fun h => Bool.noConfusion h⟩
  | succ n ih =>
    exact fun f ev => quiet_reports.runProg (interp Γ n) (interp Γ n) (fun _ => True)
      (fun c _ => exec_asksNone ih c) (Γ f ev).all_true

end

/-! ### A turn of the loop -/

section

variable (I : Interp D B) (p : D.Param) (v : D.Value p) (o : CciOriginator)

/-- The event of the turn of an entry. -/
def turnEvent (entry : CallbackObj) (w : World D B) : ParamEvent (D.Value p) :=
  .write (w.param p).mValue v o entry.originator

/-- In its turn the callback of the entry is invoked: it is valid, and if it is an untyped one, the
event could be converted for it. -/
def Asked (entry : CallbackObj) (w : World D B) : Prop :=
  ∃ held, typedHandle p .preWrite entry = some held ∧
    ∀ f s, held = .adapt f s → ∃ ev, untypedEvent p (turnEvent p v o entry w) = .ok ev

/-- The turn of an entry lets the loop go on in `t`: the callback accepts the value, or it rejects it
and the report does not throw. -/
def GoesOn (entry : CallbackObj) (w t : World D B) : Prop :=
  ∃ b u, invokeTyped I p .preWrite entry (turnEvent p v o entry w)
      (typedHandle p .preWrite entry) w = (.ok b, u) ∧
    (b = true ∧ t = u ∨ b = false ∧ D.throws = false ∧
      t = u.record (.report (setParamFailed "Value rejected by callback.")))

/-- The loop passes through the list from index `i` on: each entry is the next one and is told, every
one but the last lets the loop go on, and behind the last none is told. -/
def Passing : List CallbackObj → ℕ → World D B → Prop
  | [], i, w => ∀ entry, entryAt p .preWrite w i = some entry → ¬Asked p v o entry w
  | entry :: rest, i, w =>
      entryAt p .preWrite w i = some entry ∧ Asked p v o entry w ∧
        ((∃ t, GoesOn I p v o entry w t ∧ Passing rest (i + 1) t) ∨
          rest = [] ∧ ∀ t, ¬GoesOn I p v o entry w t)

end

section

variable {I : Interp D B} {v : D.Value p} {o : CciOriginator} {entry : CallbackObj}
variable {w : World D B}

theorem preWriteEntry_ok_iff {r : Bool} {t : World D B} :
    (∃ r', preWriteEntry I p v o entry r w = (.ok r', t)) ↔ GoesOn I p v o entry w t := by
  have heq : preWriteEntry I p v o entry r w =
      (invokeTyped I p .preWrite entry (turnEvent p v o entry w) (typedHandle p .preWrite entry) >>=
        fun accepted => if accepted then pure r
          else refuse (setParamFailed "Value rejected by callback.")) w := rfl
  rw [heq, Eff.bind_run, GoesOn]
  rcases invokeTyped I p .preWrite entry (turnEvent p v o entry w) (typedHandle p .preWrite entry) w
    with ⟨b | e | _ | _, u⟩
  · cases b with
    | true =>
      constructor
      · rintro ⟨r', h⟩
        cases h
        exact ⟨true, _, rfl, .inl ⟨rfl, rfl⟩⟩
      · rintro ⟨b, u', h, ⟨rfl, rfl⟩ | ⟨rfl, -, -⟩⟩
        · cases h
          exact ⟨r, rfl⟩
        · cases h
    | false =>
      have hrefuse := refuse_run (setParamFailed "Value rejected by callback.") u
      constructor
      · rintro ⟨r', h⟩
        have hr : refuse (setParamFailed "Value rejected by callback.") u = (.ok r', t) := h
        rw [hrefuse] at hr
        cases hthrows : D.throws with
        | true =>
          rw [hthrows] at hr
          cases hr
        | false =>
          rw [hthrows] at hr
          cases hr
          exact ⟨false, u, rfl, .inr ⟨rfl, rfl, rfl⟩⟩
      · rintro ⟨b, u', h, ⟨rfl, rfl⟩ | ⟨rfl, hthrows, rfl⟩⟩
        · cases h
        · cases h
          rw [hthrows] at hrefuse
          exact ⟨false, hrefuse⟩
  · exact iff_of_false (fun ⟨r', h⟩ => by cases h) fun ⟨b, u', h, _⟩ => by cases h
  · exact iff_of_false (fun ⟨r', h⟩ => by cases h) fun ⟨b, u', h, _⟩ => by cases h
  · exact iff_of_false (fun ⟨r', h⟩ => by cases h) fun ⟨b, u', h, _⟩ => by cases h

theorem GoesOn.unique {t t' : World D B} (h : GoesOn I p v o entry w t)
    (h' : GoesOn I p v o entry w t') : t = t' := by
  obtain ⟨b, u, hrun, hb⟩ := h
  obtain ⟨b', u', hrun', hb'⟩ := h'
  obtain ⟨hb₁, rfl⟩ := Prod.mk.inj (hrun.symm.trans hrun')
  obtain rfl : b = b' := by cases hb₁; rfl
  rcases hb with ⟨rfl, rfl⟩ | ⟨rfl, -, rfl⟩
  · rcases hb' with ⟨-, rfl⟩ | ⟨h, -⟩
    · rfl
    · cases h
  · rcases hb' with ⟨h, -⟩ | ⟨-, -, rfl⟩
    · cases h
    · rfl

/-- What a turn adds to the callbacks asked: the entry, if it is told. -/
structure TurnAsks (p : D.Param) (v : D.Value p) (o : CciOriginator) (entry : CallbackObj)
    (w : World D B) (x : Outcome Report Bool × World D B) : Prop where
  told : Asked p v o entry w → x.2.consulted p = w.consulted p ++ [(entry, v)]
  untold : ¬Asked p v o entry w → x.2.consulted p = w.consulted p ∧ ∀ r, x.1 ≠ .ok r
  oncall : ∀ r, x.1 = .ok r → (x.2.param p).oncall .preWrite = true

variable (hcall : ∀ f ev, Between (Unasked p) (Quiet p) (I.call f ev))

include hcall

/-- The callback itself. -/
theorem call_asks (entry : CallbackObj) (v : D.Value p) (o : CciOriginator) (f : CallbackImpl)
    (payload : Payload D) (oldValue : D.Value p) (ph : CciOriginator)
    (hw : (w.param p).oncall .preWrite = true) :
    let x := (log (.invoked p .preWrite entry (.write oldValue v o ph)) >>= fun _ =>
      I.call f payload) w
    x.2.consulted p = w.consulted p ++ [(entry, v)] ∧
      ∀ r, x.1 = .ok r → (x.2.param p).oncall .preWrite = true := by
  intro x
  let u := w.record (.invoked p .preWrite entry (.write oldValue v o ph))
  have hrecord : u.consulted p = w.consulted p ++ [(entry, v)] := by
    rw [World.consulted_record]
    congr 1
    exact congrArg Option.toList (dif_pos rfl)
  obtain ⟨hX, hR⟩ := hcall f payload u
  refine ⟨(hX hw).trans hrecord, fun r hr => ?_⟩
  have hr' : (I.call f payload u).1 = .ok r := hr
  exact (hR (by rw [hr']; rfl) hw).2

theorem invokeTyped_asks (hw : (w.param p).oncall .preWrite = true) :
    TurnAsks p v o entry w (invokeTyped I p .preWrite entry (turnEvent p v o entry w)
      (typedHandle p .preWrite entry) w) := by
  cases hh : typedHandle p .preWrite entry with
  | none =>
    have huntold : ¬Asked p v o entry w := by
      rintro ⟨held, hheld, -⟩
      rw [hh] at hheld
      cases hheld
    exact ⟨fun h => absurd h huntold, fun _ => ⟨rfl, fun r h => by cases h⟩, fun r h => by cases h⟩
  | some held =>
    cases held with
    | impl f =>
      have htold : Asked p v o entry w := ⟨_, hh, fun f s h => by cases h⟩
      obtain ⟨hasks, hon⟩ := call_asks hcall entry v o f
        (.typed p (turnEvent p v o entry w)) (w.param p).mValue entry.originator hw
      exact ⟨fun _ => hasks, fun h => absurd htold h, hon⟩
    | adapt f s =>
      obtain ⟨u, hu, hstore, -⟩ := genericWrap_run p (turnEvent p v o entry w) w
      obtain ⟨hX, hR⟩ := quiet_reports.genericWrap p (turnEvent p v o entry w) w
      rw [hu] at hX hR
      simp only [invokeTyped, invokeHeld]
      rw [Eff.bind_run, hu]
      cases hev : untypedEvent p (turnEvent p v o entry w) with
      | error e =>
        have huntold : ¬Asked p v o entry w := by
          rintro ⟨held, hheld, hadapt⟩
          rw [hh] at hheld
          obtain ⟨ev, hok⟩ := hadapt f s (Option.some.inj hheld).symm
          rw [hev] at hok
          cases hok
        exact ⟨fun h => absurd h huntold, fun _ => ⟨hX hw, fun r h => by cases h⟩,
          fun r h => by cases h⟩
      | ok cciEv =>
        have htold : Asked p v o entry w := ⟨_, hh, fun _ _ _ => ⟨cciEv, hev⟩⟩
        have hu' : (u.param p).oncall .preWrite = true := by
          rw [hev] at hR
          exact (hR rfl hw).2
        obtain ⟨hasks, hon⟩ := call_asks hcall entry v o f
          (.untyped p cciEv) (w.param p).mValue entry.originator hu'
        refine ⟨fun _ => ?_, fun h => absurd htold h, hon⟩
        rw [← hX hw]
        exact hasks

theorem preWriteEntry_asks (hw : (w.param p).oncall .preWrite = true) (r : Bool) :
    TurnAsks p v o entry w (preWriteEntry I p v o entry r w) := by
  let decide (accepted : Bool) : CciM D B Bool :=
    if accepted then pure r else refuse (setParamFailed "Value rejected by callback.")
  have hdecide : ∀ b, Between (Unasked p) (Quiet p) (decide b) := by
    intro b
    cases b with
    | true => exact quiet_reports.pure r
    | false => exact quiet_reports.refuse _
  have heq : preWriteEntry I p v o entry r w =
      (invokeTyped I p .preWrite entry (turnEvent p v o entry w) (typedHandle p .preWrite entry) >>=
        decide) w := rfl
  have hinvoke : TurnAsks p v o entry w (invokeTyped I p .preWrite entry (turnEvent p v o entry w)
      (typedHandle p .preWrite entry) w) := invokeTyped_asks hcall hw
  rw [heq, Eff.bind_run]
  rcases hr : invokeTyped I p .preWrite entry (turnEvent p v o entry w)
    (typedHandle p .preWrite entry) w with ⟨b | e | _ | _, u⟩ <;> rw [hr] at hinvoke
  · obtain ⟨hX, hR⟩ := hdecide b u
    have hu : (u.param p).oncall .preWrite = true := hinvoke.oncall b rfl
    refine ⟨fun htold => (hX hu).trans (hinvoke.told htold), fun huntold => ?_, fun r' hr' => ?_⟩
    · exact absurd rfl ((hinvoke.untold huntold).2 b)
    · have hr'' : (decide b u).1 = .ok r' := hr'
      exact (hR (by rw [hr'']; rfl) hu).2
  · exact ⟨hinvoke.told, fun h => ⟨(hinvoke.untold h).1, fun r h => by cases h⟩, fun r h => by cases h⟩
  · exact ⟨hinvoke.told, fun h => ⟨(hinvoke.untold h).1, fun r h => by cases h⟩, fun r h => by cases h⟩
  · exact ⟨hinvoke.told, fun h => ⟨(hinvoke.untold h).1, fun r h => by cases h⟩, fun r h => by cases h⟩

/-! ### The loop -/

/-- What the loop asks comes behind what was asked before. -/
theorem forEach_consulted_prefix (fuel i : ℕ) (r : Bool) {w : World D B}
    (hw : (w.param p).oncall .preWrite = true) :
    w.consulted p <+: (Eff.forEach (entryAt p .preWrite) (preWriteEntry I p v o) fuel i r w).2.consulted
      p := by
  induction fuel generalizing i r w with
  | zero =>
    simp only [Eff.forEach]
    cases entryAt p .preWrite w i <;> exact List.prefix_rfl
  | succ fuel ih =>
    simp only [Eff.forEach]
    cases entryAt p .preWrite w i with
    | none => exact List.prefix_rfl
    | some entry =>
      have hturn : TurnAsks p v o entry w (preWriteEntry I p v o entry r w) :=
        preWriteEntry_asks hcall hw r
      have hprefix : w.consulted p <+: (preWriteEntry I p v o entry r w).2.consulted p := by
        by_cases htold : Asked p v o entry w
        · rw [hturn.told htold]
          exact List.prefix_append _ _
        · rw [(hturn.untold htold).1]
      show _ <+: ((preWriteEntry I p v o entry r >>= _) w).2.consulted p
      rw [Eff.bind_run]
      rcases hr : preWriteEntry I p v o entry r w with ⟨r' | e | _ | _, t⟩ <;> rw [hr] at hprefix hturn
      · exact hprefix.trans (ih (i + 1) r' (hturn.oncall r' rfl))
      · exact hprefix
      · exact hprefix
      · exact hprefix

/-- The loop from the turn of `entry` on: it ends with an entry that is not told, and with one that
does not let it go on. -/
structure LoopAsks (I : Interp D B) (p : D.Param) (v : D.Value p) (o : CciOriginator) (fuel i : ℕ)
    (entry : CallbackObj) (w : World D B) (asked : List (CallbackObj × D.Value p)) : Prop where
  untold : ¬Asked p v o entry w → asked = w.consulted p
  told : Asked p v o entry w → w.consulted p ++ [(entry, v)] <+: asked
  stops : Asked p v o entry w → (∀ t, ¬GoesOn I p v o entry w t) → asked = w.consulted p ++ [(entry, v)]
  goesOn : Asked p v o entry w → ∀ t, GoesOn I p v o entry w t →
    t.consulted p = w.consulted p ++ [(entry, v)] ∧ (t.param p).oncall .preWrite = true ∧
      ∃ r, asked =
        (Eff.forEach (entryAt p .preWrite) (preWriteEntry I p v o) fuel (i + 1) r t).2.consulted p

theorem forEach_asks (fuel i : ℕ) (r : Bool) {w : World D B}
    (hw : (w.param p).oncall .preWrite = true) (hi : entryAt p .preWrite w i = some entry) :
    LoopAsks I p v o fuel i entry w
      ((Eff.forEach (entryAt p .preWrite) (preWriteEntry I p v o) (fuel + 1) i r w).2.consulted p) := by
  have hturn : TurnAsks p v o entry w (preWriteEntry I p v o entry r w) :=
    preWriteEntry_asks hcall hw r
  simp only [Eff.forEach, hi]
  rw [Eff.bind_run]
  rcases hr : preWriteEntry I p v o entry r w with ⟨r' | e | _ | _, t⟩ <;> rw [hr] at hturn
  · have hgoes : GoesOn I p v o entry w t := preWriteEntry_ok_iff.1 ⟨r', hr⟩
    have hon : (t.param p).oncall .preWrite = true := hturn.oncall r' rfl
    refine ⟨fun h => absurd rfl ((hturn.untold h).2 r'), fun h => ?_, fun _ h => absurd hgoes (h t),
      fun h t' hgoes' => ?_⟩
    · rw [← hturn.told h]
      exact forEach_consulted_prefix hcall fuel (i + 1) r' hon
    · obtain ⟨r'', hr''⟩ := preWriteEntry_ok_iff.2 hgoes'
      obtain ⟨-, rfl⟩ : _ ∧ t = t' := Prod.mk.inj (hr.symm.trans hr'')
      exact ⟨hturn.told h, hon, r', rfl⟩
  all_goals
    have hstuck : ∀ t', ¬GoesOn I p v o entry w t' := by
      intro t' hgoes
      obtain ⟨r'', hr''⟩ := preWriteEntry_ok_iff.2 hgoes
      cases hr.symm.trans hr''
    refine ⟨fun h => (hturn.untold h).1, fun h => ?_, fun h _ => hturn.told h,
      fun _ t' hgoes => absurd hgoes (hstuck t')⟩
    rw [← hturn.told h]

/-- The loop asks exactly the entries of a list if and only if it passes through the list. -/
theorem forEach_consults_iff (rest : List CallbackObj) {fuel : ℕ} (hfuel : rest.length < fuel)
    (i : ℕ) (r : Bool) {w : World D B} (hw : (w.param p).oncall .preWrite = true) :
    (Eff.forEach (entryAt p .preWrite) (preWriteEntry I p v o) fuel i r w).2.consulted p =
        w.consulted p ++ rest.map (fun entry => (entry, v)) ↔ Passing I p v o rest i w := by
  induction rest generalizing fuel i r w with
  | nil =>
    obtain ⟨fuel, rfl⟩ : ∃ n, fuel = n + 1 := Nat.exists_eq_add_one.2 (by omega)
    rw [List.map_nil, List.append_nil]
    cases hi : entryAt p .preWrite w i with
    | none =>
      rw [Eff.forEach_done _ hi]
      refine iff_of_true rfl fun entry hentry => ?_
      rw [hi] at hentry
      cases hentry
    | some entry =>
      have hasks := forEach_asks (v := v) (o := o) hcall fuel i r hw hi
      by_cases htold : Asked p v o entry w
      · refine iff_of_false (fun heq => ?_) fun hpass => hpass entry hi htold
        have hlen := (hasks.told htold).length_le
        rw [heq, List.length_append, List.length_singleton] at hlen
        omega
      · refine iff_of_true (hasks.untold htold) fun entry' hentry' => ?_
        rw [hi] at hentry'
        cases hentry'
        exact htold
  | cons next rest ih =>
    obtain ⟨fuel, rfl⟩ : ∃ n, fuel = n + 1 := Nat.exists_eq_add_one.2 (by omega)
    have hlt : rest.length < fuel := by
      rw [List.length_cons] at hfuel
      omega
    rw [List.map_cons]
    cases hi : entryAt p .preWrite w i with
    | none =>
      rw [Eff.forEach_done _ hi, List.self_eq_append_right]
      refine iff_of_false (fun h => by cases h) fun hpass => ?_
      cases hi.symm.trans hpass.1
    | some entry =>
      have hasks := forEach_asks (v := v) (o := o) hcall fuel i r hw hi
      by_cases htold : Asked p v o entry w
      · by_cases hnext : entry = next
        · subst hnext
          by_cases hgo : ∃ t, GoesOn I p v o entry w t
          · obtain ⟨t, hgo⟩ := hgo
            obtain ⟨hconsulted, hon, r', hasked⟩ := hasks.goesOn htold t hgo
            rw [hasked, List.append_cons, ← hconsulted, ih hlt (i + 1) r' hon]
            constructor
            · exact fun hpass => ⟨hi, htold, .inl ⟨t, hgo, hpass⟩⟩
            · rintro ⟨-, -, ⟨t', hgo', hpass⟩ | ⟨-, hstuck⟩⟩
              · exact hgo.unique hgo' ▸ hpass
              · exact absurd hgo (hstuck t)
          · push Not at hgo
            rw [hasks.stops htold hgo, List.append_right_inj, List.cons.injEq, and_iff_right rfl,
              eq_comm, List.map_eq_nil_iff]
            constructor
            · exact fun hrest => ⟨hi, htold, .inr ⟨hrest, hgo⟩⟩
            · rintro ⟨-, -, ⟨t, hgo', -⟩ | ⟨hrest, -⟩⟩
              · exact absurd hgo' (hgo t)
              · exact hrest
        · refine iff_of_false (fun heq => hnext ?_) fun hpass => hnext ?_
          · have hprefix := hasks.told htold
            rw [heq, List.prefix_append_right_inj, List.cons_prefix_cons] at hprefix
            exact congrArg Prod.fst hprefix.1
          · exact Option.some.inj (hi.symm.trans hpass.1)
      · rw [hasks.untold htold, List.self_eq_append_right]
        refine iff_of_false (fun h => by cases h) fun hpass => htold ?_
        obtain rfl : entry = next := Option.some.inj (hi.symm.trans hpass.1)
        exact hpass.2.1

end

/-! ### The dispatch -/

/-- `pre_write_callback` asks every registered callback once about the proposed value, in the order of
registration. -/
def ConsultsAll (I : Interp D B) (p : D.Param) (v : D.Value p) (o : CciOriginator) (w : World D B) :
    Prop :=
  (preWriteCallback I p v o w).2.consulted p =
    w.consulted p ++ ((w.param p).vec .preWrite).map fun entry => (entry, v)

theorem dispatch_consulted {α : Type} (I : Interp D B) (act : CallbackObj → α → CciM D B α)
    (init : α) (w : World D B) :
    (dispatch I p .preWrite act init w).2.consulted p =
      (Eff.forEach (entryAt p .preWrite) act I.fuel 0 init
        (enterDispatch p .preWrite w)).2.consulted p := by
  simp only [dispatch, scopedTrue, Eff.modify_bind_run, Eff.finalizing]
  rcases (Eff.forEach (entryAt p .preWrite) act I.fuel 0 init : CciM D B α)
    (enterDispatch p .preWrite w) with ⟨a | e | _ | _, t⟩ <;> rfl

/-- **Consultation of the pre-write callbacks.**  A write that passes its gates asks every registered
callback exactly if it is not made inside a pre-write dispatch of its parameter, where none is asked,
and the loop passes through the whole list. -/
theorem pre_write_consults_exact [CciBrokerIf B D.BrokerHandle D.CciValue]
    (Γ : CallbackImpl → Payload D → Prog D) {n : ℕ} {p : D.Param} {pwd : Option ℕ} {w : World D B}
    (hgate : writeRefusal p pwd (w.param p) = none) (hfuel : ((w.param p).vec .preWrite).length < n)
    (v : D.Value p) (o : CciOriginator) :
    setRawValue (interp Γ n) p v pwd o w = rawWrite (interp Γ n) p v o w ∧
      (ConsultsAll (interp Γ n) p v o w ↔
        if (w.param p).oncall .preWrite then (w.param p).vec .preWrite = []
        else Passing (interp Γ n) p v o ((w.param p).vec .preWrite) 0 (enterDispatch p .preWrite w)) := by
  refine ⟨?_, ?_⟩
  · rw [setRawValue_eq, hgate]
  · rw [ConsultsAll, preWriteCallback_eq_guarded]
    cases hg : (w.param p).oncall .preWrite with
    | true =>
      rw [guarded_skip hg, if_pos rfl, List.self_eq_append_right, List.map_eq_nil_iff]
    | false =>
      have hfuel' : ((w.param p).vec .preWrite).length < (interp Γ n : Interp D B).fuel := by
        cases n with
        | zero => exact absurd hfuel (Nat.not_lt_zero _)
        | succ n => exact hfuel
      have hon : ((enterDispatch p .preWrite w).param p).oncall .preWrite = true := by
        rw [param_enterDispatch, CciParam.oncall_setOncall, if_pos rfl]
      rw [guarded_open hg, dispatch_consulted, if_neg Bool.false_ne_true,
        ← consulted_enterDispatch p .preWrite w]
      exact forEach_consults_iff (interp_asksNone Γ n) _ hfuel' 0 true hon

/-- A parameter with two pre-write callbacks. -/
def twoJudges (throws : Bool) : World (natDesign Unit throws) (ConsumingBroker Unit ℕ) :=
  let w := natWorld throws (fun _ => "top.p") (fun _ => 0) .unknown {}
  w.setParam () ((w.param ()).setVec .preWrite
    [⟨some (.impl ⟨1, CallbackKind.preWrite.signature 0⟩), .unknown⟩,
      ⟨some (.impl ⟨2, CallbackKind.preWrite.signature 0⟩), .unknown⟩])

/-- The first callback rejects every value. -/
def firstRejects (throws : Bool) (f : CallbackImpl) (_ : Payload (natDesign Unit throws)) :
    Prog (natDesign Unit throws) := .ret (f.addr != 1)

/-- With reports that do not throw. -/
theorem pre_write_consults_silent :
    ConsultsAll (interp (firstRejects false) 3) () (5 : ℕ) .unknown (twoJudges false) := by
  have hgate : writeRefusal (D := natDesign Unit false) () none ((twoJudges false).param ()) = none :=
    rfl
  refine (pre_write_consults_exact (firstRejects false) (n := 3) (w := twoJudges false) hgate
    (by decide) (5 : ℕ) .unknown).2.2 ?_
  rw [if_neg (by decide)]
  refine ⟨rfl, ⟨_, rfl, fun f s h => by cases h⟩, .inl ⟨_, ⟨false, _, rfl, .inr ⟨rfl, rfl, rfl⟩⟩, ?_⟩⟩
  refine ⟨rfl, ⟨_, rfl, fun f s h => by cases h⟩, .inl ⟨_, ⟨true, _, rfl, .inl ⟨rfl, rfl⟩⟩, ?_⟩⟩
  exact fun entry h => by cases h

/-- With reports that throw, a rejection keeps the callbacks behind it from being asked. -/
theorem rejection_ends_consultation :
    ¬∀ (throws : Bool)
      (Γ : CallbackImpl → Payload (natDesign Unit throws) → Prog (natDesign Unit throws)) (n : ℕ)
      (w : World (natDesign Unit throws) (ConsumingBroker Unit ℕ)) (v : ℕ) (o : CciOriginator),
      writeRefusal (D := natDesign Unit throws) () none (w.param ()) = none →
      ((w.param ()).vec .preWrite).length < n →
      ConsultsAll (D := natDesign Unit throws) (interp Γ n) () v o w := by
  intro h
  have hall := h true (firstRejects true) 3 (twoJudges true) 5 .unknown rfl (by decide)
  have hlength := congrArg List.length hall
  cases hlength

end Cci
