import Cci.Cfg.FastFlags
import Cci.Cfg.Unchanged

/-!
# Post-write callbacks

A post-write callback is told every change of its parameter: its events form an unbroken chain from
the value it started with to the present one.

* `Observing` — callback bodies that leave the parameter alone and do not throw;
* `Tells`, `CompletesTelling` — a dispatch of the post-write list tells every valid entry;
* `Told` — what one command does: nothing, or one change that all valid entries were told;
* `interp_observing` — bodies that only read observe;
* `Unbroken` — the chain;
* `post_write_observers_miss_nothing` — the chain of a run.
-/

namespace Cci

open Effect CciParamTyped

variable {D : Design} {B : Type}

/-! ### Callbacks that observe or veto -/

/-- Callback bodies that leave `p` alone and do not throw; what they answer is their own affair. -/
structure Observing (I : Interp D B) (p : D.Param) : Prop where
  leaves : ∀ g ev, LeavesAlone p CciParam.settled (I.call g ev)
  returns : ∀ g ev w e, (I.call g ev w).1 ≠ .throw e

/-- The values of `p` convert to a `cci_value`, unless a failure to do so is not thrown. -/
def Packs (p : D.Param) : Prop := D.throws = true → ∀ v : D.Value p, (D.pack p v).1 = true

/-- One change of the value of a parameter. -/
structure Change (V : Type) where
  oldValue : V
  newValue : V
  originator : CciOriginator

/-- What a callback registered with the handle originator `paramHandle` is told of it. -/
def Change.event {V : Type} (ch : Change V) (paramHandle : CciOriginator) : ParamEvent V :=
  .write ch.oldValue ch.newValue ch.originator paramHandle

/-- The invocation of one entry of the post-write list; an invalid handle is skipped. -/
def notification (p : D.Param) (ch : Change (D.Value p)) (entry : CallbackObj) :
    Option (CallbackObj × ParamEvent (D.Value p)) :=
  if (typedHandle p .postWrite entry).isSome then some (entry, ch.event entry.originator) else none

/-- `p` was left alone, and its post-write callbacks were told `es`. -/
structure Tells (p : D.Param) (es : List (CallbackObj × ParamEvent (D.Value p)))
    (w w' : World D B) : Prop where
  param : (w'.param p).settled = (w.param p).settled
  postWrites : w'.postWrites p = w.postWrites p ++ es

theorem Tells.trans {p : D.Param} {es es' : List (CallbackObj × ParamEvent (D.Value p))}
    {s t u : World D B} (h : Tells p es s t) (h' : Tells p es' t u) : Tells p (es ++ es') s u :=
  ⟨h'.param.trans h.param, by rw [h'.postWrites, h.postWrites, List.append_assoc]⟩

theorem Same.tells {p : D.Param} {w w' : World D B} (h : Same p CciParam.settled w w') :
    Tells p [] w w' := ⟨h.param, by rw [h.postWrites, List.append_nil]⟩

/-- `m` came back without an exception and told the callbacks `es`. -/
def CompletesTelling {α : Type} (p : D.Param) (es : List (CallbackObj × ParamEvent (D.Value p)))
    (m : CciM D B α) (w : World D B) : Prop :=
  (m w).1.returned = true → ∃ a t, m w = (.ok a, t) ∧ Tells p es w t

namespace CompletesTelling

variable {α β : Type} {p : D.Param} {es es' : List (CallbackObj × ParamEvent (D.Value p))}

theorem bind {m : CciM D B α} {f : α → CciM D B β} {w : World D B} (hm : CompletesTelling p es m w)
    (hf : ∀ a t, m w = (.ok a, t) → Tells p es w t → CompletesTelling p es' (f a) t) :
    CompletesTelling p (es ++ es') (m >>= f) w := by
  intro hret
  rw [Eff.bind_run] at hret
  rcases hrun : m w with ⟨a | e | _ | _, t⟩ <;> rw [hrun] at hret
  · obtain ⟨a', t', hrun', ht⟩ := hm (by rw [hrun]; rfl)
    rw [hrun] at hrun'
    obtain ⟨rfl, rfl⟩ : a = a' ∧ t = t' := by simpa using hrun'
    obtain ⟨b, u, hrun'', hu⟩ := hf a t hrun ht hret
    exact ⟨b, u, (Eff.bind_run_ok hrun f).trans hrun'', ht.trans hu⟩
  · obtain ⟨_, _, hrun', -⟩ := hm (by rw [hrun]; rfl)
    rw [hrun] at hrun'
    cases hrun'
  · cases hret
  · cases hret

theorem of_leaves {m : CciM D B α} {w : World D B} (h : LeavesAlone p CciParam.settled m)
    (hthrow : ∀ e, (m w).1 ≠ .throw e) : CompletesTelling p [] m w := by
  intro hret
  have hs := (h w).2 hret
  rcases hrun : m w with ⟨a | e | _ | _, t⟩ <;> rw [hrun] at hret hs hthrow
  · exact ⟨a, t, rfl, hs.tells⟩
  · exact absurd rfl (hthrow e)
  · cases hret
  · cases hret

theorem of_run {m : CciM D B α} {w t : World D B} {a : α} (h : m w = (.ok a, t))
    (ht : Tells p es w t) : CompletesTelling p es m w := fun _ => ⟨a, t, h, ht⟩

theorem scopedTrue {k : CallbackKind} {m : CciM D B α} {w : World D B}
    (hg : (w.param p).oncall k = false) (hm : CompletesTelling p es m (enterDispatch p k w)) :
    CompletesTelling p es (scopedTrue p k m) w := by
  intro hret
  simp only [CciParamTyped.scopedTrue, Eff.modify_bind_run, Eff.finalizing] at hret ⊢
  rcases hrun : m (enterDispatch p k w) with ⟨a | e | _ | _, t⟩ <;> rw [hrun] at hret
  · obtain ⟨a', t', hrun', ht⟩ := hm (by rw [hrun]; rfl)
    rw [hrun] at hrun'
    obtain ⟨rfl, rfl⟩ : a = a' ∧ t = t' := by simpa using hrun'
    refine ⟨a, _, rfl, ?_, ?_⟩
    · rw [param_leaveDispatch]
      exact watched_settled.scope k _ _ hg (ht.param.trans (by rw [param_enterDispatch]))
    · exact ht.postWrites.trans (by rw [postWrites_enterDispatch])
  · obtain ⟨_, _, hrun', -⟩ := hm (by rw [hrun]; rfl)
    rw [hrun] at hrun'
    cases hrun'
  · cases hret
  · cases hret

end CompletesTelling

section

variable {I : Interp D B} {p : D.Param} (hobs : Observing I p) (hpack : Packs p)

include hpack

theorem cciValueOf_completes (v : D.Value p) (w : World D B) :
    CompletesTelling p [] (cciValueOf p v) w := by
  refine .of_leaves ((same_reports p CciParam.settled).cciValueOf p v) fun e he => ?_
  simp only [cciValueOf] at he
  split at he
  · cases he
  · rename_i hfail
    have hthrows : D.throws = false := by
      by_contra hc
      exact hfail (hpack (by simpa using hc) v)
    simp [Eff.bind_run, reportError_run, hthrows] at he

theorem genericWrap_completes (ev : ParamEvent (D.Value p)) (w : World D B) :
    CompletesTelling p [] (genericWrap p ev) w := by
  have hpure : ∀ (c : ParamEvent D.CciValue) (t : World D B),
      CompletesTelling p [] (pure c : CciM D B _) t := fun c t =>
    .of_run rfl ((same_composable p CciParam.settled).refl t).tells
  cases ev with
  | write oldValue newValue originator paramHandle =>
    refine (cciValueOf_completes hpack oldValue w).bind fun c t _ _ => ?_
    exact (cciValueOf_completes hpack newValue t).bind fun c' u _ _ => hpure _ u
  | read value originator paramHandle =>
    exact (cciValueOf_completes hpack value w).bind fun c t _ _ => hpure _ t

include hobs

/-- Invoking a callback of the post-write list tells it the event. -/
theorem invokeHeld_tells (entry : CallbackObj) (ev : ParamEvent (D.Value p)) (held : Held)
    (w : World D B) :
    CompletesTelling p [(entry, ev)] (invokeHeld I p .postWrite entry ev held) w := by
  have hlog : ∀ t : World D B,
      CompletesTelling p [(entry, ev)] (log (.invoked p .postWrite entry ev)) t := fun t => by
    refine .of_run (t := t.record (.invoked p .postWrite entry ev)) rfl ⟨rfl, ?_⟩
    rw [World.postWrites_record, TraceEvent.postWrite?, dif_pos rfl]
    rfl
  have hcall : ∀ g payload (t : World D B), CompletesTelling p [] (I.call g payload) t :=
    fun g payload t => .of_leaves (hobs.leaves g payload) (hobs.returns g payload t)
  cases held with
  | impl g => exact (hlog w).bind fun _ t _ _ => hcall g _ t
  | adapt g sig =>
    refine (genericWrap_completes hpack ev w).bind fun c t _ _ => ?_
    exact (hlog t).bind fun _ u _ _ => hcall g _ u

/-- One round of the loop over the post-write list. -/
theorem observerEntry_tells (ch : Change (D.Value p)) (entry : CallbackObj) (w : World D B) :
    CompletesTelling p (notification p ch entry).toList (observerEntry I p .postWrite
      (fun _ entry => ch.event entry.originator) entry ()) w := by
  have hpure : ∀ t : World D B, CompletesTelling p [] (pure () : CciM D B Unit) t := fun t =>
    .of_run rfl ((same_composable p CciParam.settled).refl t).tells
  cases hh : typedHandle p .postWrite entry with
  | none => simpa [observerEntry, notification, hh] using hpure w
  | some held =>
    have hinv := (invokeHeld_tells hobs hpack entry (ch.event entry.originator) held w).bind
      fun _ t _ _ => hpure t
    simpa [observerEntry, notification, hh, invokeTyped, CompletesTelling, getParam] using hinv

/-- The loop over the post-write list tells every valid entry, in the order of registration. -/
theorem forEach_tells (ch : Change (D.Value p)) (ℓ : List CallbackObj) :
    ∀ fuel i (w : World D B), (w.param p).vec .postWrite = ℓ →
      CompletesTelling p ((ℓ.drop i).filterMap (notification p ch))
        (Eff.forEach (entryAt p .postWrite) (observerEntry I p .postWrite
          fun _ entry => ch.event entry.originator) fuel i ()) w := by
  intro fuel
  induction fuel with
  | zero =>
    intro i w hℓ hret
    simp only [Eff.forEach, entryAt, hℓ] at hret ⊢
    cases hi : ℓ[i]? with
    | none =>
      have hdrop : ℓ.drop i = [] := List.drop_eq_nil_of_le (List.getElem?_eq_none_iff.1 hi)
      exact ⟨(), w, rfl, by rw [hdrop]; exact ((same_composable p CciParam.settled).refl w).tells⟩
    | some entry =>
      rw [hi] at hret
      cases hret
  | succ fuel ih =>
    intro i w hℓ
    cases hi : ℓ[i]? with
    | none =>
      have hdrop : ℓ.drop i = [] := List.drop_eq_nil_of_le (List.getElem?_eq_none_iff.1 hi)
      have hrun : Eff.forEach (entryAt p .postWrite) (observerEntry I p .postWrite
          fun _ entry => ch.event entry.originator) (fuel + 1) i () w = (.ok (), w) := by
        simp only [Eff.forEach, entryAt, hℓ, hi]
      refine .of_run hrun ?_
      rw [hdrop]
      exact ((same_composable p CciParam.settled).refl w).tells
    | some entry =>
      have hdrop : ℓ.drop i = entry :: ℓ.drop (i + 1) := by
        obtain ⟨hlt, rfl⟩ := List.getElem?_eq_some_iff.1 hi
        exact List.drop_eq_getElem_cons hlt
      have hstep := (observerEntry_tells hobs hpack ch entry w).bind fun _ t _ ht =>
        ih (i + 1) t ((vec_of_settled ht.param .postWrite).trans hℓ)
      have hevents : (ℓ.drop i).filterMap (notification p ch) =
          (notification p ch entry).toList ++ (ℓ.drop (i + 1)).filterMap (notification p ch) := by
        rw [hdrop, List.filterMap_cons]
        cases notification p ch entry <;> rfl
      rw [hevents]
      simpa only [CompletesTelling, Eff.forEach, entryAt, hℓ, hi] using hstep

/-- `post_write_callback` tells every valid entry of the list. -/
theorem postWriteCallback_tells (ch : Change (D.Value p)) {w : World D B}
    (hg : (w.param p).oncall .postWrite = false) :
    CompletesTelling p (((w.param p).vec .postWrite).filterMap (notification p ch))
      (postWriteCallback I p ch.oldValue ch.newValue ch.originator) w := by
  have hloop := forEach_tells hobs hpack ch _ I.fuel 0 (enterDispatch p .postWrite w) rfl
  rw [List.drop_zero, param_enterDispatch, CciParam.vec_setOncall] at hloop
  have hscope := CompletesTelling.scopedTrue hg hloop
  have hrun : postWriteCallback I p ch.oldValue ch.newValue ch.originator w
      = scopedTrue p .postWrite (Eff.forEach (entryAt p .postWrite) (observerEntry I p .postWrite
          fun _ entry => ch.event entry.originator) I.fuel 0 ()) w := by
    rw [postWriteCallback, observe_eq_guarded, guarded_open hg]
    rfl
  simpa only [CompletesTelling, hrun] using hscope

end

/-! ### What one command tells -/

/-- `p` shows the same, and its post-write callbacks were told nothing; or it shows a change that
every valid entry of the post-write list was told. -/
inductive Told (p : D.Param) (w w' : World D B) : Prop where
  | silent (h : Same p CciParam.shown w w') : Told p w w'
  | change (ch : Change (D.Value p)) (hold : (w.param p).mValue = ch.oldValue)
      (hnew : (w'.param p).shown = (ch.newValue, ch.originator))
      (hpost : w'.postWrites p = w.postWrites p ++
        ((w.param p).vec .postWrite).filterMap (notification p ch)) : Told p w w'

theorem Told.trans_same {p : D.Param} {w u t : World D B} (h : Told p w u)
    (h' : Same p CciParam.shown u t) : Told p w t := by
  cases h with
  | silent h => exact .silent ((same_composable p _).trans h h')
  | change ch hold hnew hpost =>
    exact .change ch hold (h'.param.trans hnew) (h'.postWrites.trans hpost)

theorem Told.of_settled {p : D.Param} {w u t : World D B} (h : Same p CciParam.settled w u)
    (h' : Told p u t) : Told p w t := by
  cases h' with
  | silent h' => exact .silent ((same_composable p _).trans (h.mono shown_of_settled) h')
  | change ch hold hnew hpost =>
    refine .change ch ?_ hnew ?_
    · rw [← hold]
      exact congrArg Prod.fst (shown_of_settled _ _ h.param).symm
    · rw [hpost, h.postWrites, vec_of_settled h.param]

/-- A computation that came back left `p` told. -/
def TellsAt {α : Type} (p : D.Param) (m : CciM D B α) (w : World D B) : Prop :=
  (m w).1.returned = true → Told p w (m w).2

namespace TellsAt

variable {α β : Type} {p : D.Param}

theorem of_leaves {m : CciM D B α} (h : LeavesAlone p CciParam.shown m) (w : World D B) :
    TellsAt p m w := fun hret => .silent ((h w).2 hret)

theorem congr {m m' : CciM D B α} {w : World D B} (h : TellsAt p m w) (heq : m' w = m w) :
    TellsAt p m' w := by
  simpa only [TellsAt, heq] using h

/-- What leaves the whole parameter alone may go first. -/
theorem after {m : CciM D B α} {f : α → CciM D B β} {w : World D B}
    (hm : LeavesAlone p CciParam.settled m)
    (hf : ∀ a t, m w = (.ok a, t) → Same p CciParam.settled w t → TellsAt p (f a) t) :
    TellsAt p (m >>= f) w := by
  intro hret
  have hs := (hm w).2
  rw [Eff.bind_run] at hret ⊢
  rcases hrun : m w with ⟨a | e | _ | _, t⟩ <;> rw [hrun] at hret hs
  · exact .of_settled (hs rfl) (hf a t hrun (hs rfl) hret)
  · exact .silent ((hs rfl).mono shown_of_settled)
  · cases hret
  · cases hret

/-- What leaves the value alone may go last. -/
theorem before {m : CciM D B α} {f : α → CciM D B β} {w : World D B} (hm : TellsAt p m w)
    (hf : ∀ a, LeavesAlone p CciParam.shown (f a)) : TellsAt p (m >>= f) w := by
  intro hret
  rw [TellsAt] at hm
  rw [Eff.bind_run] at hret ⊢
  rcases hrun : m w with ⟨a | e | _ | _, t⟩ <;> rw [hrun] at hret hm
  · exact (hm rfl).trans_same ((hf a t).2 hret)
  · exact hm rfl
  · cases hret
  · cases hret

theorem finalizing {m : CciM D B α} {g : World D B → World D B} {w : World D B}
    (hm : TellsAt p m w) (hg : ∀ t, Same p CciParam.shown t (g t)) :
    TellsAt p (Eff.finalizing g m) w := by
  intro hret
  rw [TellsAt] at hm
  simp only [Eff.finalizing] at hret ⊢
  rcases hrun : m w with ⟨a | e | _ | _, t⟩ <;> rw [hrun] at hret hm
  · exact (hm rfl).trans_same (hg t)
  · exact (hm rfl).trans_same (hg t)
  · cases hret
  · cases hret

end TellsAt

section

variable {I : Interp D B} {p : D.Param} (hobs : Observing I p) (hpack : Packs p)

include hobs

theorem preWriteCallback_leaves (v : D.Value p) (o : CciOriginator) :
    LeavesAlone p CciParam.settled (preWriteCallback I p v o) :=
  (same_closed watched_settled hobs.leaves).preWriteCallback
    (fun h => CallbackKind.noConfusion h.2) v o

include hpack

/-- The assignments of a write and the post-write callbacks, when these are not running. -/
theorem commit_tells (v : D.Value p) (o : CciOriginator) {w : World D B}
    (hg : (w.param p).oncall .postWrite = false) :
    TellsAt p (commit I p v o (w.param p).mValue) w := by
  intro hret
  rw [commit_run] at hret ⊢
  have hparam : (w.setParam p (stored v o (w.param p))).param p = stored v o (w.param p) :=
    w.param_setParam p _
  obtain ⟨_, t, hrun, ht⟩ := postWriteCallback_tells hobs hpack
    (w := w.setParam p (stored v o (w.param p))) ⟨(w.param p).mValue, v, o⟩
    (by rw [hparam]; exact hg) hret
  rw [hrun]
  refine .change ⟨(w.param p).mValue, v, o⟩ rfl ?_ ?_
  · exact (shown_of_settled _ _ ht.param).trans (by rw [hparam]; rfl)
  · exact ht.postWrites.trans (by rw [hparam]; rfl)

/-- What follows an accepted pre-write is preceded by nothing that shows. -/
theorem afterPreWrite_tells (v : D.Value p) (o : CciOriginator) {f : Bool → CciM D B Bool}
    {w : World D B} (hg : (w.param p).oncall .postWrite = false) (hfalse : f false = pure false)
    (htrue : ∀ t, (t.param p).shown = (w.param p).shown →
      TellsAt p (commit I p v o (t.param p).mValue) t → TellsAt p (f true) t) :
    TellsAt p (preWriteCallback I p v o >>= f) w := by
  refine .after (preWriteCallback_leaves hobs v o) fun b t _ ht => ?_
  cases b with
  | false =>
    rw [hfalse]
    exact .of_leaves ((same_reports p _).pure false) t
  | true =>
    exact htrue t (shown_of_settled _ _ ht.param)
      (commit_tells hobs hpack v o ((oncall_of_settled ht.param .postWrite).trans hg))

theorem rawWrite_tells (v : D.Value p) (o : CciOriginator) {w : World D B}
    (hg : (w.param p).oncall .postWrite = false) : TellsAt p (rawWrite I p v o) w := by
  refine afterPreWrite_tells hobs hpack v o hg rfl fun t _ hcommit => ?_
  refine TellsAt.congr (hcommit.before (f := fun _ => do
    modifyParam p fun q => { q with fastWrite := fastWriteAllowed p o q }
    pure true) fun _ => ?_) rfl
  exact Between.bind (same_composable p _) (modifyParam_same fun _ => rfl) fun _ =>
    (same_reports p _).pure true

theorem applyValue_tells (v : D.Value p) (o : CciOriginator)
    {old : CciParam (D.Value p) → D.Value p} {w : World D B}
    (hold : ∀ q, q.shown = (w.param p).shown → old q = q.mValue)
    (hg : (w.param p).oncall .postWrite = false) : TellsAt p (applyValue I p v o old) w := by
  refine afterPreWrite_tells hobs hpack v o hg rfl fun t hshown hcommit => ?_
  rw [← hold _ hshown] at hcommit
  exact TellsAt.congr (hcommit.before (f := fun _ => pure true) fun _ =>
    (same_reports p _).pure true) rfl

theorem setRawValue_tells (v : D.Value p) (pwd : Option ℕ) (o : CciOriginator) {w : World D B}
    (hg : (w.param p).oncall .postWrite = false) : TellsAt p (setRawValue I p v pwd o) w := by
  have heq := setRawValue_eq I p v pwd o w
  cases hr : writeRefusal p pwd (w.param p) with
  | some r =>
    rw [hr] at heq
    exact TellsAt.congr (.of_leaves ((same_reports p _).refuse r) w) heq
  | none =>
    rw [hr] at heq
    exact (rawWrite_tells hobs hpack v o hg).congr heq

theorem presetCciValue_tells (c : D.CciValue) (o : CciOriginator) {w : World D B}
    (hg : (w.param p).oncall .postWrite = false) : TellsAt p (presetCciValue I p c o) w := by
  refine TellsAt.congr (.after ((same_reports p _).cciValueGet p c) fun v t _ ht => ?_)
    (presetCciValue_eq I p c o w)
  refine applyValue_tells hobs hpack v o (fun q hq => ?_)
    ((oncall_of_settled ht.param .postWrite).trans hg)
  rw [shown_of_settled _ _ ht.param] at hq
  exact (congrArg Prod.fst hq).symm

variable [CciBrokerIf B D.BrokerHandle D.CciValue]

theorem reset_tells {w : World D B} (hg : (w.param p).oncall .postWrite = false) :
    TellsAt p (reset I p) w := by
  have heq := reset_eq I p w
  split at heq
  · exact TellsAt.congr (.of_leaves ((same_reports p _).pure false) w) heq
  · split at heq
    · exact TellsAt.congr ((presetCciValue_tells hobs hpack _ _ hg).before fun _ =>
        (same_reports p _).pure true) heq
    · exact (applyValue_tells hobs hpack _ _ (fun _ _ => rfl) hg).congr heq

omit hpack in
/-- A command that does not write `p` shows nothing new in it. -/
theorem run_leaves (c : Cmd D) (hc : ¬c.writes p) : LeavesAlone p CciParam.shown (c.run I) := by
  have hcall : ∀ g ev, LeavesAlone p CciParam.shown (I.call g ev) := fun g ev w =>
    ⟨trivial, fun hret => ((hobs.leaves g ev w).2 hret).mono shown_of_settled⟩
  have hG : ∀ {r : D.Param} {k : CallbackKind}, r ≠ p ∨ k ≠ .postWrite →
      ¬(r = p ∧ k = .postWrite) := fun h hrk => h.elim (· hrk.1) (· hrk.2)
  refine (same_closed watched_shown hcall).run_all
    (fun _ => ⟨hG (.inr (by decide)), hG (.inr (by decide))⟩) c (fun r hr => ?_)
    (shown_administers p) (shown_registers p)
  have hne : r ≠ p := fun hrp => hc (hrp ▸ hr)
  exact ⟨same_stores hne, hG (.inl hne), hG (.inl hne)⟩

/-- Every command from the top level tells what it does; an owner's write must not be a fast one. -/
theorem run_tells (c : Cmd D) {w : World D B} (hg : (w.param p).oncall .postWrite = false)
    (hslow : (w.param p).fastWrite = false) : TellsAt p (c.run I) w := by
  have hans : ∀ {α : Type} {m : CciM D B α} (f : α → Answer D), TellsAt p m w →
      TellsAt p (m >>= fun a => pure (f a)) w :=
    fun f hm => hm.before fun a => (same_reports p _).pure (f a)
  by_cases hw : c.writes p
  · cases c with
    | setValue r v =>
      cases hw
      exact hans _ ((setRawValue_tells hobs hpack v none _ hg).congr (setValue_slow hslow I v))
    | setValuePwd r v pwd =>
      cases hw
      exact hans _ ((setRawValue_tells hobs hpack v pwd _ hg).congr (Eff.gets_bind_run _ _ w))
    | handleSetValue r v pwd o =>
      cases hw
      exact hans _ (setRawValue_tells hobs hpack v pwd o hg)
    | setCciValue r c pwd o =>
      cases hw
      refine hans _ (.after ((same_reports p _).cciValueGet p c) fun v t _ ht => ?_)
      exact setRawValue_tells hobs hpack v pwd o ((oncall_of_settled ht.param .postWrite).trans hg)
    | reset r =>
      cases hw
      exact hans _ (reset_tells hobs hpack hg)
    | _ => exact hw.elim
  · exact .of_leaves (run_leaves hobs c hw) w

/-- A command from the top level with its trace. -/
theorem exec_tells (c : Cmd D) {w : World D B} (hg : (w.param p).oncall .postWrite = false)
    (hslow : (w.param p).fastWrite = false) : TellsAt p (exec I c) w := by
  have hstep : Same p CciParam.settled w (w.record (.step c w.store)) := same_record w rfl
  have hrun := (run_tells hobs hpack c (w := w.record (.step c w.store)) hg hslow).finalizing
    (g := fun t => t.record (.done c t.store)) fun t => same_record t rfl
  exact fun hret => .of_settled hstep (hrun hret)

end

/-! ### Bodies that only read -/

section

variable [CciBrokerIf B D.BrokerHandle D.CciValue]

/-- The commands that only read. -/
def Cmd.reads : Cmd D → Bool
  | .getValue _ | .handleGetValue _ _ | .getCciValue _ _ | .isLocked _ => true
  | _ => false

/-- A program that only reads and ends with a verdict. -/
inductive Prog.Reads : Prog D → Prop where
  | ret (b : Bool) : Prog.Reads (.ret b)
  | cmd {c : Cmd D} {k : Except Report (Answer D) → Prog D} :
      c.reads = true → (∀ a, Prog.Reads (k a)) → Prog.Reads (.cmd c k)

theorem Prog.Reads.all {prog : Prog D} (h : prog.Reads) : prog.All fun c => c.reads = true := by
  induction h with
  | ret b => exact .ret b
  | cmd hc _ ih => exact .cmd hc ih

/-- A program that does not raise an exception itself catches those of its calls. -/
theorem Prog.Reads.runProg_returns {prog : Prog D} (h : prog.Reads) (I : Interp D B) :
    ∀ w e, (runProg I prog w).1 ≠ .throw e := by
  induction h with
  | ret b => exact fun w e he => by cases he
  | @cmd c k _ _ ih =>
    intro w e
    have hrun : runProg I (.cmd c k) w = (Eff.attempt (exec I c) >>= fun a => runProg I (k a)) w :=
      rfl
    rw [hrun, Eff.bind_run, Eff.attempt]
    rcases exec I c w with ⟨a | e' | _ | _, t⟩
    · exact ih _ t e
    · exact ih _ t e
    · exact fun he => by cases he
    · exact fun he => by cases he

theorem exec_reads_leaves {I : Interp D B} (p : D.Param)
    (hcall : ∀ g ev, LeavesAlone p CciParam.settled (I.call g ev)) {c : Cmd D}
    (hc : c.reads = true) : LeavesAlone p CciParam.settled (exec I c) := by
  have hC := same_closed watched_settled hcall
  have hG : ∀ r : D.Param, ¬(r = p ∧ CallbackKind.preRead = .postWrite) ∧
      ¬(r = p ∧ CallbackKind.postRead = .postWrite) := fun r =>
    ⟨fun h => CallbackKind.noConfusion h.2, fun h => CallbackKind.noConfusion h.2⟩
  have hans : ∀ {α : Type} {m : CciM D B α} (f : α → Answer D), LeavesAlone p CciParam.settled m →
      LeavesAlone p CciParam.settled (m >>= fun a => pure (f a)) :=
    fun f hm => Between.bind (same_composable p _) hm fun a => hC.outer.pure (f a)
  have hrun : LeavesAlone p CciParam.settled (c.run I) := by
    cases c with
    | getValue r => exact hans _ (hC.getValue (hG r))
    | handleGetValue r o => exact hans _ (hC.getRawValue (hG r) o)
    | getCciValue r o => exact hans _ (hC.getCciValue (hG r) o)
    | isLocked r => exact hans _ (hC.outer.getParam r)
    | _ => cases hc
  intro w
  have hstep : Same p CciParam.settled w (w.record (.step c w.store)) := same_record w rfl
  refine (hrun _).scope (fun _ _ => trivial) (fun t ht => ?_) fun _ _ => trivial
  exact (same_composable p _).trans ((same_composable p _).trans hstep ht) (same_record t rfl)

/-- Bodies that only read observe. -/
theorem interp_observing {Γ : CallbackImpl → Payload D → Prog D} (hΓ : ∀ f ev, (Γ f ev).Reads)
    (p : D.Param) (n : ℕ) : Observing (interp Γ n : Interp D B) p := by
  induction n with
  | zero => exact ⟨fun _ _ _ => ⟨trivial, fun h => Bool.noConfusion h⟩, fun _ _ _ _ h => by cases h⟩
  | succ n ih =>
    refine ⟨fun f ev => ?_, fun f ev => (hΓ f ev).runProg_returns (interp Γ n)⟩
    exact (same_reports p CciParam.settled).runProg (interp Γ n) (interp Γ n) _
      (fun c hc => exec_reads_leaves p ih.leaves hc) (hΓ f ev).all

end

/-! ### Runs -/

/-- The entries equal to `c` are told an event each. -/
theorem notifications_to {p : D.Param} {c : CallbackObj}
    (hc : (typedHandle p .postWrite c).isSome) (ch : Change (D.Value p)) (ℓ : List CallbackObj) :
    (ℓ.filterMap (notification p ch)).filterMap (fun x => if x.1 = c then some x.2 else none)
      = List.replicate (ℓ.count c) (ch.event c.originator) := by
  induction ℓ with
  | nil => rfl
  | cons entry ℓ ih =>
    by_cases he : entry = c
    · subst he
      simp [notification, hc, ih, List.replicate_succ]
    · cases hv : (typedHandle p .postWrite entry).isSome <;>
        simp [notification, hv, ih, he]

/-- An unbroken chain of changes from one value to another. -/
inductive Unbroken {V : Type} : V → List (Change V) → V → Prop where
  | nil (v : V) : Unbroken v [] v
  | cons {ch : Change V} {chs : List (Change V)} {v : V} :
      Unbroken ch.newValue chs v → Unbroken ch.oldValue (ch :: chs) v

variable [CciBrokerIf B D.BrokerHandle D.CciValue]

/-- In a run from the top level no guard is set between the commands. -/
theorem calls_oncall {Γ : CallbackImpl → Payload D → Prog D} {n : ℕ} {w₀ w : World D B}
    (h₀ : w₀.Initial) {cs : List (Cmd D)} (hrun : Calls (interp Γ n) w₀ cs w) (p : D.Param)
    (k : CallbackKind) : (w.param p).oncall k = false := by
  have hrest := hrun.relates restores_composable fun c _ => exec_restores (interp_restores Γ n) c
  rw [hrest.oncall p k, CciParam.oncall, (h₀.1 p).2.1 k]

/-- The command `d` of the run `cs` from `w` made the change `ch` of `p`, at a moment when `c` was
registered `times` times. -/
def MadeBy (I : Interp D B) (p : D.Param) (c : CallbackObj) (w : World D B) (cs : List (Cmd D))
    (ch : Change (D.Value p)) (times : ℕ) : Prop :=
  ∃ ds d u, ds ++ [d] <+: cs ∧ Calls I w ds u ∧ (u.param p).mValue = ch.oldValue ∧
    ((exec I d u).2.param p).mValue = ch.newValue ∧
    ((exec I d u).2.param p).mValueOrigin = ch.originator ∧
    times = ((u.param p).vec .postWrite).count c

/-- **Post-write observers never miss a change.**  In a run whose callbacks observe or veto, take a
segment `cs` from `w` to `w'` in which a post-write callback `c` of matching signature stays
registered.  The events it received in the segment are those of a chain of changes that leads from
the value at its start to the value at its end, one event for each time it is registered; each change
was made by one command of the segment, and its originator is the value origin that this command
recorded. -/
theorem post_write_observers_miss_nothing (Γ : CallbackImpl → Payload D → Prog D) (n : ℕ)
    {p : D.Param} (hobs : Observing (interp Γ n : Interp D B) p) (hpack : Packs p)
    {w₀ w w' : World D B} (h₀ : w₀.Initial) {cs₀ cs : List (Cmd D)}
    (hrun₀ : Calls (interp Γ n) w₀ cs₀ w) (hrun : Calls (interp Γ n) w cs w') {c : CallbackObj}
    (hsig : (typedHandle p .postWrite c).isSome)
    (hstays : ∀ ds u, ds <+: cs → Calls (interp Γ n) w ds u → c ∈ (u.param p).vec .postWrite) :
    ∃ chs : List (Change (D.Value p) × ℕ),
      w'.received p c = w.received p c ++
        chs.flatMap (fun x => List.replicate x.2 (x.1.event c.originator)) ∧
      Unbroken (w.param p).mValue (chs.map Prod.fst) (w'.param p).mValue ∧
      ∀ x ∈ chs, 1 ≤ x.2 ∧ MadeBy (interp Γ n) p c w cs x.1 x.2 := by
  induction hrun generalizing cs₀ with
  | nil w => exact ⟨[], by simp, .nil _, by simp⟩
  | @cons w w' d cs hret hrun ih =>
    have hstep : Calls (interp Γ n) w [d] (exec (interp Γ n) d w).2 := .cons hret (.nil _)
    obtain ⟨chs, hevents, hchain, hmade⟩ := ih (hrun₀.append hstep) fun ds u hds hu =>
      hstays (d :: ds) u (List.cons_prefix_cons.2 ⟨rfl, hds⟩) (.cons hret hu)
    have hmade' : ∀ x ∈ chs, 1 ≤ x.2 ∧ MadeBy (interp Γ n) p c w (d :: cs) x.1 x.2 := by
      intro x hx
      obtain ⟨hone, ds, e, u, hds, hu, hrest⟩ := hmade x hx
      exact ⟨hone, d :: ds, e, u, List.cons_prefix_cons.2 ⟨rfl, hds⟩, .cons hret hu, hrest⟩
    have hmem : c ∈ (w.param p).vec .postWrite := hstays [] w List.nil_prefix (.nil w)
    have hslow : (w.param p).fastWrite = false := by
      have hflags : FastFlagsSound p (w.param p) :=
        fastFlags_calls h₀ hrun₀ w.store w.store_mem_visible p
      by_contra hon
      obtain ⟨-, -, -, hvec⟩ := hflags.write (by simpa using hon)
      exact List.not_mem_nil (hvec ▸ hmem)
    cases exec_tells hobs hpack d (calls_oncall h₀ hrun₀ p .postWrite) hslow hret with
    | silent hsame =>
      refine ⟨chs, ?_, ?_, hmade'⟩
      · rw [hevents, World.received, World.received, hsame.postWrites]
      · have hvalue : ((exec (interp Γ n) d w).2.param p).mValue = (w.param p).mValue :=
          congrArg Prod.fst hsame.param
        rw [← hvalue]
        exact hchain
    | change ch hold hnew hpost =>
      have hvalue : ((exec (interp Γ n) d w).2.param p).mValue = ch.newValue :=
        congrArg Prod.fst hnew
      have horigin : ((exec (interp Γ n) d w).2.param p).mValueOrigin = ch.originator :=
        congrArg Prod.snd hnew
      have hreceived : (exec (interp Γ n) d w).2.received p c = w.received p c ++
          List.replicate (((w.param p).vec .postWrite).count c) (ch.event c.originator) := by
        rw [World.received, hpost, List.filterMap_append, notifications_to hsig]
        rfl
      refine ⟨(ch, ((w.param p).vec .postWrite).count c) :: chs, ?_, ?_, ?_⟩
      · rw [hevents, hreceived, List.flatMap_cons, List.append_assoc]
      · rw [hold, List.map_cons]
        exact .cons (hvalue ▸ hchain)
      · intro x hx
        rcases List.mem_cons.1 hx with rfl | hx
        · exact ⟨List.count_pos_iff.2 hmem, [], d, w, by simp, .nil w, hold, hvalue, horigin, rfl⟩
        · exact hmade' x hx

/-- A post-write callback that stays registered over an owner's write. -/
theorem post_write_observers_miss_nothing_write :
    let I : Interp (natDesign Unit true) (ConsumingBroker Unit ℕ) := interp (fun _ _ => .ret true) 1
    let w₀ := natWorld true (fun _ => "top.p") (fun _ => 1) (.named "owner") {}
    let c : CallbackObj := ⟨some (.impl ⟨5, CallbackKind.postWrite.signature 0⟩), .named "owner"⟩
    let w := (exec I (.registerCallback () .postWrite c.callback) w₀).2
    let w' := (exec I (.setValue () (7 : ℕ)) w).2
    ∃ chs : List (Change ((natDesign Unit true).Value ()) × ℕ),
      w'.received () c = w.received () c ++
        chs.flatMap (fun x => List.replicate x.2 (x.1.event c.originator)) ∧
      Unbroken (w.param ()).mValue (chs.map Prod.fst) (w'.param ()).mValue ∧
      ∀ x ∈ chs, 1 ≤ x.2 ∧ MadeBy I () c w [.setValue () (7 : ℕ)] x.1 x.2 := by
  intro I w₀ c w w'
  have hrun₀ : Calls I w₀ [.registerCallback () .postWrite c.callback] w := .cons rfl (.nil _)
  have hrun : Calls I w [.setValue () (7 : ℕ)] w' := .cons rfl (.nil _)
  have hobs : ∀ p, Observing I p := fun p => interp_observing (fun _ _ => .ret true) p 1
  have hsig : (typedHandle (D := natDesign Unit true) () .postWrite c).isSome := by decide
  refine post_write_observers_miss_nothing _ 1 (hobs ()) (fun _ _ => rfl) (natWorld_initial _ _ _ _ _)
    hrun₀ hrun hsig fun ds u hds hu => ?_
  rcases List.prefix_cons_iff.1 hds with rfl | ⟨rest, rfl, hrest⟩
  · cases hu
    exact List.mem_singleton_self c
  · obtain rfl := List.prefix_nil.1 hrest
    cases hu with
    | cons _ hu =>
      cases hu
      exact List.mem_singleton_self c

end Cci
