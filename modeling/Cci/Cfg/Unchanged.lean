import Cci.Cfg.Reentrancy

/-!
# What leaves a parameter alone

Most operations leave a parameter, or what it shows, as it was, and tell its post-write callbacks
nothing.  The relation is closed under everything but the dispatch of these callbacks and the
assignments of a write.

* `World.postWrites`, `World.received` — what the post-write callbacks of a parameter were told;
* `Same` — a projection of a parameter is as it was and no post-write callback of it was told
  anything; `LeavesAlone` of a computation;
* `Watched` — the projections for which the relation survives a dispatch: `CciParam.settled` and
  `CciParam.shown`;
* `same_closed`, `same_stores`, `shown_administers`, `shown_registers` — the operations.
-/

namespace Cci

open Effect CciParamTyped

variable {D : Design} {B : Type}

/-! ### What callbacks are told -/

/-- An invocation of a post-write callback of `p`: its entry, and the event. -/
def TraceEvent.postWrite? (p : D.Param) :
    TraceEvent D B → Option (CallbackObj × ParamEvent (D.Value p))
  | .invoked r .postWrite entry ev => if h : r = p then some (entry, h ▸ ev) else none
  | _ => none

/-- The invocations of post-write callbacks of `p` so far. -/
def World.postWrites (p : D.Param) (w : World D B) : List (CallbackObj × ParamEvent (D.Value p)) :=
  w.trace.filterMap (TraceEvent.postWrite? p)

/-- The events the callbacks registered as `c` received so far. -/
def World.received (p : D.Param) (c : CallbackObj) (w : World D B) :
    List (ParamEvent (D.Value p)) :=
  (w.postWrites p).filterMap fun x => if x.1 = c then some x.2 else none

theorem World.postWrites_record (p : D.Param) (w : World D B) (e : TraceEvent D B) :
    (w.record e).postWrites p = w.postWrites p ++ (e.postWrite? p).toList := by
  simp only [World.postWrites, World.trace_record, List.filterMap_append]
  cases h : e.postWrite? p <;> simp [h]

theorem TraceEvent.postWrite?_invoked {p r : D.Param} {k : CallbackKind}
    (h : ¬(r = p ∧ k = .postWrite)) (entry : CallbackObj) (ev : ParamEvent (D.Value r)) :
    (TraceEvent.invoked r k entry ev : TraceEvent D B).postWrite? p = none := by
  cases k with
  | postWrite => exact dif_neg fun hr => h ⟨hr, rfl⟩
  | _ => rfl

/-- The projection `f` of `p` is as it was, and its post-write callbacks were told nothing. -/
structure Same {α : Type} (p : D.Param) (f : CciParam (D.Value p) → α) (w w' : World D B) : Prop where
  param : f (w'.param p) = f (w.param p)
  postWrites : w'.postWrites p = w.postWrites p

theorem same_composable {α : Type} (p : D.Param) (f : CciParam (D.Value p) → α) :
    Composable (fun _ _ : World D B => True) (Same p f) where
  refl _ := ⟨rfl, rfl⟩
  trans h h' := ⟨h'.param.trans h.param, h'.postWrites.trans h.postWrites⟩
  weaken _ := trivial
  after _ _ := trivial

theorem Same.mono {α β : Type} {p : D.Param} {f : CciParam (D.Value p) → α}
    {g : CciParam (D.Value p) → β} {w w' : World D B} (h : Same p f w w')
    (hfg : ∀ q q', f q = f q' → g q = g q') : Same p g w w' :=
  ⟨hfg _ _ h.param, h.postWrites⟩

/-- `m` leaves the projection `f` of `p` alone. -/
abbrev LeavesAlone {α β : Type} (p : D.Param) (f : CciParam (D.Value p) → α) (m : CciM D B β) :
    Prop := Between (fun _ _ => True) (Same p f) m

/-- A projection that a dispatch which has come back cannot have changed. -/
structure Watched {T α : Type} (f : CciParam T → α) : Prop where
  fastRead : ∀ q b, f { q with fastRead := b } = f q
  scope : ∀ k q q', q.oncall k = false → f q' = f (q.setOncall k true) →
    f (q'.setOncall k false) = f q

/-- Everything but `fast_read`, which a read recomputes. -/
def CciParam.settled {T : Type} (q : CciParam T) : CciParam T := { q with fastRead := false }

/-- The value and its origin. -/
def CciParam.shown {T : Type} (q : CciParam T) : T × CciOriginator := (q.mValue, q.mValueOrigin)

theorem watched_settled {T : Type} : Watched (CciParam.settled (T := T)) where
  fastRead _ _ := rfl
  scope k q q' hq h := by
    calc (q'.setOncall k false).settled = q'.settled.setOncall k false := rfl
      _ = (q.setOncall k true).settled.setOncall k false := by rw [h]
      _ = ((q.setOncall k true).setOncall k false).settled := rfl
      _ = q.settled := by rw [CciParam.setOncall_setOncall q k hq]

theorem watched_shown {T : Type} : Watched (CciParam.shown (T := T)) where
  fastRead _ _ := rfl
  scope _ _ _ _ h := h

theorem shown_of_settled {T : Type} (q q' : CciParam T) (h : q.settled = q'.settled) :
    q.shown = q'.shown := by
  show q.settled.shown = q'.settled.shown
  rw [h]

theorem vec_of_settled {T : Type} {q q' : CciParam T} (h : q.settled = q'.settled)
    (k : CallbackKind) : q.vec k = q'.vec k := by
  show q.settled.vec k = q'.settled.vec k
  rw [h]

theorem oncall_of_settled {T : Type} {q q' : CciParam T} (h : q.settled = q'.settled)
    (k : CallbackKind) : q.oncall k = q'.oncall k := by
  show q.settled.oncall k = q'.settled.oncall k
  rw [h]

section

variable {α : Type} {p : D.Param} {f : CciParam (D.Value p) → α}

theorem same_record (w : World D B) {e : TraceEvent D B} (he : e.postWrite? p = none) :
    Same p f w (w.record e) :=
  ⟨rfl, by rw [World.postWrites_record, he]; exact List.append_nil _⟩

theorem modifyParam_same {g : CciParam (D.Value p) → CciParam (D.Value p)}
    (hg : ∀ q, f (g q) = f q) : LeavesAlone p f (modifyParam p g : CciM D B Unit) :=
  Between.modify (same_composable p f) fun w => ⟨by rw [World.param_setParam]; exact hg _, rfl⟩

theorem modifyParam_same_of_ne {r : D.Param} (hr : r ≠ p)
    (g : CciParam (D.Value r) → CciParam (D.Value r)) :
    LeavesAlone p f (modifyParam r g : CciM D B Unit) :=
  Between.modify (same_composable p f) fun w =>
    ⟨by rw [World.param_setParam_of_ne w _ (Ne.symm hr)], rfl⟩

variable (p f) in
theorem same_reports : Reports fun α (m _ : CciM D B α) => LeavesAlone p f m where
  toPlumbing := Between.plumbing (same_composable p f)
  report _ := Between.modify (same_composable p f) fun w => same_record w rfl

theorem postWrites_enterDispatch (r : D.Param) (k : CallbackKind) (w : World D B) :
    (enterDispatch r k w).postWrites p = w.postWrites p := by
  simp [World.postWrites, TraceEvent.postWrite?]

/-- Leaving a dispatch: the guard is restored, the rest is as the body left it. -/
theorem same_scopedTrue (hf : Watched f) {β : Type} {r : D.Param} {k : CallbackKind}
    {m : CciM D B β} (hm : LeavesAlone p f m) {w : World D B} (hg : (w.param r).oncall k = false) :
    BetweenAt (fun _ _ => True) (Same p f) (scopedTrue r k m) w := by
  refine (hm _).scope (fun _ _ => trivial) (fun t ht => ?_) fun _ _ => trivial
  refine ⟨?_, ht.postWrites.trans (postWrites_enterDispatch r k w)⟩
  by_cases hr : r = p
  · subst hr
    rw [param_leaveDispatch]
    exact hf.scope k _ _ hg (ht.param.trans (by rw [param_enterDispatch]))
  · rw [param_leaveDispatch_of_ne t k (Ne.symm hr), ht.param,
      param_enterDispatch_of_ne w k (Ne.symm hr)]

/-- The operations that do not dispatch the post-write callbacks of `p`. -/
theorem same_closed (hf : Watched f) {I : Interp D B}
    (hcall : ∀ g ev, LeavesAlone p f (I.call g ev)) :
    Closed I I (fun r k => ¬(r = p ∧ k = .postWrite)) (fun _ m _ => LeavesAlone p f m)
      (fun _ m _ => LeavesAlone p f m) where
  outer := same_reports p f
  inner := same_reports p f
  call := hcall
  invoked r k hrk entry ev := Between.modify (same_composable p f) fun w =>
    same_record w (TraceEvent.postWrite?_invoked hrk entry ev)
  guarded r k init skip _ hact := by
    intro w
    cases hg : (w.param r).oncall k with
    | true => exact .of_run (same_composable p f) (guarded_skip hg) ((same_composable p f).refl w)
    | false =>
      exact (same_scopedTrue hf (Between.forEach (same_composable p f) hact _ _ _) hg).congr
        (guarded_open hg)
  fastRead r := by
    by_cases hr : r = p
    · subst hr
      exact modifyParam_same fun q => hf.fastRead q _
    · exact modifyParam_same_of_ne hr _

theorem same_stores {r : D.Param} (hr : r ≠ p) :
    Stores (fun α (m _ : CciM D B α) => LeavesAlone p f m) r where
  value _ := modifyParam_same_of_ne hr _
  origin _ := modifyParam_same_of_ne hr _
  fastWrite _ := modifyParam_same_of_ne hr _

end

/-! ### Commands that write other parameters -/

/-- An update that leaves the value and its origin alone. -/
theorem modifyParam_shown (p : D.Param) {r : D.Param}
    {g : CciParam (D.Value r) → CciParam (D.Value r)} (hg : ∀ q, (g q).shown = q.shown) :
    LeavesAlone p CciParam.shown (modifyParam r g : CciM D B Unit) := by
  by_cases hr : r = p
  · subst hr
    exact modifyParam_same hg
  · exact modifyParam_same_of_ne hr g

theorem shown_lock {T : Type} (pwd : Option ℕ) (q : CciParam T) :
    (CciParamTyped.lock pwd q).2.shown = q.shown := by
  unfold CciParamTyped.lock CciParamUntyped.lock
  split <;> rfl

theorem shown_unlock {T : Type} (pwd : Option ℕ) (q : CciParam T) :
    (CciParamUntyped.unlock pwd q).2.shown = q.shown := by
  unfold CciParamUntyped.unlock
  split <;> rfl

theorem shown_unregisterCallback {T : Type} (k : CallbackKind) (cb : CallbackHandle)
    (o : CciOriginator) (q : CciParam T) :
    (CciParamUntyped.unregisterCallback k cb o q).2.shown = q.shown := by
  unfold CciParamUntyped.unregisterCallback
  split <;> rfl

theorem shown_administers [CciBrokerIf B D.BrokerHandle D.CciValue] (p : D.Param) :
    Administers fun α (m _ : CciM D B α) => LeavesAlone p CciParam.shown m where
  lock _ pwd := modifyParam_shown p (shown_lock pwd)
  unlock _ pwd := modifyParam_shown p (shown_unlock pwd)
  setPreset := (same_reports p _).setPreset fun _ =>
    Between.modify (same_composable p _) fun _ => ⟨rfl, rfl⟩

theorem shown_registers (p : D.Param) :
    Registers fun α (m _ : CciM D B α) => LeavesAlone p CciParam.shown m where
  register _ _ _ _ := modifyParam_shown p fun _ => rfl
  registerOwn _ _ _ := modifyParam_shown p fun _ => rfl
  unregister _ k cb o := modifyParam_shown p (shown_unregisterCallback k cb o)
  unregisterAll _ _ := modifyParam_shown p fun _ => rfl

end Cci
