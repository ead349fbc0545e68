import Cci.Cfg.Closure
import Cci.Utils.ConsumingBroker

/-!
# Reentrant dispatch

A callback may call any parameter, the dispatched one included.  The four `oncall` guards of each
parameter bound the nesting: a dispatch sets a guard that was clear, and clears it when control
leaves the loop, by a return or by an exception.

* `Restores`, `exec_restores` — a command that came back left the guards and the ghost stack as they
  were, and dispatched no list that was already under dispatch;
* `Stands`, `clearGuards`, `interp_ends` — the nesting is bounded by the number of clear guards, so
  that number and the length of the callback lists bound the fuel;
* `interp_approximates` — more fuel changes nothing;
* `reentrant_dispatch_terminates` — every operation ends.
-/

namespace Cci

open Effect CciParamTyped

variable {D : Design} {B : Type}

/-! ### Guards and the ghost stack -/

/-- The stack holds each list at most once, and only lists whose guard is set. -/
def World.Nested (w : World D B) : Prop :=
  w.stack.Nodup ∧ ∀ x ∈ w.stack, (w.param x.1).oncall x.2 = true

/-- A dispatch starts on a stack that does not hold its list. -/
def TraceEvent.Fresh : TraceEvent D B → Prop
  | .dispatch p k st => ((p, k) :: st).Nodup
  | _ => True

/-- Every dispatch recorded from `w` to `w'` was fresh. -/
def FreshDispatches (w w' : World D B) : Prop :=
  w.Nested → ∀ e ∈ w'.trace, e ∈ w.trace ∨ e.Fresh

/-- Nothing recorded is lost, and what was added holds fresh dispatches only. -/
structure Extends (w w' : World D B) : Prop where
  trace : w.trace ⊆ w'.trace
  fresh : FreshDispatches w w'

/-- The stack, all guards and the owners are as they were. -/
structure Restores (w w' : World D B) : Prop extends Extends w w' where
  stack : w'.stack = w.stack
  oncall : ∀ p k, (w'.param p).oncall k = (w.param p).oncall k
  originator : ∀ p, (w'.param p).mOriginator = (w.param p).mOriginator

theorem Restores.nested {w w' : World D B} (h : Restores w w') (hw : w.Nested) : w'.Nested := by
  constructor
  · rw [h.stack]
    exact hw.1
  · intro x hx
    rw [h.oncall]
    exact hw.2 x (h.stack ▸ hx)

theorem Restores.extends_trans {w₁ w₂ w₃ : World D B} (h : Restores w₁ w₂) (h' : Extends w₂ w₃) :
    Extends w₁ w₃ := by
  refine ⟨List.Subset.trans h.trace h'.trace, fun hw e he => ?_⟩
  rcases h'.fresh (h.nested hw) e he with he' | he'
  · exact h.fresh hw e he'
  · exact .inr he'

theorem restores_composable : Composable (Extends (D := D) (B := B)) Restores where
  refl _ := ⟨⟨fun _ he => he, fun _ _ he => .inl he⟩, rfl, fun _ _ => rfl, fun _ => rfl⟩
  trans h h' := ⟨h.extends_trans h'.toExtends, h'.stack.trans h.stack,
    fun p k => (h'.oncall p k).trans (h.oncall p k),
    fun p => (h'.originator p).trans (h.originator p)⟩
  weaken h := h.toExtends
  after h h' := h.extends_trans h'

theorem restores_of_same_trace {w w' : World D B} (htrace : w'.trace = w.trace)
    (hstack : w'.stack = w.stack)
    (hparam : ∀ p, (∀ k, (w'.param p).oncall k = (w.param p).oncall k) ∧
      (w'.param p).mOriginator = (w.param p).mOriginator) : Restores w w' :=
  ⟨⟨fun _ he => htrace ▸ he, fun _ _ he => .inl (htrace ▸ he)⟩, hstack,
    fun p => (hparam p).1, fun p => (hparam p).2⟩

theorem modifyParam_restores (p : D.Param) {f : CciParam (D.Value p) → CciParam (D.Value p)}
    (hf : ∀ q, (∀ k, (f q).oncall k = q.oncall k) ∧ (f q).mOriginator = q.mOriginator) :
    Between Extends Restores (modifyParam p f : CciM D B Unit) := by
  refine Between.modify restores_composable fun w => restores_of_same_trace rfl rfl fun r => ?_
  by_cases hr : r = p
  · subst hr
    rw [World.param_setParam]
    exact hf _
  · rw [World.param_setParam_of_ne w _ hr]
    exact ⟨fun _ => rfl, rfl⟩

theorem record_restores (w : World D B) {e : TraceEvent D B} (he : e.Fresh) :
    Restores w (w.record e) := by
  refine ⟨⟨List.subset_append_left _ _, fun _ e' he' => ?_⟩, rfl, fun _ _ => rfl, fun _ => rfl⟩
  rcases List.mem_append.1 he' with h | h
  · exact .inl h
  · exact .inr (List.mem_singleton.1 h ▸ he)

theorem restores_reports :
    Reports fun α (m _ : CciM D B α) => Between Extends Restores m where
  toPlumbing := Between.plumbing restores_composable
  report _ := Between.modify restores_composable fun w => record_restores w trivial

/-- Entering a dispatch under a clear guard keeps the stack nested. -/
theorem enterDispatch_nested {w : World D B} {p : D.Param} {k : CallbackKind}
    (hg : (w.param p).oncall k = false) (hw : w.Nested) :
    (enterDispatch p k w).Nested ∧ ((p, k) :: w.stack).Nodup := by
  have hnot : (p, k) ∉ w.stack := fun hin => absurd ((hw.2 _ hin).symm.trans hg) (by decide)
  have hnodup : ((p, k) :: w.stack).Nodup := List.nodup_cons.2 ⟨hnot, hw.1⟩
  refine ⟨⟨hnodup, fun x hx => ?_⟩, hnodup⟩
  show ((w.setParam p ((w.param p).setOncall k true)).param x.1).oncall x.2 = true
  by_cases hp : x.1 = p
  · rcases x with ⟨r, k'⟩
    cases hp
    rw [World.param_setParam, CciParam.oncall_setOncall]
    by_cases hk : k' = k
    · rw [if_pos hk]
    · rw [if_neg hk]
      rcases List.mem_cons.1 hx with h | h
      · exact absurd (congrArg Prod.snd h) hk
      · exact hw.2 _ h
  · rw [World.param_setParam_of_ne w _ hp]
    rcases List.mem_cons.1 hx with h | h
    · exact absurd (congrArg Prod.fst h) hp
    · exact hw.2 _ h

@[simp] theorem trace_enterDispatch (w : World D B) (p : D.Param) (k : CallbackKind) :
    (enterDispatch p k w).trace = w.trace ++ [.dispatch p k w.stack] := rfl
@[simp] theorem trace_leaveDispatch (w : World D B) (p : D.Param) (k : CallbackKind) :
    (leaveDispatch p k w).trace = w.trace := rfl
@[simp] theorem param_enterDispatch (w : World D B) (p : D.Param) (k : CallbackKind) :
    (enterDispatch p k w).param p = (w.param p).setOncall k true := w.param_setParam p _
@[simp] theorem param_leaveDispatch (w : World D B) (p : D.Param) (k : CallbackKind) :
    (leaveDispatch p k w).param p = (w.param p).setOncall k false := w.param_setParam p _

theorem param_enterDispatch_of_ne (w : World D B) {p r : D.Param} (k : CallbackKind) (h : r ≠ p) :
    (enterDispatch p k w).param r = w.param r := w.param_setParam_of_ne _ h
theorem param_leaveDispatch_of_ne (w : World D B) {p r : D.Param} (k : CallbackKind) (h : r ≠ p) :
    (leaveDispatch p k w).param r = w.param r := w.param_setParam_of_ne _ h

theorem enterDispatch_extends {w : World D B} {p : D.Param} {k : CallbackKind}
    (hg : (w.param p).oncall k = false) {t : World D B} (ht : Extends (enterDispatch p k w) t) :
    Extends w t := by
  refine ⟨fun e he => ht.trace (List.mem_append_left _ he), fun hw e he => ?_⟩
  rcases ht.fresh (enterDispatch_nested hg hw).1 e he with h | h
  · rcases List.mem_append.1 h with h' | h'
    · exact .inl h'
    · exact .inr (List.mem_singleton.1 h' ▸ (enterDispatch_nested hg hw).2)
  · exact .inr h

/-- A dispatch that came back cleared the guard it had set. -/
theorem leaveDispatch_restores {w : World D B} {p : D.Param} {k : CallbackKind}
    (hg : (w.param p).oncall k = false) {t : World D B} (ht : Restores (enterDispatch p k w) t) :
    Restores w (leaveDispatch p k t) := by
  have hext := enterDispatch_extends hg ht.toExtends
  refine ⟨⟨hext.trace, hext.fresh⟩, ?_, fun r k' => ?_, fun r => ?_⟩
  · show t.stack.tail = w.stack
    rw [ht.stack]
    rfl
  · by_cases hr : r = p
    · subst hr
      rw [param_leaveDispatch, CciParam.oncall_setOncall, ht.oncall, param_enterDispatch,
        CciParam.oncall_setOncall]
      by_cases hk : k' = k
      · rw [if_pos hk, hk, hg]
      · rw [if_neg hk, if_neg hk]
    · rw [param_leaveDispatch_of_ne t k hr, ht.oncall, param_enterDispatch_of_ne w k hr]
  · by_cases hr : r = p
    · subst hr
      rw [param_leaveDispatch]
      exact (ht.originator r).trans (by rw [param_enterDispatch]; rfl)
    · rw [param_leaveDispatch_of_ne t k hr, ht.originator, param_enterDispatch_of_ne w k hr]

theorem record_dispatch_restores {w : World D B} {p : D.Param} {k : CallbackKind}
    (hg : (w.param p).oncall k = false) : Restores w (w.record (.dispatch p k w.stack)) := by
  rw [← leaveDispatch_enterDispatch hg]
  exact leaveDispatch_restores hg (restores_composable.refl _)

theorem dispatch_restores {α : Type} {m : CciM D B α} {p : D.Param} {k : CallbackKind}
    (hm : Between Extends Restores m) {w : World D B} (hg : (w.param p).oncall k = false) :
    BetweenAt Extends Restores (scopedTrue p k m) w :=
  (hm _).scope (fun _ ht => enterDispatch_extends hg ht) (fun _ ht => leaveDispatch_restores hg ht)
    fun _ ht => ht.toExtends

theorem restores_closed {I : Interp D B}
    (hcall : ∀ f ev, Between Extends Restores (I.call f ev)) :
    Closed I I (fun _ _ => True) (fun _ m _ => Between Extends Restores m)
      (fun _ m _ => Between Extends Restores m) where
  outer := restores_reports
  inner := restores_reports
  call := hcall
  invoked _ _ _ _ _ := Between.modify restores_composable fun w => record_restores w trivial
  guarded p k init skip _ hact := by
    intro w
    cases hg : (w.param p).oncall k with
    | true => exact .of_run restores_composable (guarded_skip hg) (restores_composable.refl w)
    | false =>
      exact (dispatch_restores (Between.forEach restores_composable hact _ _ _) hg).congr
        (guarded_open hg)
  fastRead p := modifyParam_restores p fun _ => ⟨fun _ => rfl, rfl⟩

theorem restores_stores (p : D.Param) :
    Stores (fun α (m _ : CciM D B α) => Between Extends Restores m) p where
  value _ := modifyParam_restores p fun _ => ⟨fun _ => rfl, rfl⟩
  origin _ := modifyParam_restores p fun _ => ⟨fun _ => rfl, rfl⟩
  fastWrite _ := modifyParam_restores p fun _ => ⟨fun _ => rfl, rfl⟩

theorem oncall_lock {T : Type} (pwd : Option ℕ) (q : CciParam T) (k : CallbackKind) :
    (CciParamTyped.lock pwd q).2.oncall k = q.oncall k := by
  unfold CciParamTyped.lock CciParamUntyped.lock
  split <;> rfl

theorem originator_lock {T : Type} (pwd : Option ℕ) (q : CciParam T) :
    (CciParamTyped.lock pwd q).2.mOriginator = q.mOriginator := by
  unfold CciParamTyped.lock CciParamUntyped.lock
  split <;> rfl

theorem originator_unlock {T : Type} (pwd : Option ℕ) (q : CciParam T) :
    (CciParamUntyped.unlock pwd q).2.mOriginator = q.mOriginator := by
  unfold CciParamUntyped.unlock
  split <;> rfl

theorem originator_unregisterCallback {T : Type} (j : CallbackKind) (cb : CallbackHandle)
    (o : CciOriginator) (q : CciParam T) :
    (CciParamUntyped.unregisterCallback j cb o q).2.mOriginator = q.mOriginator := by
  unfold CciParamUntyped.unregisterCallback
  split <;> rfl

theorem oncall_unlock {T : Type} (pwd : Option ℕ) (q : CciParam T) (k : CallbackKind) :
    (CciParamUntyped.unlock pwd q).2.oncall k = q.oncall k := by
  unfold CciParamUntyped.unlock
  split <;> rfl

theorem oncall_registerCallback {T : Type} (j : CallbackKind) (cb : CallbackHandle)
    (o : CciOriginator) (q : CciParam T) (k : CallbackKind) :
    (CciParamUntyped.registerCallback j cb o q).2.oncall k = q.oncall k := by
  simp only [CciParamUntyped.registerCallback, CciParam.oncall_setVec]
  rfl

theorem oncall_unregisterCallback {T : Type} (j : CallbackKind) (cb : CallbackHandle)
    (o : CciOriginator) (q : CciParam T) (k : CallbackKind) :
    (CciParamUntyped.unregisterCallback j cb o q).2.oncall k = q.oncall k := by
  unfold CciParamUntyped.unregisterCallback
  split
  · exact q.oncall_setVec _ _ _
  · rfl

theorem oncall_unregisterAllCallbacks {T : Type} (o : CciOriginator) (q : CciParam T)
    (k : CallbackKind) : (CciParamUntyped.unregisterAllCallbacks o q).2.oncall k = q.oncall k := by
  simp only [CciParamUntyped.unregisterAllCallbacks, CciParamUntyped.unregisterAllOf,
    CciParam.oncall_setVec]

theorem restores_administers [CciBrokerIf B D.BrokerHandle D.CciValue] :
    Administers fun α (m _ : CciM D B α) => Between Extends Restores m where
  lock p pwd := modifyParam_restores p fun q => ⟨oncall_lock pwd q, originator_lock pwd q⟩
  unlock p pwd := modifyParam_restores p fun q => ⟨oncall_unlock pwd q, originator_unlock pwd q⟩
  setPreset := restores_reports.setPreset fun _ => Between.modify restores_composable fun _ =>
    restores_of_same_trace rfl rfl fun _ => ⟨fun _ => rfl, rfl⟩

theorem restores_registers :
    Registers fun α (m _ : CciM D B α) => Between Extends Restores m where
  register p k cb o := modifyParam_restores p fun q => ⟨oncall_registerCallback k cb o q, rfl⟩
  registerOwn p k cb := modifyParam_restores p fun q =>
    ⟨oncall_registerCallback k cb q.mOriginator { q with fastRead := false, fastWrite := false }, rfl⟩
  unregister p k cb o := modifyParam_restores p fun q =>
    ⟨oncall_unregisterCallback k cb o q, originator_unregisterCallback k cb o q⟩
  unregisterAll p o := modifyParam_restores p fun q => ⟨oncall_unregisterAllCallbacks o q, rfl⟩

section

variable [CciBrokerIf B D.BrokerHandle D.CciValue]

theorem run_restores {I : Interp D B}
    (hcall : ∀ f ev, Between Extends Restores (I.call f ev)) (c : Cmd D) :
    Between Extends Restores (c.run I) :=
  (restores_closed hcall).run_all (fun _ => ⟨trivial, trivial⟩) c
    (fun p _ => ⟨restores_stores p, trivial, trivial⟩) restores_administers restores_registers

/-- The commands restore the guards if the callback bodies do. -/
theorem exec_restores {I : Interp D B}
    (hcall : ∀ f ev, Between Extends Restores (I.call f ev)) (c : Cmd D) :
    Between Extends Restores (exec I c) := by
  have hrun := run_restores hcall c
  intro w
  have hstep : Restores w (w.record (.step c w.store)) := record_restores w trivial
  have hdone : ∀ t : World D B, Restores t (t.record (.done c t.store)) := fun t =>
    record_restores t trivial
  exact (hrun _).scope (fun t ht => restores_composable.after hstep ht)
    (fun t ht => restores_composable.trans (restores_composable.trans hstep ht) (hdone t))
    fun t ht => ht.toExtends

theorem interp_restores (Γ : CallbackImpl → Payload D → Prog D) (n : ℕ) :
    ∀ f ev, Between Extends Restores ((interp Γ n : Interp D B).call f ev) := by
  induction n with
  | zero =>
    intro f ev w
    exact ⟨restores_composable.weaken (restores_composable.refl w), fun h => Bool.noConfusion h⟩
  | succ n ih =>
    exact fun f ev => restores_reports.runProg (interp Γ n) (interp Γ n) (fun _ => True)
      (fun c _ => exec_restores ih c) (Γ f ev).all_true

end

/-! ### Termination -/

/-- The guards are `g` and the callback lists `ℓ`. -/
def Stands (g : D.Param → CallbackKind → Bool) (ℓ : D.Param → CallbackKind → List CallbackObj)
    (w : World D B) : Prop :=
  ∀ p k, (w.param p).oncall k = g p k ∧ (w.param p).vec k = ℓ p k

/-- The guard of one list set to `b`. -/
def setGuard (g : D.Param → CallbackKind → Bool) (p : D.Param) (k : CallbackKind) (b : Bool) :
    D.Param → CallbackKind → Bool :=
  Function.update g p (Function.update (g p) k b)

theorem setGuard_apply (g : D.Param → CallbackKind → Bool) (p r : D.Param) (k j : CallbackKind)
    (b : Bool) : setGuard g p k b r j = if r = p ∧ j = k then b else g r j := by
  unfold setGuard
  by_cases hr : r = p
  · subst hr
    by_cases hj : j = k
    · subst hj
      simp
    · simp [hj]
  · simp [hr]

theorem Stands.setParam {g : D.Param → CallbackKind → Bool}
    {ℓ : D.Param → CallbackKind → List CallbackObj} {w : World D B} (h : Stands g ℓ w) {p : D.Param}
    {k : CallbackKind} (b : Bool) {q : CciParam (D.Value p)}
    (hq : ∀ j, q.oncall j = (if j = k then b else (w.param p).oncall j) ∧
      q.vec j = (w.param p).vec j) : Stands (setGuard g p k b) ℓ (w.setParam p q) := by
  intro r j
  rw [setGuard_apply]
  by_cases hr : r = p
  · subst hr
    rw [World.param_setParam, (hq j).1, (hq j).2]
    refine ⟨?_, (h r j).2⟩
    by_cases hj : j = k
    · rw [if_pos hj, if_pos ⟨rfl, hj⟩]
    · rw [if_neg hj, if_neg fun hc => hj hc.2]
      exact (h r j).1
  · rw [World.param_setParam_of_ne w q hr, if_neg fun hc => hr hc.1]
    exact h r j

theorem modifyParam_stands {g : D.Param → CallbackKind → Bool}
    {ℓ : D.Param → CallbackKind → List CallbackObj} (p : D.Param)
    {f : CciParam (D.Value p) → CciParam (D.Value p)}
    (hf : ∀ q k, (f q).oncall k = q.oncall k ∧ (f q).vec k = q.vec k) :
    Ends (Stands g ℓ) (modifyParam p f : CciM D B Unit) := by
  refine Ends.modify fun w hw r j => ?_
  by_cases hr : r = p
  · subst hr
    rw [World.param_setParam, (hf _ j).1, (hf _ j).2]
    exact hw r j
  · rw [World.param_setParam_of_ne w _ hr]
    exact hw r j

/-- How many guards are clear. -/
def clearGuards [Fintype D.Param] (g : D.Param → CallbackKind → Bool) : ℕ :=
  (Finset.univ.filter fun x : D.Param × CallbackKind => g x.1 x.2 = false).card

theorem clearGuards_setGuard [Fintype D.Param] {g : D.Param → CallbackKind → Bool} {p : D.Param}
    {k : CallbackKind} (h : g p k = false) : clearGuards (setGuard g p k true) < clearGuards g := by
  refine Finset.card_lt_card ⟨fun x hx => ?_, fun hsub => ?_⟩
  · simp only [Finset.mem_filter, Finset.mem_univ, true_and, setGuard_apply] at hx ⊢
    split at hx
    · cases hx
    · exact hx
  · have hin := @hsub (p, k) (by simp [h])
    simp [setGuard_apply] at hin

section

variable [Fintype D.Param] {ℓ : D.Param → CallbackKind → List CallbackObj}

/-- Ends under any guards of which fewer than `c` are clear. -/
def EndsBelow (ℓ : D.Param → CallbackKind → List CallbackObj) (c : ℕ) (α : Type)
    (m _ : CciM D B α) : Prop :=
  ∀ g, clearGuards g < c → Ends (Stands g ℓ) m

theorem endsBelow_reports (c : ℕ) : Reports (EndsBelow (B := B) ℓ c) where
  pure a _ _ := (Ends.plumbing _).pure a
  bind hm hf g hg := (hm g hg).bind fun a => hf a g hg
  attempt hm g hg := (hm g hg).attempt
  gets f _ _ := (Ends.plumbing _).gets f
  raise e _ _ := (Ends.plumbing _).raise e
  abort _ _ := (Ends.plumbing _).abort
  report _ _ _ := Ends.modify fun _ hw => hw

/-- What ends with one clear guard less inside a dispatch, ends around it. -/
theorem endsBelow_guarded {I : Interp D B} {c : ℕ} (hfuel : ∀ p k, (ℓ p k).length ≤ I.fuel)
    {α : Type} {act : CallbackObj → α → CciM D B α} (p : D.Param) (k : CallbackKind)
    (init skip : α) (hact : ∀ e a, EndsBelow ℓ c α (act e a) (act e a)) :
    EndsBelow ℓ (c + 1) α (guarded I p k act init skip) (guarded I p k act init skip) := by
  intro g hg w hw
  cases ho : (w.param p).oncall k with
  | true =>
    rw [guarded_skip ho]
    exact ⟨rfl, fun _ => hw⟩
  | false =>
    rw [guarded_open ho]
    have hclear : g p k = false := (hw p k).1.symm.trans ho
    have hless := clearGuards_setGuard hclear
    have hloop : Ends (Stands (setGuard g p k true) ℓ)
        (Eff.forEach (entryAt p k) act I.fuel 0 init : CciM D B α) := by
      refine Ends.forEach (fun e a => hact e a _ (by omega)) _ _ _ fun t ht => ?_
      rw [entryAt, (ht p k).2, Nat.zero_add]
      exact List.getElem?_eq_none (hfuel p k)
    refine hloop.scope (fun t ht => ?_) (fun t ht => ?_) w hw
    · exact Stands.setParam ht true fun j =>
        ⟨CciParam.oncall_setOncall _ _ _ _, CciParam.vec_setOncall _ _ _ _⟩
    · have hback := Stands.setParam ht (p := p) (k := k) false
        (q := (t.param p).setOncall k false) fun j =>
          ⟨CciParam.oncall_setOncall _ _ _ _, CciParam.vec_setOncall _ _ _ _⟩
      have hg : setGuard (setGuard g p k true) p k false = g := by
        funext r j
        simp only [setGuard_apply]
        by_cases hrj : r = p ∧ j = k
        · rw [if_pos hrj, hrj.1, hrj.2, hclear]
        · rw [if_neg hrj, if_neg hrj]
      rw [hg] at hback
      exact hback

theorem endsBelow_closed {I : Interp D B} {c : ℕ} (hfuel : ∀ p k, (ℓ p k).length ≤ I.fuel)
    (hcall : ∀ f ev, EndsBelow ℓ c Bool (I.call f ev) (I.call f ev)) :
    Closed I I (fun _ _ => True) (EndsBelow ℓ (c + 1)) (EndsBelow ℓ c) where
  outer := endsBelow_reports _
  inner := endsBelow_reports _
  call := hcall
  invoked _ _ _ _ _ _ _ := Ends.modify fun _ hw => hw
  guarded p k init skip _ hact := endsBelow_guarded hfuel p k init skip hact
  fastRead p _ _ := modifyParam_stands p fun _ _ => ⟨rfl, rfl⟩

theorem endsBelow_stores (c : ℕ) (p : D.Param) : Stores (EndsBelow (B := B) ℓ c) p where
  value _ _ _ := modifyParam_stands p fun _ _ => ⟨rfl, rfl⟩
  origin _ _ _ := modifyParam_stands p fun _ _ => ⟨rfl, rfl⟩
  fastWrite _ _ _ := modifyParam_stands p fun _ _ => ⟨rfl, rfl⟩

theorem endsBelow_administers [CciBrokerIf B D.BrokerHandle D.CciValue] (c : ℕ) :
    Administers (EndsBelow (B := B) ℓ c) where
  lock p pwd _ _ := modifyParam_stands p fun q k => by
    unfold CciParamTyped.lock CciParamUntyped.lock
    split <;> exact ⟨rfl, rfl⟩
  unlock p pwd _ _ := modifyParam_stands p fun q k => by
    unfold CciParamUntyped.unlock
    split <;> exact ⟨rfl, rfl⟩
  setPreset := (endsBelow_reports c).setPreset fun _ _ _ => Ends.modify fun _ hw => hw

variable [CciBrokerIf B D.BrokerHandle D.CciValue]

/-- A command that keeps the registrations ends, if the callback bodies end with one guard less. -/
theorem exec_ends {I : Interp D B} {c : ℕ} (hfuel : ∀ p k, (ℓ p k).length ≤ I.fuel)
    (hcall : ∀ f ev, EndsBelow ℓ c Bool (I.call f ev) (I.call f ev)) (cmd : Cmd D)
    (hcmd : cmd.keepsRegistrations = true) :
    EndsBelow ℓ (c + 1) _ (exec I cmd) (exec I cmd) := by
  intro g hg
  have hrun := (endsBelow_closed hfuel hcall).run (fun _ => ⟨trivial, trivial⟩) cmd
    (fun p _ => ⟨endsBelow_stores _ p, trivial, trivial⟩) (endsBelow_administers _) hcmd g hg
  exact hrun.scope (fun _ hw => hw) fun _ hw => hw

/-- Bodies that keep the registrations end: the induction is on the number of clear guards, and each
of them costs one unit of fuel. -/
theorem interp_ends {Γ : CallbackImpl → Payload D → Prog D}
    (hΓ : ∀ f ev, (Γ f ev).All fun cmd => cmd.keepsRegistrations = true) {L : ℕ}
    (hL : ∀ p k, (ℓ p k).length ≤ L) (c : ℕ) :
    ∀ n, c + L ≤ n → ∀ f ev, EndsBelow ℓ c Bool ((interp Γ n : Interp D B).call f ev)
      ((interp Γ n).call f ev) := by
  induction c with
  | zero => exact fun n _ f ev g hg => absurd hg (Nat.not_lt_zero _)
  | succ c ih =>
    intro n hn f ev
    obtain ⟨n, rfl⟩ : ∃ m, n = m + 1 := ⟨n - 1, by omega⟩
    have hfuel : ∀ p k, (ℓ p k).length ≤ (interp Γ n : Interp D B).fuel := by
      intro p k
      have hlen := hL p k
      cases n with
      | zero => exact hlen.trans (by omega)
      | succ n => exact hlen.trans (show L ≤ n + 1 by omega)
    exact (endsBelow_reports _).runProg (interp Γ n) (interp Γ n) _
      (fun cmd hcmd => exec_ends hfuel (ih n (by omega)) cmd hcmd) (hΓ f ev)

end

/-! ### More fuel -/

theorem approximates_reports : Reports fun α (m m' : CciM D B α) => Approximates m m' where
  toPlumbing := Approximates.plumbing
  report _ := Approximates.refl _

theorem approximates_closed {I I' : Interp D B} (hfuel : I.fuel ≤ I'.fuel)
    (hcall : ∀ f ev, Approximates (I.call f ev) (I'.call f ev)) :
    Closed I I' (fun _ _ => True) (fun _ m m' => Approximates m m')
      (fun _ m m' => Approximates m m') where
  outer := approximates_reports
  inner := approximates_reports
  call := hcall
  invoked _ _ _ _ _ := Approximates.refl _
  guarded p k init skip _ hact := by
    refine Approximates.bind (Approximates.refl _) fun q => approximates_reports.ite
      (Approximates.refl _) ?_
    exact Approximates.bind (Approximates.refl _) fun _ =>
      (Approximates.forEach hact hfuel 0 init).finalizing
  fastRead _ := Approximates.refl _

section

variable [CciBrokerIf B D.BrokerHandle D.CciValue]

theorem exec_approximates {I I' : Interp D B} (hfuel : I.fuel ≤ I'.fuel)
    (hcall : ∀ f ev, Approximates (I.call f ev) (I'.call f ev)) (c : Cmd D) :
    Approximates (exec I c) (exec I' c) := by
  have hrun := (approximates_closed hfuel hcall).run_all (fun _ => ⟨trivial, trivial⟩) c
    (fun _ _ => ⟨⟨fun _ => .refl _, fun _ => .refl _, fun _ => .refl _⟩, trivial, trivial⟩)
    ⟨fun _ _ => .refl _, fun _ _ => .refl _, fun _ _ _ _ => .refl _⟩
    ⟨fun _ _ _ _ => .refl _, fun _ _ _ => .refl _, fun _ _ _ _ => .refl _, fun _ _ => .refl _⟩
  exact Approximates.bind (Approximates.refl _) fun _ => hrun.finalizing

theorem interp_fuel (Γ : CallbackImpl → Payload D → Prog D) (n : ℕ) :
    (interp Γ n : Interp D B).fuel = n := by
  cases n <;> rfl

theorem interp_approximates (Γ : CallbackImpl → Payload D → Prog D) :
    ∀ {n m : ℕ}, n ≤ m → ∀ f ev, Approximates ((interp Γ n : Interp D B).call f ev)
      ((interp Γ m).call f ev) := by
  intro n
  induction n with
  | zero =>
    intro m _ f ev w h
    cases h
  | succ n ih =>
    intro m hnm f ev
    obtain ⟨m, rfl⟩ : ∃ k, m = k + 1 := ⟨m - 1, by omega⟩
    have hfuel : (interp Γ n : Interp D B).fuel ≤ (interp Γ m : Interp D B).fuel := by
      rw [interp_fuel, interp_fuel]
      omega
    exact approximates_reports.runProg _ _ (fun _ => True)
      (fun c _ => exec_approximates hfuel (ih (by omega)) c) (Γ f ev).all_true

/-- **Reentrant dispatch terminates and restores its guards.**  With callback bodies that are finite
programs without registration changes, every such operation ends for all large enough fuel with the
same result, no list is dispatched while it is under dispatch, and once control came back every guard
is as before. -/
theorem reentrant_dispatch_terminates [Fintype D.Param] (Γ : CallbackImpl → Payload D → Prog D)
    (hΓ : ∀ f ev, (Γ f ev).All fun cmd => cmd.keepsRegistrations = true) (w : World D B)
    (hw : w.stack = []) (c : Cmd D) (hc : c.keepsRegistrations = true) :
    ∃ N, ∀ n, N ≤ n →
      (exec (interp Γ n) c w).1.finished = true ∧
      exec (interp Γ n) c w = exec (interp Γ N) c w ∧
      (∀ p k st, .dispatch p k st ∈ (exec (interp Γ n) c w).2.trace →
        .dispatch p k st ∈ w.trace ∨ ((p, k) :: st).Nodup) ∧
      ((exec (interp Γ n) c w).1.returned = true → ∀ p k,
        ((exec (interp Γ n) c w).2.param p).oncall k = (w.param p).oncall k) := by
  let g : D.Param → CallbackKind → Bool := fun p k => (w.param p).oncall k
  let ℓ : D.Param → CallbackKind → List CallbackObj := fun p k => (w.param p).vec k
  obtain ⟨L, hL⟩ : ∃ L, ∀ p k, (ℓ p k).length ≤ L :=
    ⟨Finset.univ.sup fun x : D.Param × CallbackKind => (ℓ x.1 x.2).length, fun p k =>
      Finset.le_sup (f := fun x : D.Param × CallbackKind => (ℓ x.1 x.2).length)
        (Finset.mem_univ (p, k))⟩
  have hends : ∀ n, clearGuards g + L ≤ n → (exec (interp Γ n) c w).1.finished = true := by
    intro n hn
    have hfuel : ∀ p k, (ℓ p k).length ≤ (interp Γ n : Interp D B).fuel := by
      intro p k
      have hlen := hL p k
      rw [interp_fuel]
      omega
    exact (exec_ends hfuel (interp_ends hΓ hL (clearGuards g) n hn) c hc g (Nat.lt_succ_self _) w
      fun _ _ => ⟨rfl, rfl⟩).1
  refine ⟨clearGuards g + L, fun n hn => ⟨hends n hn, ?_, fun p k st he => ?_, fun hret p k => ?_⟩⟩
  · have hfuel : (interp Γ (clearGuards g + L) : Interp D B).fuel ≤
        (interp Γ n : Interp D B).fuel := by
      rw [interp_fuel, interp_fuel]
      exact hn
    exact exec_approximates hfuel (interp_approximates Γ hn) c w (hends _ le_rfl)
  · have hnested : w.Nested := by
      rw [World.Nested, hw]
      exact ⟨List.nodup_nil, fun _ hx => absurd hx List.not_mem_nil⟩
    exact (exec_restores (interp_restores Γ n) c w).1.fresh hnested _ he
  · exact ((exec_restores (interp_restores Γ n) c w).2 hret).oncall p k

end

/-- `untyped_post_write_callback` of `ex11_param_value_sync`: the new value of one parameter is
written to the other, both ways. -/
def synchValues (_ : CallbackImpl) : Payload (natDesign Bool true) → Prog (natDesign Bool true)
  | .untyped p (.write _ newValue _ _) =>
      .cmd (.setCciValue (!p) newValue none (.named "sync")) fun _ => .ret true
  | _ => .ret true

/-- Two parameters that update each other come to rest. -/
theorem reentrant_dispatch_terminates_sync :
    let I : Interp (natDesign Bool true) (ConsumingBroker Bool ℕ) := interp synchValues 0
    let cb : CallbackHandle := some (.impl ⟨1, ⟨.writeEvent none, .void⟩⟩)
    let w₀ := natWorld true (fun p => if p then "top.a" else "top.b") (fun _ => 1) (.named "top") {}
    let w := states (exec I) w₀ [.handleRegisterCallback false .postWrite cb (.named "sync"),
      .handleRegisterCallback true .postWrite cb (.named "sync")]
    ∃ N, ∀ n, N ≤ n → (exec (interp synchValues n) (.setValue false (1 : ℕ)) w).1.finished = true := by
  intro I cb w₀ w
  have hbodies : ∀ f ev, (synchValues f ev).All fun cmd => cmd.keepsRegistrations = true := by
    intro f ev
    unfold synchValues
    split
    · exact .cmd rfl fun _ => .ret true
    · exact .ret true
  have : Fintype (natDesign Bool true).Param := inferInstanceAs (Fintype Bool)
  obtain ⟨N, hN⟩ := reentrant_dispatch_terminates synchValues hbodies w rfl
    (.setValue false (1 : ℕ)) rfl
  exact ⟨N, fun n hn => (hN n hn).1⟩

end Cci
