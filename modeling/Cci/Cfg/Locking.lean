import Cci.Cfg.WriteSpec
import Cci.Utils.ConsumingBroker

/-!
# Password locks

A parameter locked with an explicit key can be written and unlocked only by who presents the key.

* `Cmd.presents` — the command passes the key to a write or an unlock;
* `HeldBy` — the lock, the closed fast path, and the value and origin that must stay;
* `run_keeps_held`, `interp_keeps_held` — every command that does not present the key keeps it;
* `password_lock_holds` — so does every run.
-/

namespace Cci

open Effect CciParamTyped

variable {D : Design} {B : Type}

/-- The command passes the key `k` to a write of `p` or to its unlock. -/
def Cmd.presents (p : D.Param) (k : ℕ) : Cmd D → Prop
  | .setValuePwd r _ pwd | .handleSetValue r _ pwd _ | .setCciValue r _ pwd _ | .unlock r pwd =>
      r = p ∧ pwd = some k
  | _ => False

/-- The object is locked with `k`, its fast path is closed, and it shows the value `v` with the
origin `o`. -/
structure HeldBy {T : Type} (k : ℕ) (v : T) (o : CciOriginator) (q : CciParam T) : Prop where
  lockPwd : q.mLockPwd = some k
  notOwn : q.this ≠ k
  slow : q.fastWrite = false
  value : q.mValue = v
  origin : q.mValueOrigin = o

section

variable {T : Type} {k : ℕ} {v : T} {o : CciOriginator} {q : CciParam T}

/-- Another key, or none, neither takes nor changes the lock. -/
theorem HeldBy.lock (h : HeldBy k v o q) (pwd : Option ℕ) :
    HeldBy k v o (CciParamTyped.lock pwd q).2 := by
  unfold CciParamTyped.lock CciParamUntyped.lock
  split
  · exact ⟨h.lockPwd, h.notOwn, rfl, h.value, h.origin⟩
  · rename_i hsame
    simp only [h.lockPwd, ne_eq, reduceCtorEq, not_false_eq_true, and_true, not_not] at hsame
    exact ⟨hsame, h.notOwn, rfl, h.value, h.origin⟩

theorem HeldBy.unlock (h : HeldBy k v o q) {pwd : Option ℕ} (hpwd : pwd ≠ some k) :
    HeldBy k v o (CciParamUntyped.unlock pwd q).2 := by
  have hne : some (CciParamUntyped.keyOf q pwd) ≠ q.mLockPwd := by
    rw [h.lockPwd]
    cases pwd with
    | none => exact fun hk => h.notOwn (Option.some.inj hk)
    | some key => exact hpwd
  unfold CciParamUntyped.unlock
  rw [if_neg hne]
  exact h

theorem HeldBy.unregisterCallback (h : HeldBy k v o q) (j : CallbackKind) (cb : CallbackHandle)
    (orig : CciOriginator) : HeldBy k v o (CciParamUntyped.unregisterCallback j cb orig q).2 := by
  unfold CciParamUntyped.unregisterCallback
  split
  · exact ⟨h.lockPwd, h.notOwn, h.slow, h.value, h.origin⟩
  · exact h

end

variable {p : D.Param} {k : ℕ} {v : D.Value p} {o : CciOriginator} {i : ℕ}

/-- The same of a parameter in the world, and in every store recorded past the first `i`. -/
structure World.Held (p : D.Param) (k : ℕ) (v : D.Value p) (o : CciOriginator) (i : ℕ)
    (w : World D B) : Prop where
  now : HeldBy k v o (w.param p)
  started : i ≤ w.recorded.length
  since : ∀ s ∈ w.recorded.drop i, HeldBy k v o (s.params p)

theorem World.Held.setParam {w : World D B} (hw : w.Held p k v o i) {r : D.Param}
    {q : CciParam (D.Value r)} (hnow : HeldBy k v o ((w.setParam r q).param p)) :
    (w.setParam r q).Held p k v o i := ⟨hnow, hw.started, hw.since⟩

/-- Recording an event without a store, or the store of the moment. -/
theorem World.Held.record {w : World D B} (hw : w.Held p k v o i) {e : TraceEvent D B}
    (he : e.store? = none ∨ e.store? = some w.store) : (w.record e).Held p k v o i := by
  have hrec : (w.record e).recorded = w.recorded ++ e.store?.toList := by
    rw [World.recorded, World.trace_record, List.filterMap_append]
    cases h : e.store? <;> simp [World.recorded, h]
  refine ⟨hw.now, ?_, fun s hs => ?_⟩
  · rw [hrec, List.length_append]
    exact hw.started.trans (Nat.le_add_right _ _)
  · rw [hrec, List.drop_append_of_le_length hw.started, List.mem_append] at hs
    rcases hs with hs | hs
    · exact hw.since s hs
    · rcases he with he | he <;> rw [he] at hs
      · cases hs
      · rw [List.mem_singleton.1 hs]
        exact hw.now

theorem World.Held.stack {w : World D B} (hw : w.Held p k v o i)
    (st : List (D.Param × CallbackKind)) :
    ({ w with stack := st } : World D B).Held p k v o i := ⟨hw.now, hw.started, hw.since⟩

theorem World.Held.shown {w : World D B} (hw : w.Held p k v o i) :
    ∀ s ∈ w.visible.drop i, HeldBy k v o (s.params p) := by
  intro s hs
  rw [World.visible, List.drop_append_of_le_length hw.started, List.mem_append] at hs
  rcases hs with hs | hs
  · exact hw.since s hs
  · rw [List.mem_singleton.1 hs]
    exact hw.now

theorem modifyParam_keeps_held {f : CciParam (D.Value p) → CciParam (D.Value p)}
    (hf : ∀ q, HeldBy k v o q → HeldBy k v o (f q)) :
    Keeps (World.Held p k v o i) (modifyParam p f : CciM D B Unit) :=
  Keeps.modify fun w hw => hw.setParam (by rw [World.param_setParam]; exact hf _ hw.now)

theorem modifyParam_keeps_held_of_ne {r : D.Param} (hr : r ≠ p)
    (f : CciParam (D.Value r) → CciParam (D.Value r)) :
    Keeps (World.Held p k v o i) (modifyParam r f : CciM D B Unit) :=
  Keeps.modify fun w hw => hw.setParam (by
    rw [World.param_setParam_of_ne w _ (Ne.symm hr)]
    exact hw.now)

/-- An update of any parameter that keeps the lock, if it is `p`. -/
theorem modifyParam_keeps_held_any {r : D.Param} {f : CciParam (D.Value r) → CciParam (D.Value r)}
    (hf : ∀ (v : D.Value r) (q : CciParam (D.Value r)), HeldBy k v o q → HeldBy k v o (f q)) :
    Keeps (World.Held p k v o i) (modifyParam r f : CciM D B Unit) := by
  by_cases hr : r = p
  · subst hr
    exact modifyParam_keeps_held (hf v)
  · exact modifyParam_keeps_held_of_ne hr f

theorem held_reports : Reports fun α (m _ : CciM D B α) => Keeps (World.Held p k v o i) m where
  toPlumbing := Keeps.plumbing _
  report _ := Keeps.modify fun _ hw => hw.record (.inl rfl)

theorem held_scopedTrue {α : Type} (r : D.Param) (j : CallbackKind) {m : CciM D B α}
    (hm : Keeps (World.Held p k v o i) m) : Keeps (World.Held p k v o i) (scopedTrue r j m) := by
  have hset : ∀ b, Keeps (World.Held p k v o i)
      (modifyParam r fun q => q.setOncall j b : CciM D B Unit) := fun b =>
    modifyParam_keeps_held_any fun _ q h => ⟨h.lockPwd, h.notOwn, h.slow, h.value, h.origin⟩
  refine Keeps.bind (Keeps.modify fun w hw => ?_) fun _ => Keeps.finalizing (fun w hw => ?_) hm
  · exact (World.Held.record (hset true w hw) (e := .dispatch r j w.stack) (.inl rfl)).stack _
  · exact (World.Held.stack (hset false w hw) _)

theorem held_closed {I : Interp D B} (hcall : ∀ f ev, Keeps (World.Held p k v o i) (I.call f ev)) :
    Closed I I (fun _ _ => True) (fun _ m _ => Keeps (World.Held p k v o i) m)
      (fun _ m _ => Keeps (World.Held p k v o i) m) where
  outer := held_reports
  inner := held_reports
  call := hcall
  invoked _ _ _ _ _ := Keeps.modify fun _ hw => hw.record (.inl rfl)
  guarded r j init skip _ hact := Keeps.bind (Keeps.gets _) fun _ => Keeps.ite (Keeps.pure skip)
    (held_scopedTrue r j (Keeps.forEach hact _ _ init))
  fastRead _ := modifyParam_keeps_held_any fun _ _ h =>
    ⟨h.lockPwd, h.notOwn, h.slow, h.value, h.origin⟩

theorem held_stores {r : D.Param} (hr : r ≠ p) :
    Stores (fun α (m _ : CciM D B α) => Keeps (World.Held p k v o i) m) r where
  value _ := modifyParam_keeps_held_of_ne hr _
  origin _ := modifyParam_keeps_held_of_ne hr _
  fastWrite _ := modifyParam_keeps_held_of_ne hr _

/-- Without the key a write of a locked parameter only reports. -/
theorem setRawValue_keeps_held (I : Interp D B) (v' : D.Value p) {pwd : Option ℕ}
    (hpwd : pwd ≠ some k) (orig : CciOriginator) :
    Keeps (World.Held p k v o i) (setRawValue I p v' pwd orig) := by
  intro w hw
  have hrefused : ∃ r, writeRefusal p pwd (w.param p) = some r := by
    unfold writeRefusal
    split
    · exact ⟨_, rfl⟩
    · cases pwd with
      | none => exact ⟨_, if_pos (by rw [CciParamUntyped.isLocked, hw.now.lockPwd]; rfl)⟩
      | some key => exact ⟨_, if_pos (by rw [hw.now.lockPwd]; exact hpwd)⟩
  obtain ⟨r, hr⟩ := hrefused
  rw [setRawValue_eq, hr]
  exact held_reports.refuse r w hw

/-- A write of any parameter, with another key if it is `p`. -/
theorem write_keeps_held {I : Interp D B}
    (hcall : ∀ f ev, Keeps (World.Held p k v o i) (I.call f ev)) (r : D.Param) (v' : D.Value r)
    {pwd : Option ℕ} (hpwd : r = p → pwd ≠ some k) (orig : CciOriginator) :
    Keeps (World.Held p k v o i) (setRawValue I r v' pwd orig) := by
  by_cases hr : r = p
  · subst hr
    exact setRawValue_keeps_held I v' (hpwd rfl) orig
  · exact (held_closed hcall).setRawValue (held_stores hr) ⟨trivial, trivial⟩ v' pwd orig

/-- The owner's write finds the fast path closed. -/
theorem setValue_keeps_held {I : Interp D B}
    (hcall : ∀ f ev, Keeps (World.Held p k v o i) (I.call f ev)) (r : D.Param) (v' : D.Value r) :
    Keeps (World.Held p k v o i) (setValue I r v') := by
  by_cases hr : r = p
  · subst hr
    intro w hw
    rw [setValue_slow hw.now.slow]
    exact setRawValue_keeps_held I v' (by simp) _ w hw
  · exact (held_closed hcall).setValue (held_stores hr) ⟨trivial, trivial⟩ v'

/-- The lock, an unlock or a registration. -/
theorem onParam_keeps_held {α : Type} (r : D.Param)
    {f : CciParam (D.Value r) → α × CciParam (D.Value r)}
    (hf : r = p → ∀ (v : D.Value r) (q : CciParam (D.Value r)), HeldBy k v o q →
      HeldBy k v o (f q).2) : Keeps (World.Held p k v o i) (onParam r f : CciM D B α) := by
  refine held_reports.onParam r ?_
  by_cases hr : r = p
  · subst hr
    exact modifyParam_keeps_held (hf rfl v)
  · exact modifyParam_keeps_held_of_ne hr _

variable [CciBrokerIf B D.BrokerHandle D.CciValue]

/-- A locked parameter is not reset. -/
theorem reset_keeps_held {I : Interp D B}
    (hcall : ∀ f ev, Keeps (World.Held p k v o i) (I.call f ev)) (r : D.Param) :
    Keeps (World.Held p k v o i) (reset I r) := by
  by_cases hr : r = p
  · subst hr
    intro w hw
    have hlocked : CciParamUntyped.isLocked (w.param r) = true := by
      rw [CciParamUntyped.isLocked, hw.now.lockPwd]
      rfl
    rw [reset_eq, if_pos hlocked]
    exact hw
  · exact (held_closed hcall).reset (held_stores hr) ⟨trivial, trivial⟩

/-- Every command that does not present the key keeps the lock, if the callback bodies do. -/
theorem run_keeps_held {I : Interp D B} (hcall : ∀ f ev, Keeps (World.Held p k v o i) (I.call f ev))
    {c : Cmd D} (hc : ¬c.presents p k) : Keeps (World.Held p k v o i) (c.run I) := by
  have hC := held_closed hcall
  have hans : ∀ {α : Type} {m : CciM D B α} (f : α → Answer D), Keeps (World.Held p k v o i) m →
      Keeps (World.Held p k v o i) (m >>= fun a => pure (f a)) :=
    fun f hm => Keeps.bind hm fun a => Keeps.pure (f a)
  have hread : ∀ r : D.Param, (fun _ _ => True : D.Param → CallbackKind → Prop) r .preRead ∧
      (fun _ _ => True : D.Param → CallbackKind → Prop) r .postRead := fun _ => ⟨trivial, trivial⟩
  have hpwd : ∀ {r : D.Param} {pwd : Option ℕ}, ¬(r = p ∧ pwd = some k) → r = p → pwd ≠ some k :=
    fun hnot hr hk => hnot ⟨hr, hk⟩
  cases c with
  | setValue r v' => exact hans _ (setValue_keeps_held hcall r v')
  | setValuePwd r v' pwd =>
    exact hans _ (Keeps.bind (Keeps.gets _) fun q =>
      write_keeps_held hcall r v' (hpwd hc) q.mOriginator)
  | handleSetValue r v' pwd orig => exact hans _ (write_keeps_held hcall r v' (hpwd hc) orig)
  | setCciValue r c pwd orig =>
    exact hans _ (Keeps.bind (hC.outer.cciValueGet r c) fun v' =>
      write_keeps_held hcall r v' (hpwd hc) orig)
  | getValue r => exact hans _ (hC.getValue (hread r))
  | handleGetValue r orig => exact hans _ (hC.getRawValue (hread r) orig)
  | getCciValue r orig => exact hans _ (hC.getCciValue (hread r) orig)
  | reset r => exact hans _ (reset_keeps_held hcall r)
  | lock r pwd => exact hans _ (onParam_keeps_held r fun _ _ _ h => h.lock pwd)
  | unlock r pwd => exact hans _ (onParam_keeps_held r fun hr _ _ h => h.unlock (hpwd hc hr))
  | isLocked r => exact hans _ (Keeps.gets _)
  | registerCallback r j cb =>
    exact hans _ (onParam_keeps_held r fun _ _ _ h =>
      ⟨h.lockPwd, h.notOwn, rfl, h.value, h.origin⟩)
  | handleRegisterCallback r j cb orig =>
    exact hans _ (onParam_keeps_held r fun _ _ _ h =>
      ⟨h.lockPwd, h.notOwn, rfl, h.value, h.origin⟩)
  | unregisterCallback r j cb orig =>
    exact hans _ (onParam_keeps_held r fun _ _ _ h => h.unregisterCallback j cb orig)
  | unregisterAllCallbacks r orig =>
    exact hans _ (onParam_keeps_held r fun _ _ _ h =>
      ⟨h.lockPwd, h.notOwn, h.slow, h.value, h.origin⟩)
  | setPresetCciValue h nm c orig =>
    exact hans _ (held_reports.setPreset (fun _ => Keeps.modify fun _ hw => ⟨hw.now, hw.started, hw.since⟩) h nm c orig)

/-- A command with its trace. -/
theorem exec_keeps_held {I : Interp D B} (hcall : ∀ f ev, Keeps (World.Held p k v o i) (I.call f ev))
    {c : Cmd D} (hc : ¬c.presents p k) : Keeps (World.Held p k v o i) (exec I c) :=
  Keeps.bind (Keeps.modify fun _ hw => hw.record (.inr rfl)) fun _ =>
    Keeps.finalizing (fun _ hw => hw.record (.inr rfl)) (run_keeps_held hcall hc)

/-- Callback bodies that do not present the key keep the lock, to any depth. -/
theorem interp_keeps_held {Γ : CallbackImpl → Payload D → Prog D}
    (hΓ : ∀ f ev, (Γ f ev).All fun c => ¬c.presents p k) (n : ℕ) (f : CallbackImpl)
    (ev : Payload D) : Keeps (World.Held p k v o i) ((interp Γ n : Interp D B).call f ev) := by
  induction n generalizing f ev with
  | zero => exact Keeps.diverge
  | succ n ih =>
    exact held_reports.runProg (interp Γ n) (interp Γ n) _
      (fun c hc => exec_keeps_held ih hc) (hΓ f ev)

/-! ### Runs -/

/-- An accepted lock with an explicit key. -/
theorem exec_lock {I : Interp D B} {w w₁ : World D B}
    (hlock : exec I (.lock p (some k)) w = (.ok (.flag true), w₁)) :
    (w₁.param p).mLockPwd = some k ∧ (w₁.param p).fastWrite = false ∧
      (w₁.param p).this = (w.param p).this ∧ (w₁.param p).mValue = (w.param p).mValue ∧
      (w₁.param p).mValueOrigin = (w.param p).mValueOrigin := by
  have hrun : exec I (.lock p (some k)) w = (.ok (.flag (CciParamTyped.lock (some k) (w.param p)).1),
      ((w.record (.step (.lock p (some k)) w.store)).setParam p
        (CciParamTyped.lock (some k) (w.param p)).2).record (.done (.lock p (some k))
          ((w.record (.step (.lock p (some k)) w.store)).setParam p
            (CciParamTyped.lock (some k) (w.param p)).2).store)) := rfl
  rw [hrun] at hlock
  obtain ⟨hflag, rfl⟩ := Prod.mk.inj hlock
  have htaken : (CciParamTyped.lock (some k) (w.param p)).1 = true := by simpa using hflag
  simp only [World.param_record, World.param_setParam]
  unfold CciParamTyped.lock CciParamUntyped.lock at htaken ⊢
  split
  · rename_i href
    rw [if_pos href] at htaken
    cases htaken
  · exact ⟨rfl, rfl, rfl, rfl, rfl⟩

/-- **A password lock holds.**  After `lock(k)` with an explicit key has returned true, in every run
that does not present the key, and whose callback bodies do not either, the parameter stays locked
and keeps its value and origin: in every store around a command from then on, nested ones
included. -/
theorem password_lock_holds (Γ : CallbackImpl → Payload D → Prog D) (n : ℕ) {p : D.Param} {k : ℕ}
    (hΓ : ∀ f ev, (Γ f ev).All fun c => ¬c.presents p k) {w w₁ w₂ : World D B}
    (hkey : k ≠ (w.param p).this)
    (hlock : exec (interp Γ n) (.lock p (some k)) w = (.ok (.flag true), w₁)) {cs : List (Cmd D)}
    (hrun : Calls (interp Γ n) w₁ cs w₂) (hcs : ∀ c ∈ cs, ¬c.presents p k) :
    ∀ s ∈ w₂.visible.drop w₁.recorded.length,
      CciParamUntyped.isLocked (s.params p) = true ∧ (s.params p).mValue = (w.param p).mValue ∧
        (s.params p).mValueOrigin = (w.param p).mValueOrigin := by
  obtain ⟨hpwd, hslow, hthis, hvalue, horigin⟩ := exec_lock hlock
  have hheld : w₁.Held p k (w.param p).mValue (w.param p).mValueOrigin w₁.recorded.length := by
    refine ⟨⟨hpwd, ?_, hslow, hvalue, horigin⟩, le_rfl, ?_⟩
    · rw [hthis]
      exact Ne.symm hkey
    · simp
  have hkept := hrun.keeps (fun c hc => exec_keeps_held (interp_keeps_held hΓ n) (hcs c hc)) hheld
  intro s hs
  have hby := hkept.shown s hs
  refine ⟨?_, hby.value, hby.origin⟩
  rw [CciParamUntyped.isLocked, hby.lockPwd]
  rfl

/-- Another key neither unlocks the parameter nor writes it. -/
theorem password_lock_holds_other_key :
    let I : Interp (natDesign Unit false) (ConsumingBroker Unit ℕ) := interp (fun _ _ => .ret true) 1
    let w := natWorld false (fun _ => "top.p") (fun _ => 1) (.named "owner") {}
    let w₁ := (exec I (.lock () (some 5)) w).2
    let cs : List (Cmd (natDesign Unit false)) := [.unlock () none, .setValuePwd () (7 : ℕ) (some 6),
      .setPresetCciValue () "top.p" (8 : ℕ) (.named "tool"), .reset ()]
    let w₂ := states (exec I) w₁ cs
    ∀ s ∈ w₂.visible.drop w₁.recorded.length,
      CciParamUntyped.isLocked (s.params ()) = true ∧ (s.params ()).mValue = (w.param ()).mValue ∧
        (s.params ()).mValueOrigin = (w.param ()).mValueOrigin := by
  intro I w w₁ cs w₂
  have hrun : Calls I w₁ cs w₂ := .cons rfl (.cons rfl (.cons rfl (.cons rfl (.nil _))))
  exact password_lock_holds (fun _ _ => .ret true) 1 (fun _ _ => .ret true)
    (show 5 ≠ (w.param ()).this by decide) rfl hrun (by simp [cs, Cmd.presents])

end Cci
