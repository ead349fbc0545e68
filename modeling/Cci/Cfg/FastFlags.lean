import Cci.Cfg.Updates
import Cci.Cfg.WriteSpec
import Cci.Utils.ConsumingBroker

/-!
# The fast paths open no bypass

`fast_write` and `fast_read` are cached: a write and a read recompute them, `lock`, `unlock` and the
registration of callbacks reset them.  Whatever calls are made, and wherever they are made from, the
cached flags stay sound.

* `FastFlagsSound` — what the flags promise;
* `FastFlagsSound.update` — each atomic update keeps the promise;
* `fast_flags_sound` — so it holds in every store that client code can look at, and neither an
  owner's write nor an owner's read skips a check or a callback there.
-/

namespace Cci

open Effect CciParamTyped

variable {D : Design} {B : Type}

/-- `fast_write` promises a mutable, unlocked parameter without write callbacks, `fast_read` one
without read callbacks. -/
structure FastFlagsSound (p : D.Param) (q : CciParam (D.Value p)) : Prop where
  write : q.fastWrite = true → D.mutableType p = .mutableParam ∧
    CciParamUntyped.isLocked q = false ∧ q.vec .preWrite = [] ∧ q.vec .postWrite = []
  read : q.fastRead = true → q.vec .preRead = [] ∧ q.vec .postRead = []

theorem CciParam.Constructed.fastFlagsSound {p : D.Param} {q : CciParam (D.Value p)}
    (h : q.Constructed) : FastFlagsSound p q :=
  ⟨fun hw => absurd (h.2.2.2.symm.trans hw) Bool.false_ne_true,
    fun hr => absurd (h.2.2.1.symm.trans hr) Bool.false_ne_true⟩

theorem fastWriteAllowed_iff {p : D.Param} {o : CciOriginator} {q : CciParam (D.Value p)} :
    fastWriteAllowed p o q = true ↔ D.mutableType p = .mutableParam ∧
      CciParamUntyped.isLocked q = false ∧ q.vec .preWrite = [] ∧ q.vec .postWrite = [] ∧
      (o == q.mOriginator) = true := by
  simp [fastWriteAllowed, and_assoc]

theorem fastReadAllowed_iff {T : Type} {q : CciParam T} :
    fastReadAllowed q = true ↔ q.vec .preRead = [] ∧ q.vec .postRead = [] := by
  simp [fastReadAllowed]

/-! ### One update -/

theorem unlock_locked {T : Type} (pwd : Option ℕ) (q : CciParam T)
    (h : CciParamUntyped.isLocked q = false) :
    CciParamUntyped.isLocked (CciParamUntyped.unlock pwd q).2 = false := by
  unfold CciParamUntyped.unlock
  split
  · rfl
  · exact h

/-- A step that changes neither the flags nor the lists, and locks nothing. -/
theorem FastFlagsSound.of_eq {p : D.Param} {q q' : CciParam (D.Value p)} (h : FastFlagsSound p q)
    (hw : q'.fastWrite = q.fastWrite) (hr : q'.fastRead = q.fastRead)
    (hlock : CciParamUntyped.isLocked q = false → CciParamUntyped.isLocked q' = false)
    (hvec : ∀ k, q.vec k = [] → q'.vec k = []) : FastFlagsSound p q' := by
  constructor
  · intro hf
    obtain ⟨hm, hl, h₁, h₂⟩ := h.write (hw ▸ hf)
    exact ⟨hm, hlock hl, hvec _ h₁, hvec _ h₂⟩
  · intro hf
    obtain ⟨h₁, h₂⟩ := h.read (hr ▸ hf)
    exact ⟨hvec _ h₁, hvec _ h₂⟩

theorem FastFlagsSound.off {p : D.Param} {q : CciParam (D.Value p)} (hw : q.fastWrite = false)
    (hr : q.fastRead = true → q.vec .preRead = [] ∧ q.vec .postRead = []) : FastFlagsSound p q :=
  ⟨fun hf => absurd (hw.symm.trans hf) Bool.false_ne_true, hr⟩

theorem eraseLoop_nil (o : CciOriginator) : (CciParamUntyped.eraseLoop o []).2 = [] := rfl

theorem fastFlags_lock {T : Type} (pwd : Option ℕ) (q : CciParam T) :
    (CciParamTyped.lock pwd q).2.fastWrite = false ∧
      (CciParamTyped.lock pwd q).2.fastRead = q.fastRead ∧
      (CciParamTyped.lock pwd q).2.callbacks = q.callbacks := by
  unfold CciParamTyped.lock CciParamUntyped.lock
  split <;> exact ⟨rfl, rfl, rfl⟩

/-- Every atomic update keeps the flags sound. -/
theorem FastFlagsSound.update {p : D.Param} {q q' : CciParam (D.Value p)} (hu : Update p q q')
    (h : FastFlagsSound p q) : FastFlagsSound p q' := by
  cases hu with
  | oncall k b => exact h.of_eq rfl rfl (fun hl => hl) fun k' hk => by rw [q.vec_setOncall, hk]
  | value v => exact h.of_eq rfl rfl (fun hl => hl) fun _ hk => hk
  | origin o => exact h.of_eq rfl rfl (fun hl => hl) fun _ hk => hk
  | fastWrite o =>
    refine ⟨fun hf => ?_, h.read⟩
    obtain ⟨hm, hl, h₁, h₂, -⟩ := fastWriteAllowed_iff.1 hf
    exact ⟨hm, hl, h₁, h₂⟩
  | fastRead => exact ⟨h.write, fun hf => fastReadAllowed_iff.1 hf⟩
  | lock pwd =>
    obtain ⟨hw, hr, hc⟩ := fastFlags_lock pwd q
    refine .off hw fun hf => ?_
    rw [hr] at hf
    simpa only [CciParam.vec, hc] using h.read hf
  | unlock pwd =>
    refine h.of_eq ?_ ?_ (unlock_locked pwd q) ?_ <;> unfold CciParamUntyped.unlock <;> split
    · rfl
    · rfl
    · rfl
    · rfl
    · exact fun _ hk => hk
    · exact fun _ hk => hk
  | register k cb o => exact .off rfl fun hf => Bool.noConfusion hf
  | unregister k cb o =>
    refine h.of_eq ?_ ?_ ?_ ?_ <;> unfold CciParamUntyped.unregisterCallback <;> split
    · rfl
    · rfl
    · rfl
    · rfl
    · exact fun hl => hl
    · exact fun hl => hl
    · rename_i hany
      intro k' hk
      rw [q.vec_setVec]
      by_cases hkk : k' = k
      · rw [if_pos hkk, ← hkk, hk]
        rfl
      · rw [if_neg hkk, hk]
    · exact fun _ hk => hk
  | unregisterAll o k =>
    refine h.of_eq rfl rfl (fun hl => hl) fun k' hk => ?_
    simp only [CciParamUntyped.unregisterAllOf, q.vec_setVec]
    by_cases hkk : k' = k
    · rw [if_pos hkk, ← hkk, hk, eraseLoop_nil]
    · rw [if_neg hkk, hk]

/-! ### What a fast path may skip -/

/-- With sound flags, an owner's write to a parameter that is immutable, locked or has a write
callback is the full write. -/
theorem FastFlagsSound.setValue_eq {I : Interp D B} {w : World D B} {p : D.Param}
    (h : FastFlagsSound p (w.param p))
    (hw : D.mutableType p ≠ .mutableParam ∨ CciParamUntyped.isLocked (w.param p) = true ∨
      (w.param p).vec .preWrite ≠ [] ∨ (w.param p).vec .postWrite ≠ []) (v : D.Value p) :
    setValue I p v w = setRawValue I p v none (w.param p).mOriginator w := by
  have hoff : (w.param p).fastWrite = false := by
    by_contra hon
    obtain ⟨hm, hl, h₁, h₂⟩ := h.write (by simpa using hon)
    rcases hw with hw | hw | hw | hw
    · exact hw hm
    · rw [hl] at hw
      exact Bool.false_ne_true hw
    · exact hw h₁
    · exact hw h₂
  exact setValue_slow hoff I v

/-- With sound flags, an owner's read of a parameter with a read callback is the full read. -/
theorem FastFlagsSound.getValue_eq {I : Interp D B} {w : World D B} {p : D.Param}
    (h : FastFlagsSound p (w.param p))
    (hr : (w.param p).vec .preRead ≠ [] ∨ (w.param p).vec .postRead ≠ []) :
    getValue I p w = getRawValue I p (w.param p).mOriginator w := by
  have hoff : (w.param p).fastRead = false := by
    by_contra hon
    obtain ⟨h₁, h₂⟩ := h.read (by simpa using hon)
    rcases hr with hr | hr
    · exact hr h₁
    · exact hr h₂
  simp only [getValue, getParam, Eff.gets_bind_run, hoff, Bool.false_eq_true, if_false]

/-- The full write changes nothing in an immutable or a locked parameter. -/
theorem setRawValue_refused {I : Interp D B} {w : World D B} {p : D.Param} (v : D.Value p)
    (o : CciOriginator)
    (hw : D.mutableType p = .immutableParam ∨ CciParamUntyped.isLocked (w.param p) = true) :
    (setRawValue I p v none o w).2.store = w.store := by
  have hr : ∃ r, writeRefusal p none (w.param p) = some r := by
    unfold writeRefusal
    by_cases hm : D.mutableType p = .immutableParam
    · exact ⟨_, if_pos hm⟩
    · have hl := hw.resolve_left hm
      rw [if_neg hm]
      exact ⟨_, if_pos hl⟩
  obtain ⟨r, hr⟩ := hr
  rw [setRawValue_eq, hr]
  exact refuse_store r w

variable [CciBrokerIf B D.BrokerHandle D.CciValue]

theorem fastFlags_invariant (Γ : CallbackImpl → Payload D → Prog D) (n : ℕ) (c : Cmd D) :
    Keeps (fun w : World D B => ∀ s ∈ w.visible, ∀ p, FastFlagsSound p (s.params p))
      (exec (interp Γ n) c) := by
  have hstep := visible_invariant (B := B) (S := fun p q => FastFlagsSound (D := D) p q)
    fun _ _ _ hq h => h.update hq
  exact hstep.keeps_exec (hstep.keeps_interp Γ n) c

/-- The flags are sound in every store of a run. -/
theorem fastFlags_calls {Γ : CallbackImpl → Payload D → Prog D} {n : ℕ} {w₀ w : World D B}
    (h₀ : w₀.Initial) {cs : List (Cmd D)} (hrun : Calls (interp Γ n) w₀ cs w) :
    ∀ s ∈ w.visible, ∀ p, FastFlagsSound p (s.params p) := by
  refine hrun.keeps (fun c _ => fastFlags_invariant Γ n c) fun s hs p => ?_
  simp only [World.visible, World.recorded, h₀.2.2, List.filterMap_nil, List.nil_append,
    List.mem_singleton] at hs
  subst hs
  exact (h₀.1 p).fastFlagsSound

/-- **The fast-path flags never open a bypass.**  In every store that client code can look at, from
the top level or from a callback, the flags are sound; so there an owner's write skips neither the
mutability, the lock nor a write callback, and an owner's read skips no read callback. -/
theorem fast_flags_sound (Γ : CallbackImpl → Payload D → Prog D) (n : ℕ) {w₀ w : World D B}
    (h₀ : w₀.Initial) {cs : List (Cmd D)} (hrun : Calls (interp Γ n) w₀ cs w) (c : Cmd D)
    {u : World D B} (hu : u.store ∈ (exec (interp Γ n) c w).2.visible) (p : D.Param) :
    FastFlagsSound p (u.param p) ∧
    (D.mutableType p ≠ .mutableParam ∨ CciParamUntyped.isLocked (u.param p) = true ∨
        (u.param p).vec .preWrite ≠ [] ∨ (u.param p).vec .postWrite ≠ [] →
      ∀ (I : Interp D B) (v : D.Value p),
        setValue I p v u = setRawValue I p v none (u.param p).mOriginator u) ∧
    (D.mutableType p = .immutableParam ∨ CciParamUntyped.isLocked (u.param p) = true →
      ∀ (I : Interp D B) (v : D.Value p), (setValue I p v u).2.store = u.store) ∧
    ((u.param p).vec .preRead ≠ [] ∨ (u.param p).vec .postRead ≠ [] →
      ∀ I : Interp D B, getValue I p u = getRawValue I p (u.param p).mOriginator u) := by
  have hall := fastFlags_invariant Γ n c w (fastFlags_calls h₀ hrun)
  have hp : FastFlagsSound p (u.param p) := hall _ hu p
  refine ⟨hp, fun hw I v => hp.setValue_eq hw v, fun hw I v => ?_, fun hr I => hp.getValue_eq hr⟩
  have hslow : D.mutableType p ≠ .mutableParam ∨ CciParamUntyped.isLocked (u.param p) = true ∨
      (u.param p).vec .preWrite ≠ [] ∨ (u.param p).vec .postWrite ≠ [] := by
    rcases hw with hw | hw
    · exact .inl (by rw [hw]; decide)
    · exact .inr (.inl hw)
  rw [hp.setValue_eq hslow v]
  exact setRawValue_refused v _ hw

/-- A write enables the fast path and a lock closes it again. -/
theorem fast_flags_sound_relock :
    let I : Interp (natDesign Unit true) (ConsumingBroker Unit ℕ) := interp (fun _ _ => .ret true) 0
    let w₀ := natWorld true (fun _ => "top.p") (fun _ => 1) (.named "owner") {}
    let w := (exec I (.setValue () (7 : ℕ)) w₀).2
    let u := (exec I (.lock () (some 5)) w).2
    (w.param ()).fastWrite = true ∧ (setValue I () (9 : ℕ) u).2.store = u.store := by
  intro I w₀ w u
  have hrun : Calls I w₀ [.setValue () (7 : ℕ)] w := .cons rfl (.nil _)
  exact ⟨rfl, (fast_flags_sound _ 0 (natWorld_initial _ _ _ _ _) hrun (.lock () (some 5))
    u.store_mem_visible ()).2.2.1 (.inr rfl) I (9 : ℕ)⟩

end Cci
